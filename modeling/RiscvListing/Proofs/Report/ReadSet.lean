import RiscvListing.Proofs.Elf.ReadSet
import RiscvListing.Proofs.Report.CrossReference

namespace RiscvListing

open Elf

theorem disassemble_of_agrees {first : Bytes} {config : Config} {object : Object}
    {symbols : List Symbol} (parsed : Object.parse first config.strict = .ok object)
    (read : object.symbols = .ok symbols) {second : Bytes} (agrees : object.Agrees ⟨second⟩) :
    disassemble second config = disassemble first config := by
  have checked := Object.checked_of_parse parsed
  have moved : Object.parse second config.strict = .ok ⟨⟨second⟩, object.sections⟩ :=
    agrees.parse parsed
  have same := agrees.symbols checked (Object.not_dangling_of_symbols checked read)
  rw [disassemble, disassemble, parsed, moved]
  simp only [Bind.bind, Except.bind, same, agrees.code checked]

/-- The listing of a file depends on the bytes that are read for it alone: a file that has the same
ones is listed the same, bytes that are not read can be changed, such as those that tell the class,
the byte order, the machine and the types of the sections, and what is appended behind a zero byte
is not seen. -/
theorem disassemble_readSet {first : Bytes} {config : Config} {report : Report}
    (listed : disassemble first config = .ok report) :
    ∃ object, Object.parse first config.strict = .ok object ∧
      (∀ second, object.Agrees ⟨second⟩ → disassemble second config = .ok report) ∧
      (∀ second : Bytes, second.size = first.size →
        (∀ position, second[position]? ≠ first[position]? →
          ¬object.Reads position ∧ ¬object.NameEnds position) →
        disassemble second config = .ok report) ∧
      ∀ tail : List UInt8, disassemble (first ++ (0 :: tail).toArray) config = .ok report := by
  obtain ⟨object, symbols, code, parsed, read, -⟩ :=
    (disassemble_eq_ok_iff first config report).mp listed
  have named := Object.not_dangling_of_symbols (Object.checked_of_parse parsed) read
  have image : object.image = ⟨first⟩ := ((Object.parse_eq_ok_iff _ _ _).mp parsed).2.1
  have relisted : ∀ second, object.Agrees ⟨second⟩ → disassemble second config = .ok report := by
    intro second agrees
    rw [disassemble_of_agrees parsed read agrees, listed]
  refine ⟨object, parsed, relisted, ?_, ?_⟩
  · intro second same unread
    apply relisted
    apply Object.agrees_of_unread
    · rw [image]
      exact same
    · rw [image]
      exact unread
  · intro tail
    apply relisted
    have agrees := Object.agrees_append parsed named tail
    rw [image] at agrees
    exact agrees

theorem wrappedLoop_readSet :
    ∃ report, disassemble wrappedLoop.bytes .standard = .ok report ∧
      disassemble (wrappedLoop.bytes ++ [0, 0x7f, 0x45].toArray) .standard = .ok report := by
  have strict : Config.standard.strict = true := rfl
  have listed := disassemble_layout wrappedLoop (by decide +kernel) strict
  obtain ⟨object, -, -, -, appended⟩ := disassemble_readSet listed
  exact ⟨_, listed, appended [0x7f, 0x45]⟩

end RiscvListing
