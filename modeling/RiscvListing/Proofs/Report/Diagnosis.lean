import RiscvListing.Failure
import RiscvListing.Proofs.Elf.Diagnosis
import RiscvListing.Proofs.Report.Failure

namespace RiscvListing

open Elf

theorem Failure.isNotElf_object_iff (error : Error) :
    (Failure.object error).isNotElf = true ↔ error = .invalidMagic := by
  rw [isNotElf, decide_eq_true_eq, object.injEq]

theorem disassemble_eq_invalidMagic_iff (bytes : Bytes) (config : Config) :
    disassemble bytes config = .error .invalidMagic ↔ ¬Image.magic <+: bytes.toList := by
  rw [← Object.parse_eq_invalidMagic_iff bytes config.strict]
  cases parsed : Object.parse bytes config.strict with
  | error error =>
    rw [disassemble, parsed]
    simp [Bind.bind, Except.bind]
  | ok object =>
    have checked := Object.checked_of_parse parsed
    rw [disassemble_eq_error_iff parsed, Object.symbols_eq_error_iff checked]
    simp

/-- A file that is not accepted is complained about with the first condition that it violates.
What is called truncated would reach behind the end of the file, and a file is said not to be an
object exactly when the magic number is missing. -/
theorem parse_diagnosis (bytes : Bytes) (strict : Bool) :
    (∀ error, Object.parse bytes strict = .error error ↔
      ∃ condition, FirstViolated (Object.conditions bytes strict) condition ∧
        condition.error = error) ∧
    ((∃ object, Object.parse bytes strict = .ok object) ↔
      ∀ condition ∈ Object.conditions bytes strict, condition.holds) ∧
    (∀ offset count, Object.parse bytes strict = .error (.truncated offset count) →
      bytes.size < offset + count) ∧
    (∀ error, Object.parse bytes strict = .error error →
      ((Failure.object error).isNotElf = true ↔ ¬Image.magic <+: bytes.toList)) ∧
    ∀ (config : Config) (error : Error), disassemble bytes config = .error error →
      ((Failure.object error).isNotElf = true ↔ ¬Image.magic <+: bytes.toList) := by
  refine ⟨(Object.diagnosed_parse bytes strict).eq_error_iff,
    Object.parse_eq_ok_iff_conditions bytes strict, fun _ _ => Object.lt_of_parse_truncated, ?_, ?_⟩
  · intro error failed
    rw [← Object.parse_eq_invalidMagic_iff bytes strict, failed, Failure.isNotElf_object_iff,
      Except.error.injEq]
  · intro config error failed
    rw [← disassemble_eq_invalidMagic_iff bytes config, failed, Failure.isNotElf_object_iff,
      Except.error.injEq]

end RiscvListing
