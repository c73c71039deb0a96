import RiscvListing.Report.Basic
import RiscvListing.Proofs.Elf.Record

namespace RiscvListing

open Elf

theorem disassemble_eq_error_iff {bytes : Bytes} {config : Config} {object : Object}
    (parsed : Object.parse bytes config.strict = .ok object) (error : Error) :
    disassemble bytes config = .error error ↔ object.symbols = .error error := by
  obtain ⟨code, decoded⟩ := Object.code_of_checked (Object.checked_of_parse parsed)
  rw [disassemble, parsed]
  cases read : object.symbols with
  | error reason => simp [read, Bind.bind, Except.bind]
  | ok symbols => simp [read, decoded, Bind.bind, Except.bind, Pure.pure, Except.pure]

/-- After a file was parsed, all of its code can be read, and the only way to fail is a symbol
whose name would start behind the end of the file. -/
theorem parse_late_failure {bytes : Bytes} {strict : Bool} {object : Object}
    (parsed : Object.parse bytes strict = .ok object) :
    (∃ words, object.words = .ok words ∧
      words.length = object.sections.text.size.toNat / 4) ∧
    (∃ code, object.code = .ok code) ∧
    ((∃ error, object.symbols = .error error) ↔ ∃ index, object.Dangling index) ∧
    (∀ index, object.FirstDangling index →
      object.symbols = .error (.invalidOffset (object.symbolNameStart index))) ∧
    ((∀ index, ¬object.Dangling index) → ∃ symbols, object.symbols = .ok symbols ∧
      symbols.length = object.sections.symtab.size.toNat / 16) ∧
    (∀ config : Config, config.strict = strict → ∀ error,
      disassemble bytes config = .error error →
        (∃ index, object.FirstDangling index ∧
          error = .invalidOffset (object.symbolNameStart index)) ∧
        ∀ offset count, error ≠ .truncated offset count) := by
  have checked := Object.checked_of_parse parsed
  refine ⟨⟨_, Object.words_of_checked checked, by simp⟩, Object.code_of_checked checked,
    ⟨?_, ?_⟩, fun index => Object.symbols_of_firstDangling checked, ?_, ?_⟩
  · rintro ⟨error, failed⟩
    obtain ⟨index, first, -⟩ := (Object.symbols_eq_error_iff checked error).mp failed
    exact ⟨index, first.1⟩
  · rintro ⟨index, dangling⟩
    obtain ⟨first, least⟩ := Object.exists_firstDangling dangling
    exact ⟨_, Object.symbols_of_firstDangling checked least⟩
  · intro named
    exact ⟨_, Object.symbols_of_not_dangling checked named, by simp [Object.symbolCount]⟩
  · rintro config rfl error failed
    have unread := (disassemble_eq_error_iff parsed error).mp failed
    obtain ⟨index, first, rfl⟩ := (Object.symbols_eq_error_iff checked error).mp unread
    exact ⟨⟨index, first, rfl⟩, fun offset count same => by cases same⟩

/-- A file with a single section, which holds one symbol and whose header also tells where the
names of the sections are. -/
def danglingFile : Bytes :=
  (Image.magic ++ List.replicate 28 0 ++ wordBytes 52 ++ List.replicate 12 0 ++ halfBytes 1 ++
    halfBytes 0 ++ wordBytes 16 ++ List.replicate 12 0 ++ wordBytes 92 ++ wordBytes 16 ++
    List.replicate 16 0 ++ wordBytes 200 ++ List.replicate 12 0 ++
    [46, 115, 121, 109, 116, 97, 98]).toArray

def danglingObject : Object :=
  ⟨⟨danglingFile⟩, ⟨.empty .text, ⟨.symtab, 92, 16, 0⟩, .empty .strtab⟩⟩

theorem danglingFile_late_failure :
    Object.parse danglingFile false = .ok danglingObject ∧
      danglingObject.symbols = .error (.invalidOffset 200) := by
  have parsed : Object.parse danglingFile false = .ok danglingObject :=
    (Object.parse_eq_ok_iff _ _ _).mpr ⟨by decide +kernel, rfl, by decide +kernel⟩
  have first : danglingObject.FirstDangling 0 :=
    ⟨⟨by decide +kernel, by decide +kernel⟩, by omega⟩
  have start : danglingObject.symbolNameStart 0 = 200 := by decide +kernel
  obtain ⟨-, -, -, failed, -⟩ := parse_late_failure parsed
  rw [← start]
  exact ⟨parsed, failed 0 first⟩

end RiscvListing
