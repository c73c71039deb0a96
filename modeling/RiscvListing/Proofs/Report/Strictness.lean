import RiscvListing.Proofs.Elf.Strictness
import RiscvListing.Proofs.Report.Failure

namespace RiscvListing

open Elf

variable (bytes : Bytes) (config : Config)

theorem disassemble_strict :
    disassemble bytes { config with strict := true } =
      match Object.missed? bytes with
      | some role => .error (.missingSection role)
      | none => disassemble bytes { config with strict := false } := by
  rw [disassemble, disassemble, Object.parse_strict]
  cases Object.missed? bytes with
  | some role => rfl
  | none => rfl

theorem unmissed_disassemble {config : Config} (lenient : config.strict = false) :
    Unmissed (disassemble bytes config) := by
  intro role failed
  cases parsed : Object.parse bytes config.strict with
  | error error =>
    rw [disassemble, parsed] at failed
    cases failed
    rw [lenient] at parsed
    exact Object.unmissed_parse bytes role parsed
  | ok object =>
    have unread := (disassemble_eq_error_iff parsed _).mp failed
    obtain ⟨index, -, same⟩ :=
      (Object.symbols_eq_error_iff (Object.checked_of_parse parsed) _).mp unread
    cases same

/-- Requiring the sections changes the result of a file only where its headers can be read and name
not all of them. The complaint is then about the first one that is absent. -/
theorem disassemble_strict_lenient :
    (∀ report, disassemble bytes { config with strict := true } = .ok report →
      disassemble bytes { config with strict := false } = .ok report) ∧
    (∀ error, disassemble bytes { config with strict := true } = .error error →
      (∀ role, error ≠ .missingSection role) →
        disassemble bytes { config with strict := false } = .error error) ∧
    (∀ error, disassemble bytes { config with strict := false } = .error error →
      disassemble bytes { config with strict := true } = .error error ∨
        ∃ role, disassemble bytes { config with strict := true } =
          .error (.missingSection role)) ∧
    (∀ role, disassemble bytes { config with strict := false } ≠
      .error (.missingSection role)) ∧
    (∀ role, disassemble bytes { config with strict := true } = .error (.missingSection role) ↔
      Image.Walkable ⟨bytes⟩ ∧ (∀ index, ¬Image.Named ⟨bytes⟩ role index) ∧
        ∀ earlier ∈ role.before, ∃ index, Image.Named ⟨bytes⟩ earlier index) := by
  have unmissed : Unmissed (disassemble bytes { config with strict := false }) :=
    unmissed_disassemble bytes rfl
  simp only [← Object.missed?_eq_some_iff, disassemble_strict]
  cases missed : Object.missed? bytes with
  | none =>
    refine ⟨fun _ listed => listed, fun _ failed _ => failed, fun _ failed => .inl failed,
      unmissed, ?_⟩
    intro role
    exact ⟨fun failed => absurd failed (unmissed role), by rintro ⟨⟩⟩
  | some absent =>
    refine ⟨by rintro report ⟨⟩, ?_, fun _ _ => .inr ⟨absent, rfl⟩, unmissed, ?_⟩
    · rintro error ⟨⟩ other
      exact absurd rfl (other absent)
    · intro role
      rw [Except.error.injEq, Error.missingSection.injEq, Option.some.injEq]

end RiscvListing
