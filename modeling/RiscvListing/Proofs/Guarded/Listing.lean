import RiscvListing.Proofs.Labels.Run
import RiscvListing.Proofs.Report.CrossReference
import RiscvListing.Proofs.Guarded.Object
import RiscvListing.Proofs.Guarded.Instruction

namespace RiscvListing

def Labels.Counted (labels : Labels) : Prop :=
  labels.synthetic ≤ labels.size

namespace Labels

theorem counted_empty : empty.Counted :=
  Nat.zero_le _

theorem Counted.apply {labels : Labels} (counted : labels.Counted) (edit : Edit) :
    (edit.apply labels).Counted := by
  have size := labels.size_apply edit
  rw [Counted] at counted ⊢
  cases edit with
  | insert address name =>
    have same : ((Edit.insert address name).apply labels).synthetic = labels.synthetic := rfl
    split at size
    · omega
    · omega
  | ensure address =>
    cases known : labels.contains address with
    | true =>
      rw [Edit.apply, ensure_of_contains known]
      exact counted
    | false =>
      rw [Edit.address, if_neg (by simp [known])] at size
      have next : ((Edit.ensure address).apply labels).synthetic = labels.synthetic + 1 :=
        synthetic_ensure_of_not_contains known
      omega

theorem Counted.insertAll {labels : Labels} (counted : labels.Counted)
    (named : List (Address × String)) : (labels.insertAll named).Counted := by
  induction named generalizing labels with
  | nil => exact counted
  | cons entry named ih => exact ih (counted.apply (.insert entry.1 entry.2))

end Labels

namespace Guarded

def ensure (labels : Labels) (address : Address) : Guarded Labels :=
  if labels.contains address then return labels
  else do
    let next ← add labels.synthetic 1
    return ⟨labels.names.insert address (Labels.syntheticName labels.synthetic), next⟩

structure Decoded where
  code : CodeWord
  instruction : Instruction

def Decoded.target? (decoded : Decoded) : Option Address :=
  decoded.instruction.target? decoded.code.address

def decodeAll (code : List CodeWord) : Guarded (List Decoded) :=
  code.mapM fun word => return ⟨word, ← decode word.word⟩

def ofProgram (symbols : List Elf.Symbol) (program : List Decoded) : Guarded Labels :=
  (program.filterMap Decoded.target?).foldlM ensure
    (Labels.empty.insertAll (Elf.Symbol.functions symbols))

def instructionLine (labels : Labels) (decoded : Decoded) : Guarded String :=
  return "   " ++ Text.alignRight 5 (Text.hex decoded.code.address.toNat) '0' ++ ": \t" ++
    Text.alignRight 8 (Text.hex decoded.code.word.toNat) '0' ++ "\t" ++
      (← render labels decoded.code.address decoded.instruction)

def codeLines (labels : Labels) (decoded : Decoded) : Guarded (List String) := do
  let line ← instructionLine labels decoded
  match labels.get? decoded.code.address with
  | some name => return [Report.labelLine decoded.code.address name, line]
  | none => return [line]

def textLines (labels : Labels) (program : List Decoded) : Guarded (List String) :=
  return ".text" :: (← program.mapM (codeLines labels)).flatten

def disassemble (bytes : Bytes) (config : Config) : Guarded Report := do
  let object ← parse bytes config.strict
  let symbols ← symbols object
  let code ← code object
  let program ← decodeAll code
  let labels ← ofProgram symbols program
  let text ← textLines labels program
  return ⟨if config.emitSymtab then text ++ Report.symbolLines symbols else text⟩

/-- There are far more numbers than addresses, so that the counter never comes to its end. -/
theorem yields_ensure {labels : Labels} (counted : labels.Counted) (address : Address) :
    Yields (ensure labels address) (.ok (labels.ensure address)) := by
  have few := labels.size_le
  rw [Labels.Counted] at counted
  rw [ensure, Labels.ensure]
  split
  · exact yields_pure labels
  · exact (yields_add (by omega)).next (yields_pure _)

theorem yields_foldlM_ensure {labels : Labels} (counted : labels.Counted)
    (targets : List Address) :
    Yields (targets.foldlM ensure labels) (.ok (targets.foldl Labels.ensure labels)) := by
  induction targets generalizing labels with
  | nil => exact yields_pure labels
  | cons target targets ih =>
    rw [List.foldlM_cons]
    exact (yields_ensure counted target).next (ih (counted.apply (.ensure target)))

def Decoded.ofWord (code : CodeWord) : Decoded :=
  ⟨code, code.instruction⟩

theorem yields_decodeAll (code : List CodeWord) :
    Yields (decodeAll code) (.ok (code.map Decoded.ofWord)) := by
  refine yields_mapM fun word _ => ?_
  rw [decode_eq]
  exact yields_pure _

theorem yields_ofProgram (symbols : List Elf.Symbol) (code : List CodeWord) :
    Yields (ofProgram symbols (code.map Decoded.ofWord)) (.ok (.ofProgram symbols code)) := by
  rw [ofProgram, List.filterMap_map]
  exact yields_foldlM_ensure (Labels.counted_empty.insertAll _) _

theorem yields_codeLines (labels : Labels) (code : CodeWord) :
    Yields (codeLines labels (.ofWord code)) (.ok (Report.codeLines labels code)) := by
  have line : instructionLine labels (.ofWord code) =
      pure (Report.instructionLine labels code) := by
    rw [instructionLine, render_eq, pure_bind]
    rfl
  have place : (Decoded.ofWord code).code = code := rfl
  rw [codeLines, line, pure_bind, Report.codeLines, place]
  cases labels.get? code.address with
  | some name => exact yields_pure _
  | none => exact yields_pure _

theorem yields_textLines (labels : Labels) (code : List CodeWord) :
    Yields (textLines labels (code.map Decoded.ofWord)) (.ok (Report.textLines labels code)) := by
  rw [textLines, List.mapM_map]
  refine (yields_mapM fun word _ => yields_codeLines labels word).next ?_
  exact yields_pure _

/-- On a machine with words of 64 bits every sum, product, difference, shift and count of a listing
fits, every index is in range, and every loop comes to its end: the guards change nothing. -/
theorem disassemble_guarded {bytes : Bytes} (small : bytes.size < 2 ^ 63) (config : Config) :
    (Guarded.disassemble bytes config).run = .ok (RiscvListing.disassemble bytes config) := by
  refine (yields_parse small config.strict).bind fun object parsed => ?_
  have checked := Elf.Object.checked_of_parse parsed
  obtain ⟨-, image, -⟩ := (Elf.Object.parse_eq_ok_iff _ _ _).mp parsed
  have within : object.image.size < 2 ^ 63 := by
    rw [image]
    exact small
  refine (yields_symbols checked within).bind fun symbols _ => ?_
  refine (yields_code checked within).bind fun code _ => ?_
  refine (yields_decodeAll code).next ?_
  refine (yields_ofProgram symbols code).next ?_
  refine (yields_textLines _ code).next ?_
  exact yields_pure _

theorem wrappedLoop_guarded :
    ∃ report, (Guarded.disassemble wrappedLoop.bytes .standard).run = .ok (.ok report) ∧
      RiscvListing.disassemble wrappedLoop.bytes .standard = .ok report := by
  have strict : Config.standard.strict = true := rfl
  have small : wrappedLoop.bytes.size < 2 ^ 32 := by decide +kernel
  have listed := disassemble_layout wrappedLoop small strict
  refine ⟨_, ?_, listed⟩
  rw [disassemble_guarded (by omega), listed]

end Guarded

end RiscvListing
