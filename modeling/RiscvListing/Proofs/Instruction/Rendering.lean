import Mathlib.Data.List.Nodup
import RiscvListing.Instruction.Render
import RiscvListing.Proofs.Text.Delimiter

namespace RiscvListing

namespace Register

theorem name_inj {first second : Register} : first.name = second.name ↔ first = second := by
  have distinct : ∀ index other : Fin 32, names.get index = names.get other → index = other := by
    decide +kernel
  constructor
  · intro same
    have numbers := distinct first.number.toFin second.number.toFin same
    have equal : first.number = second.number := BitVec.toFin_inj.mp numbers
    cases first
    cases second
    cases equal
    rfl
  · intro equal
    rw [equal]

theorem comma_not_mem_name (register : Register) : ',' ∉ register.name.toList := by
  have all : ∀ index : Fin 32, ',' ∉ (names.get index).toList := by decide +kernel
  exact all register.number.toFin

theorem name_append_inj {first second : Register} {separator rest tail : String}
    (comma : separator.toList.head? = some ',')
    (same : first.name ++ (separator ++ rest) = second.name ++ (separator ++ tail)) :
    first = second ∧ rest = tail := by
  have parts := Text.append_separator_inj comma first.comma_not_mem_name
    second.comma_not_mem_name same
  exact ⟨name_inj.mp parts.1, parts.2⟩

end Register

namespace Instruction

theorem signedDecimal_toInt_inj {first second : Immediate} :
    Text.signedDecimal first.toInt = Text.signedDecimal second.toInt ↔ first = second :=
  Text.signedDecimal_inj.trans BitVec.toInt_inj

theorem toList_baseOperand (offset : Immediate) (base : Register) :
    (baseOperand offset base).toList =
      (Text.signedDecimal offset.toInt).toList ++ '(' :: (base.name.toList ++ [')']) := by
  simp [baseOperand, String.toList_append]

theorem baseOperand_inj {offset other : Immediate} {base another : Register}
    (same : baseOperand offset base = baseOperand other another) :
    offset = other ∧ base = another := by
  have plain : ∀ n, '(' ∉ (Text.signedDecimal n).toList :=
    Text.not_mem_signedDecimal (by decide) (by decide)
  have characters := congrArg String.toList same
  rw [toList_baseOperand, toList_baseOperand] at characters
  obtain ⟨numbers, bases⟩ := Text.append_mark_inj (plain _) (plain _) characters
  have names := List.append_cancel_right bases
  exact ⟨signedDecimal_toInt_inj.mp (String.toList_inj.mp numbers),
    Register.name_inj.mp (String.toList_inj.mp names)⟩

theorem indexed_inj {rd other base another : Register} {offset distance : Immediate}
    (same : rd.name ++ ", " ++ baseOperand offset base =
      other.name ++ ", " ++ baseOperand distance another) :
    rd = other ∧ base = another ∧ offset = distance := by
  rw [String.append_assoc, String.append_assoc] at same
  obtain ⟨registers, place⟩ := Register.name_append_inj rfl same
  obtain ⟨offsets, bases⟩ := baseOperand_inj place
  exact ⟨registers, bases, offsets⟩

theorem sourced_inj {rd other rs1 source : Register} {value another : Immediate}
    (same : rd.name ++ ", " ++ rs1.name ++ ", " ++ Text.signedDecimal value.toInt =
      other.name ++ ", " ++ source.name ++ ", " ++ Text.signedDecimal another.toInt) :
    rd = other ∧ rs1 = source ∧ value = another := by
  simp only [String.append_assoc] at same
  obtain ⟨registers, rest⟩ := Register.name_append_inj rfl same
  obtain ⟨sources, digits⟩ := Register.name_append_inj rfl rest
  exact ⟨registers, sources, signedDecimal_toInt_inj.mp digits⟩

theorem targetSuffix_append (labels : Labels) (target : Address) :
    ∃ rest, (targetSuffix labels target).toList ++ [' '] = ' ' :: rest := by
  unfold targetSuffix
  cases labels.get? target with
  | none => exact ⟨[], rfl⟩
  | some name => exact ⟨'<' :: (name.toList ++ ['>', ' ']), by simp [String.toList_append]⟩

theorem append_targetSuffix_inj {first second : String} {labels others : Labels}
    {target other : Address} (plain : ' ' ∉ first.toList) (alsoPlain : ' ' ∉ second.toList)
    (same : first ++ targetSuffix labels target = second ++ targetSuffix others other) :
    first = second := by
  obtain ⟨rest, shown⟩ := targetSuffix_append labels target
  obtain ⟨tail, alsoShown⟩ := targetSuffix_append others other
  have longer := congrArg (fun text => text.toList ++ [' ']) same
  simp only [String.toList_append, List.append_assoc, shown, alsoShown] at longer
  have numbers := Text.append_mark_inj plain alsoPlain longer
  exact String.toList_inj.mp numbers.1

/-- The instruction with its operands cleared, which tells what it does. -/
def bare : Instruction → Instruction
  | lui .. => lui ⟨0⟩ 0
  | auipc .. => auipc ⟨0⟩ 0
  | jal .. => jal ⟨0⟩ 0
  | jalr .. => jalr ⟨0⟩ ⟨0⟩ 0
  | branch op .. => branch op ⟨0⟩ ⟨0⟩ 0
  | load op .. => load op ⟨0⟩ ⟨0⟩ 0
  | store op .. => store op ⟨0⟩ ⟨0⟩ 0
  | immediate op .. => immediate op ⟨0⟩ ⟨0⟩ 0
  | shift op .. => shift op ⟨0⟩ ⟨0⟩ 0
  | register op .. => register op ⟨0⟩ ⟨0⟩ ⟨0⟩
  | fence => fence
  | ecall => ecall
  | ebreak => ebreak
  | unknown => unknown

def bareInstructions : List Instruction :=
  [lui ⟨0⟩ 0, auipc ⟨0⟩ 0, jal ⟨0⟩ 0, jalr ⟨0⟩ ⟨0⟩ 0, fence, ecall, ebreak, unknown] ++
  [.beq, .bne, .blt, .bge, .bltu, .bgeu].map (branch · ⟨0⟩ ⟨0⟩ 0) ++
  [.lb, .lh, .lw, .lbu, .lhu].map (load · ⟨0⟩ ⟨0⟩ 0) ++
  [.sb, .sh, .sw].map (store · ⟨0⟩ ⟨0⟩ 0) ++
  [.addi, .slti, .sltiu, .xori, .ori, .andi].map (immediate · ⟨0⟩ ⟨0⟩ 0) ++
  [.slli, .srli, .srai].map (shift · ⟨0⟩ ⟨0⟩ 0) ++
  [.add, .sub, .sll, .slt, .sltu, .xor, .srl, .sra, .or, .and, .mul, .mulh, .mulhsu, .mulhu, .div,
    .divu, .rem, .remu].map (register · ⟨0⟩ ⟨0⟩ ⟨0⟩)

theorem bare_mem (instruction : Instruction) : instruction.bare ∈ bareInstructions := by
  cases instruction with
  | branch op rs1 rs2 offset =>
    change branch op ⟨0⟩ ⟨0⟩ 0 ∈ bareInstructions
    cases op <;> decide +kernel
  | load op rd rs1 offset =>
    change load op ⟨0⟩ ⟨0⟩ 0 ∈ bareInstructions
    cases op <;> decide +kernel
  | store op rs1 rs2 offset =>
    change store op ⟨0⟩ ⟨0⟩ 0 ∈ bareInstructions
    cases op <;> decide +kernel
  | immediate op rd rs1 value =>
    change immediate op ⟨0⟩ ⟨0⟩ 0 ∈ bareInstructions
    cases op <;> decide +kernel
  | shift op rd rs1 amount =>
    change shift op ⟨0⟩ ⟨0⟩ 0 ∈ bareInstructions
    cases op <;> decide +kernel
  | register op rd rs1 rs2 =>
    change register op ⟨0⟩ ⟨0⟩ ⟨0⟩ ∈ bareInstructions
    cases op <;> decide +kernel
  | _ => exact of_decide_eq_true rfl

theorem mnemonic_bare (instruction : Instruction) :
    instruction.bare.mnemonic = instruction.mnemonic := by
  cases instruction <;> rfl

theorem bare_eq_of_mnemonic_eq {first second : Instruction}
    (same : first.mnemonic = second.mnemonic) : first.bare = second.bare := by
  have distinct : (bareInstructions.map mnemonic).Nodup := by decide +kernel
  rw [← mnemonic_bare first, ← mnemonic_bare second] at same
  exact List.inj_on_of_nodup_map distinct first.bare_mem second.bare_mem same

theorem mnemonic_plain (instruction : Instruction) :
    ' ' ∉ instruction.mnemonic.toList ∧ '\t' ∉ instruction.mnemonic.toList := by
  have all : ∀ bare ∈ bareInstructions,
      ' ' ∉ bare.mnemonic.toList ∧ '\t' ∉ bare.mnemonic.toList := by
    decide +kernel
  rw [← mnemonic_bare]
  exact all _ instruction.bare_mem

theorem eq_of_operands_eq {first second : Instruction} {labels others : Labels} {address : Address}
    (kind : first.bare = second.bare)
    (same : first.operands labels address = second.operands others address) : first = second := by
  cases first with
  | lui rd value =>
    cases second with
    | lui other another =>
      simp only [operands, String.append_assoc] at same
      obtain ⟨rfl, digits⟩ := Register.name_append_inj rfl same
      rw [BitVec.eq_of_toNat_eq (Text.hex_inj.mp digits)]
    | _ => cases kind
  | auipc rd value =>
    cases second with
    | auipc other another =>
      simp only [operands, String.append_assoc] at same
      obtain ⟨rfl, digits⟩ := Register.name_append_inj rfl same
      rw [signedDecimal_toInt_inj.mp digits]
    | _ => cases kind
  | jal rd offset =>
    cases second with
    | jal other another =>
      have plain : ∀ n, ' ' ∉ (Text.signedDecimal n).toList :=
        Text.not_mem_signedDecimal (by decide) (by decide)
      simp only [operands, String.append_assoc] at same
      obtain ⟨rfl, shown⟩ := Register.name_append_inj rfl same
      have digits := append_targetSuffix_inj (plain _) (plain _) shown
      rw [signedDecimal_toInt_inj.mp digits]
    | _ => cases kind
  | jalr rd rs1 offset =>
    cases second with
    | jalr other base another =>
      obtain ⟨rfl, rfl, rfl⟩ := indexed_inj same
      rfl
    | _ => cases kind
  | branch op rs1 rs2 offset =>
    cases second with
    | branch _ left right another =>
      cases kind
      have plain : ∀ n, ' ' ∉ (Text.hex n).toList := Text.not_mem_hex (by decide)
      simp only [operands, String.append_assoc] at same
      obtain ⟨rfl, rest⟩ := Register.name_append_inj rfl same
      obtain ⟨rfl, shown⟩ := Register.name_append_inj rfl rest
      have digits := append_targetSuffix_inj (plain _) (plain _) shown
      have targets := BitVec.eq_of_toNat_eq (Text.hex_inj.mp digits)
      rw [(BitVec.add_right_inj address).mp targets]
    | _ => cases kind
  | load op rd rs1 offset =>
    cases second with
    | load _ other base another =>
      cases kind
      obtain ⟨rfl, rfl, rfl⟩ := indexed_inj same
      rfl
    | _ => cases kind
  | store op rs1 rs2 offset =>
    cases second with
    | store _ base other another =>
      cases kind
      obtain ⟨rfl, rfl, rfl⟩ := indexed_inj same
      rfl
    | _ => cases kind
  | immediate op rd rs1 value =>
    cases second with
    | immediate _ other source another =>
      cases kind
      obtain ⟨rfl, rfl, rfl⟩ := sourced_inj same
      rfl
    | _ => cases kind
  | shift op rd rs1 amount =>
    cases second with
    | shift _ other source another =>
      cases kind
      obtain ⟨rfl, rfl, rfl⟩ := sourced_inj same
      rfl
    | _ => cases kind
  | register op rd rs1 rs2 =>
    cases second with
    | register _ other left right =>
      cases kind
      simp only [operands, String.append_assoc] at same
      obtain ⟨rfl, rest⟩ := Register.name_append_inj rfl same
      obtain ⟨rfl, last⟩ := Register.name_append_inj rfl rest
      rw [Register.name_inj.mp last]
    | _ => cases kind
  | fence =>
    cases second with
    | fence => rfl
    | _ => cases kind
  | ecall =>
    cases second with
    | ecall => rfl
    | _ => cases kind
  | ebreak =>
    cases second with
    | ebreak => rfl
    | _ => cases kind
  | unknown =>
    cases second with
    | unknown => rfl
    | _ => cases kind

theorem toList_render {instruction : Instruction} (known : instruction ≠ unknown) (labels : Labels)
    (address : Address) :
    (instruction.render labels address).toList =
      (Text.alignRight 7 instruction.mnemonic ' ').toList ++
        '\t' :: (instruction.operands labels address).toList := by
  rw [render, if_neg known]
  simp [String.toList_append]

theorem tab_mem_render_iff (instruction : Instruction) (labels : Labels) (address : Address) :
    '\t' ∈ (instruction.render labels address).toList ↔ instruction ≠ unknown := by
  constructor
  · rintro member rfl
    exact unknown.mnemonic_plain.2 member
  · intro known
    rw [toList_render known]
    exact List.mem_append_right _ List.mem_cons_self

theorem tab_not_mem_column (instruction : Instruction) :
    '\t' ∉ (Text.alignRight 7 instruction.mnemonic ' ').toList := by
  have plain := instruction.mnemonic_plain.2
  simp [Text.alignRight, plain]

theorem eq_of_render_eq {first second : Instruction} {labels others : Labels} {address : Address}
    (same : first.render labels address = second.render others address) : first = second := by
  have both : first ≠ unknown ↔ second ≠ unknown := by
    rw [← first.tab_mem_render_iff labels address, same, tab_mem_render_iff]
  by_cases known : first = unknown
  · have alsoUnknown := not_not.mp (mt both.mpr (not_not.mpr known))
    rw [known, alsoUnknown]
  · have characters := congrArg String.toList same
    rw [toList_render known, toList_render (both.mp known)] at characters
    obtain ⟨columns, shown⟩ := Text.append_mark_inj first.tab_not_mem_column
      second.tab_not_mem_column characters
    have mnemonics := Text.alignRight_inj first.mnemonic_plain.1 second.mnemonic_plain.1
      (String.toList_inj.mp columns)
    exact eq_of_operands_eq (bare_eq_of_mnemonic_eq mnemonics) (String.toList_inj.mp shown)

/-- No two instructions at an address have the same text, and so no two words do that are not read
as the same instruction. -/
theorem render_eq_iff (labels : Labels) (address : Address) :
    (∀ first second : Instruction,
      first.render labels address = second.render labels address ↔ first = second) ∧
    ∀ first second : Word,
      CodeWord.render labels ⟨address, first⟩ = CodeWord.render labels ⟨address, second⟩ ↔
        decode first = decode second := by
  have each : ∀ first second : Instruction,
      first.render labels address = second.render labels address ↔ first = second := by
    intro first second
    constructor
    · exact eq_of_render_eq
    · intro equal
      rw [equal]
  exact ⟨each, fun first second => each (decode first) (decode second)⟩

end Instruction

end RiscvListing
