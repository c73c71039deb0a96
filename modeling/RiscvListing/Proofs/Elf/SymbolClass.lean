import RiscvListing.Elf.Symbol
import RiscvListing.Proofs.Text.Column

namespace RiscvListing.Elf

open Text (Entry)

namespace SymbolType

theorem entry_name (type : SymbolType) : Entry type.name := by
  cases type <;> exact ⟨by decide, by decide⟩

theorem name_inj {first second : SymbolType} : first.name = second.name → first = second := by
  cases first <;> cases second <;> decide

theorem length_name_le (type : SymbolType) : type.name.length ≤ 8 := by
  cases type <;> decide

end SymbolType

namespace SymbolBinding

theorem entry_name (binding : SymbolBinding) : Entry binding.name := by
  cases binding <;> exact ⟨by decide, by decide⟩

theorem name_inj {first second : SymbolBinding} : first.name = second.name → first = second := by
  cases first <;> cases second <;> decide

theorem length_name_le (binding : SymbolBinding) : binding.name.length ≤ 8 := by
  cases binding <;> decide

end SymbolBinding

namespace SymbolVisibility

theorem entry_name (visibility : SymbolVisibility) : Entry visibility.name := by
  cases visibility <;> exact ⟨by decide, by decide⟩

theorem name_inj {first second : SymbolVisibility} :
    first.name = second.name → first = second := by
  cases first <;> cases second <;> decide

theorem length_name_le_iff (visibility : SymbolVisibility) :
    visibility.name.length ≤ 8 ↔ visibility ≠ protectedSymbol := by
  cases visibility <;> decide

theorem ofCode_eq_protectedSymbol_iff (code : BitVec 8) :
    ofCode code = protectedSymbol ↔ code = 3#8 := by
  unfold ofCode
  split <;> simp_all

end SymbolVisibility

namespace SymbolHome

def code : SymbolHome → BitVec 16
  | undef => 0
  | loproc => 0xff00
  | after => 0xff01
  | largeCommon => 0xff02
  | hiproc => 0xff1f
  | loos => 0xff20
  | hios => 0xff3f
  | abs => 0xfff1
  | common => 0xfff2
  | extended => 0xffff
  | index number => number

theorem code_ofCode (number : BitVec 16) : (ofCode number).code = number := by
  unfold ofCode
  split <;> rfl

theorem ofCode_inj {first second : BitVec 16} (same : ofCode first = ofCode second) :
    first = second := by
  rw [← code_ofCode first, same, code_ofCode]

theorem ofCode_eq_largeCommon_iff (number : BitVec 16) :
    ofCode number = largeCommon ↔ number = 0xff02#16 := by
  constructor
  · intro reserved
    rw [← code_ofCode number, reserved]
    rfl
  · intro reserved
    rw [reserved]
    rfl

theorem entry_name (home : SymbolHome) : Entry home.name := by
  cases home with
  | index number => exact Text.entry_decimal number.toNat
  | _ => exact ⟨by decide, by decide⟩

/-- The name of a reserved place is not taken for the number of a section. -/
theorem name_inj {first second : SymbolHome} (same : first.name = second.name) :
    first = second := by
  cases first with
  | index number =>
    cases second with
    | index other => rw [BitVec.eq_of_toNat_eq (Text.decimal_inj.mp same)]
    | _ => exact absurd same (Text.decimal_ne (by decide) number.toNat)
  | _ =>
    cases second with
    | index other => exact absurd same.symm (Text.decimal_ne (by decide) other.toNat)
    | _ =>
      revert same
      decide

theorem length_name_le_iff (home : SymbolHome) :
    home.name.length ≤ 6 ↔ home ≠ largeCommon := by
  cases home with
  | index number =>
    have short : (index number).name.length ≤ 6 := by
      have bound := number.isLt
      exact (Text.length_decimal_le_iff (by decide) number.toNat).mpr (by omega)
    simp [short]
  | _ => decide

end SymbolHome

end RiscvListing.Elf
