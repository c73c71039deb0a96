import RiscvListing.Proofs.Elf.SymbolClass
import RiscvListing.Report.Basic

namespace RiscvListing.Report

open Elf (Symbol SymbolType SymbolBinding SymbolVisibility SymbolHome)
open Text

/-- The columns of a row can be told apart, one behind the other, although some of them are wider
than their titles and the name may be any text. -/
theorem fields_of_symbolRow_eq {number other : Nat} {first second : Symbol}
    (same : symbolRow number first = symbolRow other second) :
    hex number = hex other ∧ hex first.value.toNat = hex second.value.toNat ∧
      decimal first.size.toNat = decimal second.size.toNat ∧
      first.type.name = second.type.name ∧ first.binding.name = second.binding.name ∧
      first.visibility.name = second.visibility.name ∧ first.home.name = second.home.name ∧
      first.name = second.name := by
  have bracket : "] 0x".toList.head? = some ']' := rfl
  have blank : " ".toList.head? = some ' ' := rfl
  have closed : ∀ n, ']' ∉ (hex n).toList := not_mem_hex (by decide)
  delta symbolRow at same
  simp only [String.append_assoc] at same
  have opened := (String.append_right_inj _).mp same
  obtain ⟨numbers, afterNumber⟩ := alignRight_append_inj bracket (entry_hex _) (entry_hex _)
    (closed _) (closed _) opened
  obtain ⟨values, afterValue⟩ := alignLeft_append_inj (entry_hex _) (entry_hex _) afterNumber
  obtain ⟨sizes, afterSize⟩ := alignRight_append_inj blank (entry_decimal _) (entry_decimal _)
    (entry_decimal _).plain (entry_decimal _).plain afterValue
  obtain ⟨types, afterType⟩ := alignLeft_append_inj (SymbolType.entry_name _)
    (SymbolType.entry_name _) afterSize
  obtain ⟨bindings, afterBinding⟩ := alignLeft_append_inj (SymbolBinding.entry_name _)
    (SymbolBinding.entry_name _) afterType
  obtain ⟨visibilities, afterVisibility⟩ := alignLeft_append_inj (SymbolVisibility.entry_name _)
    (SymbolVisibility.entry_name _) afterBinding
  obtain ⟨homes, names⟩ := alignRight_append_inj blank (SymbolHome.entry_name _)
    (SymbolHome.entry_name _) (SymbolHome.entry_name _).plain (SymbolHome.entry_name _).plain
    afterVisibility
  exact ⟨numbers, values, sizes, types, bindings, visibilities, homes, names⟩

/-- A row shows all of a symbol but which of the codes of a class it has. -/
theorem symbolRow_eq_iff (number other : Nat) (first second : Symbol) :
    symbolRow number first = symbolRow other second ↔
      number = other ∧ first.value = second.value ∧ first.size = second.size ∧
        first.sectionIndex = second.sectionIndex ∧ first.name = second.name ∧
        first.type = second.type ∧ first.binding = second.binding ∧
        first.visibility = second.visibility := by
  constructor
  · intro same
    obtain ⟨numbers, values, sizes, types, bindings, visibilities, homes, names⟩ :=
      fields_of_symbolRow_eq same
    exact ⟨hex_inj.mp numbers, BitVec.eq_of_toNat_eq (hex_inj.mp values),
      BitVec.eq_of_toNat_eq (decimal_inj.mp sizes),
      SymbolHome.ofCode_inj (SymbolHome.name_inj homes), names, SymbolType.name_inj types, SymbolBinding.name_inj bindings,
      SymbolVisibility.name_inj visibilities⟩
  · intro equal
    obtain ⟨rfl, value, size, sectionIndex, name, type, binding, visibility⟩ := equal
    have home : first.home = second.home := congrArg SymbolHome.ofCode sectionIndex
    delta symbolRow
    rw [value, size, home, name, type, binding, visibility]

/-- A word is found in a line from a column on. -/
def StandsAt (line word : String) (column : Nat) : Prop :=
  word.toList <+: line.toList.drop column

def titleColumn : Nat :=
  65

/-- The column at which a name starts, which is where the row ends that has no name. -/
def nameColumn (number : Nat) (symbol : Symbol) : Nat :=
  (symbolRow number { symbol with name := "" }).length

/-- Every text of a row fits into its column. -/
structure FitsColumns (number : Nat) (symbol : Symbol) : Prop where
  number : number < 0x10000
  size : symbol.size.toNat < 100000
  visibility : symbol.other ≠ 3#8
  home : symbol.sectionIndex ≠ 0xff02#16

theorem symbolRow_eq_append (number : Nat) (symbol : Symbol) :
    symbolRow number symbol = symbolRow number { symbol with name := "" } ++ symbol.name := by
  delta symbolRow
  simp only [String.append_assoc, String.empty_append]
  rfl

theorem length_symbolRow (number : Nat) (symbol : Symbol) :
    (symbolRow number symbol).length =
      42 + max 4 (hex number).length + max 5 (decimal symbol.size.toNat).length +
        max 8 symbol.visibility.name.length + max 6 symbol.home.name.length +
        symbol.name.length := by
  have value : (hex symbol.value.toNat).length ≤ 15 :=
    (length_hex_le_iff (by decide) _).mpr (Nat.lt_trans symbol.value.isLt (by decide))
  have type := symbol.type.length_name_le
  have binding := symbol.binding.length_name_le
  have opening : "[".length = 1 := rfl
  have closing : "] 0x".length = 4 := rfl
  have blank : " ".length = 1 := rfl
  delta symbolRow
  simp only [String.length_append, length_alignRight, length_alignLeft, opening, closing, blank]
  omega

theorem nameColumn_add_length (number : Nat) (symbol : Symbol) :
    nameColumn number symbol + symbol.name.length = (symbolRow number symbol).length := by
  rw [symbolRow_eq_append, String.length_append, nameColumn]

theorem nameColumn_eq (number : Nat) (symbol : Symbol) :
    nameColumn number symbol =
      42 + max 4 (hex number).length + max 5 (decimal symbol.size.toNat).length +
        max 8 symbol.visibility.name.length + max 6 symbol.home.name.length := by
  have whole := nameColumn_add_length number symbol
  rw [length_symbolRow] at whole
  exact Nat.add_right_cancel whole

theorem fitsColumns_iff (number : Nat) (symbol : Symbol) :
    FitsColumns number symbol ↔
      (hex number).length ≤ 4 ∧ (decimal symbol.size.toNat).length ≤ 5 ∧
        symbol.visibility.name.length ≤ 8 ∧ symbol.home.name.length ≤ 6 := by
  have visibility : symbol.visibility.name.length ≤ 8 ↔ symbol.other ≠ 3#8 :=
    (SymbolVisibility.length_name_le_iff _).trans
      (not_congr (SymbolVisibility.ofCode_eq_protectedSymbol_iff symbol.other))
  have home : symbol.home.name.length ≤ 6 ↔ symbol.sectionIndex ≠ 0xff02#16 :=
    (SymbolHome.length_name_le_iff _).trans
      (not_congr (SymbolHome.ofCode_eq_largeCommon_iff symbol.sectionIndex))
  rw [length_hex_le_iff (by decide), length_decimal_le_iff (by decide), visibility, home]
  exact ⟨fun fits => ⟨fits.number, fits.size, fits.visibility, fits.home⟩,
    fun ⟨number, size, visibility, home⟩ => ⟨number, size, visibility, home⟩⟩

theorem standsAt_titleColumn_iff (column : Nat) :
    StandsAt symbolHeader "Name" column ↔ column = titleColumn := by
  have only : ∀ column : Fin 69,
      "Name".toList <+: symbolHeader.toList.drop column.val ↔ column.val = titleColumn := by
    decide +kernel
  have length : symbolHeader.toList.length = 69 := by decide +kernel
  by_cases inside : column < 69
  · exact only ⟨column, inside⟩
  · have behind : symbolHeader.toList.drop column = [] := by
      rw [List.drop_eq_nil_iff, length]
      omega
    have past : column ≠ titleColumn := by
      rw [titleColumn]
      omega
    rw [StandsAt, behind, List.prefix_nil]
    simp [past]

/-- A name stands below its title unless a column before it is too narrow, and then it stands
further to the right. In any case it is what the row ends with. -/
theorem nameColumn_titled (number : Nat) (symbol : Symbol) :
    (∀ column, StandsAt symbolHeader "Name" column ↔ column = titleColumn) ∧
    (nameColumn number symbol = titleColumn ↔ FitsColumns number symbol) ∧
    (titleColumn < nameColumn number symbol ↔ ¬FitsColumns number symbol) ∧
    nameColumn number symbol + symbol.name.length = (symbolRow number symbol).length ∧
    (symbolRow number symbol).toList.drop (nameColumn number symbol) = symbol.name.toList := by
  have column := nameColumn_eq number symbol
  refine ⟨standsAt_titleColumn_iff, ?_, ?_, nameColumn_add_length number symbol, ?_⟩
  · rw [fitsColumns_iff, column, titleColumn]
    omega
  · rw [fitsColumns_iff, column, titleColumn]
    omega
  · rw [symbolRow_eq_append, String.toList_append, nameColumn, ← String.length_toList,
      List.drop_left]

example : nameColumn 10 ⟨"main", 0x10074, 28, 0x12, 3, 1⟩ = titleColumn + 1 := by
  decide +kernel

end RiscvListing.Report
