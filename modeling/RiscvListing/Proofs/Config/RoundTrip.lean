import RiscvListing.Config.Writer
import RiscvListing.Proofs.Config.Reading
import RiscvListing.Proofs.Text.Numeral

namespace RiscvListing

open Json.Grammar

namespace Text

theorem head_toDigits_ne {n : Nat} (positive : 0 < n) : (Nat.toDigits 10 n).head? ≠ some '0' := by
  induction n using Nat.strongRecOn with
  | ind n ih =>
    by_cases small : n < 10
    · have all : ∀ digit : Fin 10, 0 < digit.val → digit.val.digitChar ≠ '0' := by decide
      rw [Nat.toDigits_of_lt_base small, List.head?_cons]
      intro zero
      exact all ⟨n, small⟩ positive (Option.some_inj.mp zero)
    · have rest := ih (n / 10) (by omega) (by omega)
      rwa [Nat.toDigits_of_base_le (by decide) (by omega),
        List.head?_append_of_ne_nil _ Nat.toDigits_ne_nil]

theorem natural_decimal (n : Nat) : Natural n (decimal n).toList := by
  have digits : Digits (decimal n).toList := by
    refine ⟨?_, fun digit => isDigit_of_mem_decimal⟩
    rw [decimal, String.toList_ofList]
    exact Nat.toDigits_ne_nil
  have leading : (decimal n).toList.head? = some '0' → (decimal n).toList = ['0'] := by
    intro zero
    rw [decimal, String.toList_ofList] at zero
    rcases Nat.eq_zero_or_pos n with rfl | positive
    · rfl
    · exact absurd zero (head_toDigits_ne positive)
  have value : Nat.ofDigitChars 10 (decimal n).toList 0 = n := by
    rw [decimal, String.toList_ofList, Nat.ofDigitChars_ten_toDigits]
  exact ⟨⟨digits, leading⟩, value⟩

end Text

namespace Config

theorem flag_flagText (flag : Bool) : Flag flag (flagText flag).toList := by
  cases flag with
  | true => exact .true
  | false => exact .false

def groups (config : Config) : List (String × List Char) :=
  [("io", groupText "max_file_size" (Text.decimal config.maxFileSize.toNat).toList),
   ("sections", groupText "strict" (flagText config.strict).toList),
   ("output", groupText "emit_symtab" (flagText config.emitSymtab).toList)]

theorem object_toText (config : Config) : Object config.groups config.toText.toList := by
  have object : Object config.groups _ := .braces (.some (.cons
    (member_memberText (by decide) _) (.cons
    (member_memberText (by decide) _) (.last
    (member_memberText (by decide) _)))))
  convert object using 1
  delta toText
  simp only [String.toList_append, String.reduceToList, memberText, groupText, List.append_assoc,
    List.cons_append, List.nil_append]

def allGiven (config : Config) : Given :=
  ⟨some config.maxFileSize, some config.strict, some config.emitSymtab⟩

theorem describes_toText (config : Config) : Describes config.allGiven config.toText.toList := by
  have distinct : (config.groups.map Prod.fst).Nodup := by
    change ["io", "sections", "output"].Nodup
    decide
  have loose : Loose ["io", "sections", "output"] config.groups := by
    apply loose_of_nodup distinct
    intro member inside
    exact List.mem_map_of_mem inside
  have size : Group "max_file_size" (fun size : UInt64 => Natural size.toNat)
      (some config.maxFileSize)
      (groupText "max_file_size" (Text.decimal config.maxFileSize.toNat).toList) :=
    group_groupText (by decide) (Text.natural_decimal _)
  have strict : Group "strict" Flag (some config.strict)
      (groupText "strict" (flagText config.strict).toList) :=
    group_groupText (by decide) (flag_flagText config.strict)
  have symtab : Group "emit_symtab" Flag (some config.emitSymtab)
      (groupText "emit_symtab" (flagText config.emitSymtab).toList) :=
    group_groupText (by decide) (flag_flagText config.emitSymtab)
  exact describes_of_object (object_toText config) loose
    (said_of_nodup distinct (.head _) size)
    (said_of_nodup distinct (.tail _ (.head _)) strict)
    (said_of_nodup distinct (.tail _ (.tail _ (.head _))) symtab)

theorem ofText_toText (config : Config) : ofText config.toText = .ok config :=
  ofText_eq_settings (describes_toText config)

/-- The text of the settings gives them back, so no two settings have the same text. -/
theorem ofText_toText_roundTrip :
    (∀ config, ofText (toText config) = .ok config) ∧ Function.Injective toText := by
  refine ⟨ofText_toText, ?_⟩
  intro first second same
  have read := ofText_toText first
  rw [same, ofText_toText second] at read
  exact (Except.ok.inj read).symm

end Config

end RiscvListing
