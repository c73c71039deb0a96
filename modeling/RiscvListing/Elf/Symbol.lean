import RiscvListing.Elf.Section

namespace RiscvListing.Elf

structure Symbol where
  name : String
  value : Word
  size : Word
  info : BitVec 8
  other : BitVec 8
  sectionIndex : BitVec 16
  deriving DecidableEq

inductive SymbolType where
  | notype | object | func | sectionSymbol | file | common | tls
  | loos | hios | loproc | hiproc | unknown
  deriving DecidableEq, Repr

inductive SymbolBinding where
  | localSymbol | globalSymbol | weak | loos | hios | loproc | hiproc | unknown
  deriving DecidableEq, Repr

inductive SymbolVisibility where
  | default | internal | hidden | protectedSymbol | unknown
  deriving DecidableEq, Repr

inductive SymbolHome where
  | undef | loproc | after | largeCommon | hiproc | loos | hios | abs | common | extended
  | index (number : BitVec 16)
  deriving DecidableEq, Repr

def SymbolType.ofCode : BitVec 4 → SymbolType
  | 0#4 => notype
  | 1#4 => object
  | 2#4 => func
  | 3#4 => sectionSymbol
  | 4#4 => file
  | 5#4 => common
  | 6#4 => tls
  | 10#4 => loos
  | 12#4 => hios
  | 13#4 => loproc
  | 15#4 => hiproc
  | _ => unknown

def SymbolType.name : SymbolType → String
  | notype => "NOTYPE"
  | object => "OBJECT"
  | func => "FUNC"
  | sectionSymbol => "SECTION"
  | file => "FILE"
  | common => "COMMON"
  | tls => "TLS"
  | loos => "LOOS"
  | hios => "HIOS"
  | loproc => "LOPROC"
  | hiproc => "HIPROC"
  | unknown => "UNKNOWN"

def SymbolBinding.ofCode : BitVec 4 → SymbolBinding
  | 0#4 => localSymbol
  | 1#4 => globalSymbol
  | 2#4 => weak
  | 10#4 => loos
  | 12#4 => hios
  | 13#4 => loproc
  | 15#4 => hiproc
  | _ => unknown

def SymbolBinding.name : SymbolBinding → String
  | localSymbol => "LOCAL"
  | globalSymbol => "GLOBAL"
  | weak => "WEAK"
  | loos => "LOOS"
  | hios => "HIOS"
  | loproc => "LOPROC"
  | hiproc => "HIPROC"
  | unknown => "UNKNOWN"

def SymbolVisibility.ofCode : BitVec 8 → SymbolVisibility
  | 0#8 => default
  | 1#8 => internal
  | 2#8 => hidden
  | 3#8 => protectedSymbol
  | _ => unknown

def SymbolVisibility.name : SymbolVisibility → String
  | default => "DEFAULT"
  | internal => "INTERNAL"
  | hidden => "HIDDEN"
  | protectedSymbol => "PROTECTED"
  | unknown => "UNKNOWN"

def SymbolHome.ofCode : BitVec 16 → SymbolHome
  | 0#16 => undef
  | 0xff00#16 => loproc
  | 0xff01#16 => after
  | 0xff02#16 => largeCommon
  | 0xff1f#16 => hiproc
  | 0xff20#16 => loos
  | 0xff3f#16 => hios
  | 0xfff1#16 => abs
  | 0xfff2#16 => common
  | 0xffff#16 => extended
  | code => index code

def SymbolHome.name : SymbolHome → String
  | undef => "UNDEF"
  | loproc => "LOPROC"
  | after => "AFTER"
  | largeCommon => "AMD64_LCOMMON"
  | hiproc => "HIPROC"
  | loos => "LOOS"
  | hios => "HIOS"
  | abs => "ABS"
  | common => "COMMON"
  | extended => "XINDEX"
  | index number => Text.decimal number.toNat

namespace Symbol

def typeCode (symbol : Symbol) : BitVec 4 :=
  symbol.info.extractLsb' 0 4

def type (symbol : Symbol) : SymbolType :=
  .ofCode symbol.typeCode

def binding (symbol : Symbol) : SymbolBinding :=
  .ofCode (symbol.info.extractLsb' 4 4)

def visibility (symbol : Symbol) : SymbolVisibility :=
  .ofCode symbol.other

def home (symbol : Symbol) : SymbolHome :=
  .ofCode symbol.sectionIndex

def isFunction (symbol : Symbol) : Bool :=
  symbol.typeCode = 2#4

theorem isFunction_iff_type (symbol : Symbol) :
    symbol.isFunction = true ↔ symbol.type = .func := by
  rw [isFunction, type, decide_eq_true_iff]
  generalize symbol.typeCode = code
  revert code
  decide

def read (image : Image) (strtab : Section) (position : Nat) : Except Error Symbol := do
  let nameOffset ← image.wordAt position
  let name ← image.nameAt (strtab.offset.toNat + nameOffset.toNat)
  let value ← image.wordAt (position + 4)
  let size ← image.wordAt (position + 8)
  let info ← image.byteAt (position + 12)
  let other ← image.byteAt (position + 13)
  let sectionIndex ← image.halfAt (position + 14)
  return ⟨name, value, size, info, other, sectionIndex⟩

/-- The records of a symbol section. A last one that the section cuts off is read whole. -/
def scan (image : Image) (symtab strtab : Section) : Scan Symbol :=
  .items (fun index => read image strtab (symtab.offset.toNat + index * Sections.symbolSize))
    ((symtab.size.toNat + (Sections.symbolSize - 1)) / Sections.symbolSize)

def functions (symbols : List Symbol) : List (Address × String) :=
  (symbols.filter isFunction).map fun symbol => (symbol.value, symbol.name)

end Symbol

end RiscvListing.Elf
