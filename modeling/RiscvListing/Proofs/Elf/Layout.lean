import RiscvListing.Proofs.Elf.Content

namespace RiscvListing.Elf

structure PlacedSymbol where
  name : List UInt8
  value : Word
  size : Word
  info : BitVec 8
  other : BitVec 8
  sectionIndex : BitVec 16
  nonzero : 0 ∉ name

/-- What an object is made from. The bytes behind the code are not a whole word. -/
structure Layout where
  address : Address
  code : List Word
  trailing : List UInt8
  symbols : List PlacedSymbol
  partialWord : trailing.length < 4

def padding (position : Nat) : List UInt8 :=
  List.replicate ((4 - position % 4) % 4) 0

def PlacedSymbol.toSymbol (symbol : PlacedSymbol) : Symbol :=
  ⟨byteText symbol.name, symbol.value, symbol.size, symbol.info, symbol.other,
    symbol.sectionIndex⟩

def Symbol.null : Symbol :=
  ⟨"", 0, 0, 0, 0, 0⟩

def PlacedSymbol.record (nameOffset : Nat) (symbol : PlacedSymbol) : List UInt8 :=
  wordBytes (BitVec.ofNat 32 nameOffset) ++ wordBytes symbol.value ++ wordBytes symbol.size ++
    [⟨symbol.info⟩] ++ [⟨symbol.other⟩] ++ halfBytes symbol.sectionIndex

def stringTable (symbols : List PlacedSymbol) : List UInt8 :=
  0 :: symbols.flatMap fun symbol => symbol.name ++ [0]

namespace Layout

def text (layout : Layout) : List UInt8 :=
  layout.code.flatMap wordBytes ++ layout.trailing

def records (layout : Layout) : List (List UInt8) :=
  List.replicate 16 0 ::
    layout.symbols.mapIdx fun index symbol =>
      symbol.record (stringTable (layout.symbols.take index)).length

def sectionNames : List UInt8 :=
  [0] ++ [46, 116, 101, 120, 116, 0] ++ [46, 115, 121, 109, 116, 97, 98, 0] ++
    [46, 115, 116, 114, 116, 97, 98, 0] ++ [46, 115, 104, 115, 116, 114, 116, 97, 98, 0]

def textOffset : Nat :=
  52

def textEnd (layout : Layout) : Nat :=
  textOffset + layout.text.length

def stringOffset (layout : Layout) : Nat :=
  layout.textEnd + (padding layout.textEnd).length

def stringEnd (layout : Layout) : Nat :=
  layout.stringOffset + (stringTable layout.symbols).length

def symbolOffset (layout : Layout) : Nat :=
  layout.stringEnd + (padding layout.stringEnd).length

def namesOffset (layout : Layout) : Nat :=
  layout.symbolOffset + layout.records.flatten.length

def namesEnd (layout : Layout) : Nat :=
  layout.namesOffset + sectionNames.length

def headerOffset (layout : Layout) : Nat :=
  layout.namesEnd + (padding layout.namesEnd).length

/-- The fields of the section headers: name, type, flags, address, offset, size, link, information,
alignment and size of an entry. -/
def headerFields (layout : Layout) : List (List Word) :=
  [[0, 0, 0, 0, 0, 0, 0, 0, 0, 0],
   [1, 1, 6, layout.address, .ofNat 32 textOffset, .ofNat 32 layout.text.length, 0, 0, 4, 0],
   [7, 2, 0, 0, .ofNat 32 layout.symbolOffset, .ofNat 32 layout.records.flatten.length, 3, 1, 4,
     16],
   [15, 3, 0, 0, .ofNat 32 layout.stringOffset, .ofNat 32 (stringTable layout.symbols).length, 0,
     0, 1, 0],
   [23, 3, 0, 0, .ofNat 32 layout.namesOffset, .ofNat 32 sectionNames.length, 0, 0, 1, 0]]

def headers (layout : Layout) : List (List UInt8) :=
  layout.headerFields.map (·.flatMap wordBytes)

/-- The header of the file, which tells where the five section headers are and that the last one
of them describes the names of the sections. -/
def fileHeader (headerOffset : Nat) : List UInt8 :=
  Image.magic ++ [1, 1, 1] ++ List.replicate 9 0 ++ halfBytes 1 ++ halfBytes 243 ++ wordBytes 1 ++
    List.replicate 8 0 ++ wordBytes (.ofNat 32 headerOffset) ++ List.replicate 4 0 ++
    halfBytes 52 ++ List.replicate 4 0 ++ halfBytes 40 ++ halfBytes 5 ++ halfBytes 4

theorem length_fileHeader (headerOffset : Nat) : (fileHeader headerOffset).length = 52 := rfl

def bytes (layout : Layout) : Bytes :=
  (fileHeader layout.headerOffset ++ (layout.text ++ (padding layout.textEnd ++
    (stringTable layout.symbols ++ (padding layout.stringEnd ++ (layout.records.flatten ++
      (sectionNames ++ (padding layout.namesEnd ++ layout.headers.flatten)))))))).toArray

/-- The parts of the object stand where the headers say. -/
structure Placed (layout : Layout) (image : Image) : Prop where
  fileHeader : image.Holds 0 (fileHeader layout.headerOffset)
  text : image.Holds textOffset layout.text
  strings : image.Holds layout.stringOffset (stringTable layout.symbols)
  records : image.Holds layout.symbolOffset layout.records.flatten
  names : image.Holds layout.namesOffset sectionNames
  headers : image.Holds layout.headerOffset layout.headers.flatten

theorem placed_bytes (layout : Layout) : layout.Placed ⟨layout.bytes⟩ := by
  have whole := Image.holds_toArray (fileHeader layout.headerOffset ++ (layout.text ++
    (padding layout.textEnd ++ (stringTable layout.symbols ++ (padding layout.stringEnd ++
      (layout.records.flatten ++ (sectionNames ++ (padding layout.namesEnd ++
        layout.headers.flatten))))))))
  have text := whole.right
  rw [length_fileHeader, Nat.zero_add] at text
  have strings : Image.Holds ⟨layout.bytes⟩ layout.stringOffset _ := text.right.right
  have records : Image.Holds ⟨layout.bytes⟩ layout.symbolOffset _ := strings.right.right
  have names : Image.Holds ⟨layout.bytes⟩ layout.namesOffset _ := records.right
  have headers : Image.Holds ⟨layout.bytes⟩ layout.headerOffset _ := names.right.right
  exact ⟨whole.left, text.left, strings.left, records.left, names.left, headers⟩

end Layout

end RiscvListing.Elf
