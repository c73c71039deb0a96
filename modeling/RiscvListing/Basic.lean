namespace RiscvListing

abbrev Word := BitVec 32

/-- An address of the 32-bit address space, in which sums wrap around. -/
abbrev Address := BitVec 32

abbrev Immediate := BitVec 32

abbrev Bytes := Array UInt8

def signedField {width : Nat} (bits : BitVec width) : Immediate :=
  bits.signExtend 32

def Word.signed (value : Word) (width : Nat) : Immediate :=
  signedField (value.setWidth width)

def utf8 (text : String) : Bytes :=
  text.toUTF8.data

namespace Text

def decimal (n : Nat) : String :=
  String.ofList (Nat.toDigits 10 n)

def hex (n : Nat) : String :=
  String.ofList (Nat.toDigits 16 n)

def signedDecimal (n : Int) : String :=
  if n < 0 then "-" ++ decimal n.natAbs else decimal n.natAbs

/-- Text at the right end of a column of `width` characters. A longer text is kept whole. -/
def alignRight (width : Nat) (text : String) (fill : Char) : String :=
  String.ofList (List.replicate (width - text.length) fill) ++ text

/-- Text at the left end of a column of `width` characters. A longer text is kept whole. -/
def alignLeft (width : Nat) (text : String) : String :=
  text ++ String.ofList (List.replicate (width - text.length) ' ')

end Text

end RiscvListing
