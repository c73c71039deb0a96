/-!
Which texts are values, and which are the members of an object. Nothing here looks at how a text
is read. A text is a list of characters, and a value is given by its text.
-/

namespace RiscvListing.Json.Grammar

def Blank (text : List Char) : Prop :=
  ∀ c ∈ text, c = ' ' ∨ c = '\t' ∨ c = '\n' ∨ c = '\r'

instance (text : List Char) : Decidable (Blank text) :=
  List.decidableBAll _ text

def HexDigit (value : Nat) (c : Char) : Prop :=
  value < 16 ∧ (c = value.digitChar ∨ c = value.digitChar.toUpper)

inductive Code : Nat → List Char → Prop where
  | digits {a b c d : Nat} {first second third fourth : Char} (high : HexDigit a first)
    (upper : HexDigit b second) (lower : HexDigit c third) (low : HexDigit d fourth) :
    Code (a * 4096 + b * 256 + c * 16 + d) ['\\', 'u', first, second, third, fourth]

/-- The letters that stand behind a backslash for a character. -/
def escapes : List (Char × Char) :=
  [('"', '"'), ('\\', '\\'), ('/', '/'), ('b', '\x08'), ('f', '\x0c'), ('n', '\n'), ('r', '\r'),
    ('t', '\t')]

def Plain (c : Char) : Prop :=
  ' ' ≤ c ∧ c ≠ '"' ∧ c ≠ '\\'

instance (c : Char) : Decidable (Plain c) :=
  inferInstanceAs (Decidable (' ' ≤ c ∧ c ≠ '"' ∧ c ≠ '\\'))

def AllPlain (text : List Char) : Prop :=
  ∀ c ∈ text, Plain c

instance (text : List Char) : Decidable (AllPlain text) :=
  List.decidableBAll _ text

/-- What may stand between two quotes. -/
inductive Quotable : List Char → Prop where
  | nil : Quotable []
  | plain {c : Char} {rest : List Char} (plain : Plain c) (quotable : Quotable rest) :
    Quotable (c :: rest)
  | escape {letter c : Char} {rest : List Char} (known : (letter, c) ∈ escapes)
    (quotable : Quotable rest) : Quotable ('\\' :: letter :: rest)
  | code {number : Nat} {digits rest : List Char} (code : Code number digits)
    (quotable : Quotable rest) : Quotable (digits ++ rest)

def Leading (number : Nat) : Prop :=
  0xd800 ≤ number ∧ number < 0xdc00

def Trailing (number : Nat) : Prop :=
  0xdc00 ≤ number ∧ number < 0xe000

/-- What stands between two quotes for a text. A number of the range for pairs has no meaning of
its own. -/
inductive Spells : List Char → List Char → Prop where
  | nil : Spells [] []
  | plain {c : Char} {text rest : List Char} (plain : Plain c) (spells : Spells text rest) :
    Spells (c :: text) (c :: rest)
  | escape {letter c : Char} {text rest : List Char} (known : (letter, c) ∈ escapes)
    (spells : Spells text rest) : Spells (c :: text) ('\\' :: letter :: rest)
  | code {number : Nat} {digits text rest : List Char} (code : Code number digits)
    (single : ¬Leading number ∧ ¬Trailing number) (spells : Spells text rest) :
    Spells (Char.ofNat number :: text) (digits ++ rest)
  | pair {leading trailing : Nat} {first second text rest : List Char}
    (high : Code leading first) (low : Code trailing second) (leads : Leading leading)
    (trails : Trailing trailing) (spells : Spells text rest) :
    Spells (Char.ofNat (0x10000 + (leading - 0xd800) * 0x400 + (trailing - 0xdc00)) :: text)
      (first ++ (second ++ rest))

def Digits (text : List Char) : Prop :=
  text ≠ [] ∧ ∀ c ∈ text, c.isDigit = true

/-- The digits of a whole number, of which only zero starts with a zero. -/
def Whole (text : List Char) : Prop :=
  Digits text ∧ (text.head? = some '0' → text = ['0'])

/-- The digits of a number without a sign. -/
def Natural (number : Nat) (text : List Char) : Prop :=
  Whole text ∧ Nat.ofDigitChars 10 text 0 = number

inductive Fraction : List Char → Prop where
  | absent : Fraction []
  | digits {text : List Char} (digits : Digits text) : Fraction ('.' :: text)

inductive Exponent : List Char → Prop where
  | absent : Exponent []
  | digits {mark : Char} {sign text : List Char} (marked : mark = 'e' ∨ mark = 'E')
    (signed : sign = [] ∨ sign = ['+'] ∨ sign = ['-']) (digits : Digits text) :
    Exponent (mark :: (sign ++ text))

inductive Number : List Char → Prop where
  | parts {sign whole fraction exponent : List Char} (signed : sign = [] ∨ sign = ['-'])
    (digits : Whole whole) (decimals : Fraction fraction) (power : Exponent exponent) :
    Number (sign ++ (whole ++ (fraction ++ exponent)))

inductive Flag : Bool → List Char → Prop where
  | true : Flag true ['t', 'r', 'u', 'e']
  | false : Flag false ['f', 'a', 'l', 's', 'e']

/-- One or more items with commas between them. -/
inductive Separated {α : Type} (Item : α → List Char → Prop) : List α → List Char → Prop where
  | last {item : α} {text : List Char} (shape : Item item text) : Separated Item [item] text
  | cons {item : α} {items : List α} {text rest : List Char} (shape : Item item text)
    (more : Separated Item items rest) : Separated Item (item :: items) (text ++ ',' :: rest)

inductive Listed {α : Type} (Item : α → List Char → Prop) : List α → List Char → Prop where
  | none {text : List Char} (blank : Blank text) : Listed Item [] text
  | some {items : List α} {text : List Char} (shape : Separated Item items text) :
    Listed Item items text

inductive Element : List Char → List Char → Prop where
  | padded {before value after : List Char} (blank : Blank before) (alsoBlank : Blank after) :
    Element value (before ++ (value ++ after))

/-- A key and a value, where `Key` tells how a key is written. -/
inductive Member {κ : Type} (Key : κ → List Char → Prop) : κ × List Char → List Char → Prop where
  | named {key : κ} {quoted value before beside between after : List Char} (blank : Blank before)
    (spelled : Key key quoted) (besideKey : Blank beside) (beforeValue : Blank between)
    (behind : Blank after) :
    Member Key (key, value)
      (before ++ '"' :: (quoted ++ '"' :: (beside ++ ':' :: (between ++ (value ++ after)))))

/-- A key that is not looked at. -/
def Verbatim (key quoted : List Char) : Prop :=
  key = quoted ∧ Quotable quoted

def Named (key : String) (quoted : List Char) : Prop :=
  Spells key.toList quoted

inductive Value : List Char → Prop where
  | null : Value ['n', 'u', 'l', 'l']
  | true : Value ['t', 'r', 'u', 'e']
  | false : Value ['f', 'a', 'l', 's', 'e']
  | number {text : List Char} (number : Number text) : Value text
  | quoted {text : List Char} (quotable : Quotable text) : Value ('"' :: (text ++ ['"']))
  | array {elements : List (List Char)} {text : List Char} (listed : Listed Element elements text)
    (values : ∀ element ∈ elements, Value element) : Value ('[' :: (text ++ [']']))
  | object {members : List (List Char × List Char)} {text : List Char}
    (listed : Listed (Member Verbatim) members text)
    (values : ∀ member ∈ members, Value member.2) : Value ('\x7b' :: (text ++ ['\x7d']))

/-- The text of an object with these keys and the texts of their values. -/
inductive Object (members : List (String × List Char)) : List Char → Prop where
  | braces {text : List Char} (listed : Listed (Member Named) members text) :
    Object members ('\x7b' :: (text ++ ['\x7d']))

theorem blank_nil : Blank [] := by
  decide

theorem spells_self {text : List Char} (plain : AllPlain text) : Spells text text := by
  induction text with
  | nil => exact .nil
  | cons c text ih =>
    exact .plain (plain c List.mem_cons_self)
      (ih fun other member => plain other (List.mem_cons_of_mem _ member))

def memberText (key : String) (value : List Char) : List Char :=
  '"' :: (key.toList ++ '"' :: ':' :: value)

theorem member_memberText {key : String} (plain : AllPlain key.toList) (value : List Char) :
    Member Named (key, value) (memberText key value) := by
  have spelled : Named key key.toList := spells_self plain
  have member : Member Named (key, value)
      ([] ++ '"' :: (key.toList ++ '"' :: ([] ++ ':' :: ([] ++ (value ++ []))))) :=
    .named blank_nil spelled blank_nil blank_nil blank_nil
  rwa [List.nil_append, List.nil_append, List.nil_append, List.append_nil] at member

end RiscvListing.Json.Grammar
