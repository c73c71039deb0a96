import Mathlib.Algebra.GroupWithZero.Nat
import RiscvListing.Proofs.Elf.Record
import RiscvListing.Proofs.Instruction.Rendering
import RiscvListing.Proofs.Report.CrossReference

namespace RiscvListing

namespace Text

def lineEnds (text : String) : Nat :=
  text.toList.count '\n'

/-- The pieces of a text between its line ends. What stands behind the last one is dropped. -/
def pieces (text : String) : List String :=
  ((text.split '\n').toList.map String.Slice.copy).dropLast

theorem lineEnds_eq_zero_iff {text : String} : lineEnds text = 0 ↔ '\n' ∉ text.toList :=
  List.count_eq_zero

theorem lineEnds_of_not_mem {text : String} (plain : '\n' ∉ text.toList) : lineEnds text = 0 :=
  lineEnds_eq_zero_iff.mpr plain

theorem lineEnds_append (first second : String) :
    lineEnds (first ++ second) = lineEnds first + lineEnds second := by
  rw [lineEnds, String.toList_append, List.count_append]
  rfl

theorem lineEnds_column {fill : Char} (plain : fill ≠ '\n') (width : Nat) :
    lineEnds (String.ofList (List.replicate width fill)) = 0 := by
  rw [lineEnds, String.toList_ofList, List.count_replicate, if_neg (by simpa using plain)]

theorem lineEnds_alignRight {fill : Char} (plain : fill ≠ '\n') (width : Nat) (text : String) :
    lineEnds (alignRight width text fill) = lineEnds text := by
  rw [alignRight, lineEnds_append, lineEnds_column plain, Nat.zero_add]

theorem lineEnds_alignLeft (width : Nat) (text : String) :
    lineEnds (alignLeft width text) = lineEnds text := by
  rw [alignLeft, lineEnds_append, lineEnds_column (by decide), Nat.add_zero]

theorem lineEnds_hex (n : Nat) : lineEnds (hex n) = 0 :=
  lineEnds_of_not_mem (not_mem_hex (by decide) n)

theorem lineEnds_signedDecimal (n : Int) : lineEnds (signedDecimal n) = 0 :=
  lineEnds_of_not_mem (not_mem_signedDecimal (by decide) (by decide) n)

theorem lineEnds_decimal (n : Nat) : lineEnds (decimal n) = 0 :=
  lineEnds_signedDecimal n

theorem lineEnds_byteText (bytes : List UInt8) :
    lineEnds (Elf.byteText bytes) = bytes.count 0x0a := by
  have all : ∀ value : Fin 256,
      (Char.ofNat value.val == '\n') = (UInt8.ofNat value.val == 0x0a) := by
    decide +kernel
  have character : ∀ byte : UInt8, (Char.ofNat byte.toNat == '\n') = (byte == 0x0a) := by
    intro byte
    have same := all ⟨byte.toNat, byte.toNat_lt⟩
    rwa [UInt8.ofNat_toNat] at same
  rw [lineEnds, Elf.byteText, String.toList_ofList]
  induction bytes with
  | nil => rfl
  | cons byte bytes ih =>
    rw [List.map_cons, List.count_cons, ih, List.count_cons, character byte]

theorem pieces_eq (text : String) :
    pieces text = ((text.toList.splitOn '\n').map String.ofList).dropLast := by
  rw [pieces, String.toList_split_char]

theorem length_splitOn (characters : List Char) (mark : Char) :
    (characters.splitOn mark).length = characters.count mark + 1 := by
  induction characters with
  | nil => rfl
  | cons c characters ih =>
    rw [List.splitOn_cons_eq_if_modifyHead, List.count_cons]
    split
    · rw [List.length_cons, ih]
    · rw [List.length_modifyHead, ih]

theorem length_pieces (text : String) : (pieces text).length = lineEnds text := by
  rw [pieces_eq, List.length_dropLast, List.length_map, length_splitOn, Nat.add_sub_cancel]
  rfl

theorem splitOn_lines {lines : List String} (plain : ∀ line ∈ lines, '\n' ∉ line.toList) :
    (String.join (lines.map (· ++ "\n"))).toList.splitOn '\n' =
      lines.map String.toList ++ [[]] := by
  induction lines with
  | nil => rfl
  | cons line lines ih =>
    have first := plain line List.mem_cons_self
    have rest := ih fun other member => plain other (List.mem_cons_of_mem _ member)
    have ending : "\n".toList = ['\n'] := rfl
    rw [List.map_cons, String.join_cons, String.toList_append, String.toList_append, ending,
      List.append_assoc, List.singleton_append, List.splitOn_append_cons_self_of_not_mem first,
      rest]
    rfl

end Text

open Text

theorem Register.lineEnds_name (register : Register) : lineEnds register.name = 0 := by
  have all : ∀ index : Fin 32, lineEnds (names.get index) = 0 := by decide +kernel
  exact all register.number.toFin

namespace Instruction

theorem lineEnds_mnemonic (instruction : Instruction) : lineEnds instruction.mnemonic = 0 := by
  have all : ∀ bare ∈ bareInstructions, lineEnds bare.mnemonic = 0 := by decide +kernel
  rw [← mnemonic_bare]
  exact all _ instruction.bare_mem

theorem lineEnds_baseOperand (offset : Immediate) (base : Register) :
    lineEnds (baseOperand offset base) = 0 := by
  simp (disch := decide) only [baseOperand, lineEnds_append, lineEnds_signedDecimal,
    base.lineEnds_name, lineEnds_of_not_mem]

theorem lineEnds_targetSuffix (labels : Labels) (target : Address) :
    lineEnds (targetSuffix labels target) =
      ((labels.get? target).toList.map lineEnds).sum := by
  unfold targetSuffix
  cases labels.get? target with
  | none => rfl
  | some name =>
    simp (disch := decide) only [lineEnds_append, lineEnds_of_not_mem, Nat.zero_add, Nat.add_zero,
      Option.toList_some, List.map_cons, List.map_nil, List.sum_cons, List.sum_nil]

theorem lineEnds_operands (labels : Labels) (address : Address) (instruction : Instruction) :
    lineEnds (instruction.operands labels address) =
      (((instruction.target? address).bind labels.get?).toList.map lineEnds).sum := by
  cases instruction with
  | jal rd offset =>
    simp (disch := decide) only [operands, target?, lineEnds_append, Register.lineEnds_name,
      lineEnds_signedDecimal, lineEnds_of_not_mem, lineEnds_targetSuffix, Nat.zero_add,
      Option.bind_some]
  | branch op rs1 rs2 offset =>
    simp (disch := decide) only [operands, target?, lineEnds_append, Register.lineEnds_name,
      lineEnds_hex, lineEnds_of_not_mem, lineEnds_targetSuffix, Nat.zero_add, Option.bind_some]
  | _ =>
    simp (disch := decide) only [operands, target?, lineEnds_append, Register.lineEnds_name,
      lineEnds_hex, lineEnds_signedDecimal, lineEnds_baseOperand, lineEnds_of_not_mem,
      Nat.add_zero, Option.bind_none, Option.toList_none, List.map_nil, List.sum_nil]

theorem lineEnds_render (labels : Labels) (address : Address) (instruction : Instruction) :
    lineEnds (instruction.render labels address) =
      (((instruction.target? address).bind labels.get?).toList.map lineEnds).sum := by
  unfold render
  split
  · next unknown =>
    subst unknown
    rfl
  · simp (disch := decide) only [lineEnds_append, lineEnds_alignRight, lineEnds_mnemonic,
      lineEnds_operands, lineEnds_of_not_mem, Nat.zero_add]

end Instruction

namespace Elf

theorem SymbolType.lineEnds_name (type : SymbolType) : lineEnds type.name = 0 := by
  cases type <;> decide

theorem SymbolBinding.lineEnds_name (binding : SymbolBinding) : lineEnds binding.name = 0 := by
  cases binding <;> decide

theorem SymbolVisibility.lineEnds_name (visibility : SymbolVisibility) :
    lineEnds visibility.name = 0 := by
  cases visibility <;> decide

theorem SymbolHome.lineEnds_name (home : SymbolHome) : lineEnds home.name = 0 := by
  cases home with
  | index number => exact lineEnds_decimal number.toNat
  | _ => decide

end Elf

namespace Report

open Elf (Symbol)

theorem lineEnds_labelLine (address : Address) (name : String) :
    lineEnds (labelLine address name) = lineEnds name := by
  simp (disch := decide) only [labelLine, lineEnds_append, lineEnds_alignRight, lineEnds_hex,
    lineEnds_of_not_mem, Nat.zero_add, Nat.add_zero]

theorem lineEnds_instructionLine (labels : Labels) (word : CodeWord) :
    lineEnds (instructionLine labels word) =
      ((word.target?.bind labels.get?).toList.map lineEnds).sum := by
  simp (disch := decide) only [instructionLine, CodeWord.render, Instruction.lineEnds_render,
    lineEnds_append, lineEnds_alignRight, lineEnds_hex, lineEnds_of_not_mem, Nat.zero_add]
  rfl

theorem lineEnds_symbolRow (number : Nat) (symbol : Symbol) :
    lineEnds (symbolRow number symbol) = lineEnds symbol.name := by
  delta symbolRow
  simp (disch := decide) only [lineEnds_append, lineEnds_alignRight, lineEnds_alignLeft,
    lineEnds_hex, lineEnds_decimal, Elf.SymbolType.lineEnds_name, Elf.SymbolBinding.lineEnds_name,
    Elf.SymbolVisibility.lineEnds_name, Elf.SymbolHome.lineEnds_name, lineEnds_of_not_mem,
    Nat.zero_add]

theorem lineEnds_symbolHeader : lineEnds symbolHeader = 0 := by
  delta symbolHeader
  exact lineEnds_of_not_mem (by decide)

def wordNames (labels : Labels) (word : CodeWord) : List String :=
  (labels.get? word.address).toList ++ (word.target?.bind labels.get?).toList

/-- The names in a report, as often as they occur in it. -/
def names (config : Config) (symbols : List Symbol) (code : List CodeWord) : List String :=
  code.flatMap (wordNames (Labels.ofProgram symbols code)) ++
    if config.emitSymtab then symbols.map Symbol.name else []

theorem lineEnds_codeLines (labels : Labels) (word : CodeWord) :
    ((codeLines labels word).map lineEnds).sum = ((wordNames labels word).map lineEnds).sum := by
  unfold codeLines wordNames
  cases labels.get? word.address with
  | none => simp [lineEnds_instructionLine]
  | some name => simp [lineEnds_labelLine, lineEnds_instructionLine]

theorem lineEnds_textLines (labels : Labels) (code : List CodeWord) :
    ((textLines labels code).map lineEnds).sum =
      ((code.flatMap (wordNames labels)).map lineEnds).sum := by
  have title : lineEnds ".text" = 0 := by decide
  rw [textLines, List.map_cons, List.sum_cons, title, Nat.zero_add]
  induction code with
  | nil => rfl
  | cons word code ih =>
    rw [List.flatMap_cons, List.flatMap_cons, List.map_append, List.map_append, List.sum_append,
      List.sum_append, lineEnds_codeLines, ih]

theorem lineEnds_symbolLines (symbols : List Symbol) :
    ((symbolLines symbols).map lineEnds).sum = ((symbols.map Symbol.name).map lineEnds).sum := by
  have rows : (symbols.mapIdx symbolRow).map lineEnds = (symbols.map Symbol.name).map lineEnds := by
    apply List.ext_getElem
    · simp
    · intro number inside _
      simp [lineEnds_symbolRow]
  have title : lineEnds ".symtab" = 0 := by decide
  have blank : lineEnds "" = 0 := by decide
  rw [symbolLines_eq, List.map_cons, List.map_cons, List.map_cons, rows, blank, title,
    lineEnds_symbolHeader]
  simp

theorem lineEnds_lines (config : Config) (symbols : List Symbol) (code : List CodeWord) :
    ((ofProgram config symbols code).lines.map lineEnds).sum =
      ((names config symbols code).map lineEnds).sum := by
  rw [lines_eq_append, names, List.map_append, List.map_append, List.sum_append, List.sum_append,
    lineEnds_textLines]
  cases config.emitSymtab with
  | true => rw [if_pos rfl, if_pos rfl, lineEnds_symbolLines]
  | false => rfl

theorem lineEnds_text (report : Report) :
    lineEnds report.text = report.lines.length + (report.lines.map lineEnds).sum := by
  rw [text]
  induction report.lines with
  | nil => rfl
  | cons line lines ih =>
    have ending : lineEnds "\n" = 1 := by decide
    rw [List.map_cons, String.join_cons, lineEnds_append, lineEnds_append, ending, ih,
      List.length_cons, List.map_cons, List.sum_cons]
    omega

theorem pieces_text_of_plain {report : Report}
    (plain : ∀ line ∈ report.lines, '\n' ∉ line.toList) : pieces report.text = report.lines := by
  have characters : (report.lines.map String.toList).map String.ofList = report.lines := by
    simp [Function.comp_def]
  rw [pieces_eq, text, splitOn_lines plain, List.map_append, characters]
  exact List.dropLast_concat

theorem pieces_text_eq_iff (report : Report) :
    pieces report.text = report.lines ↔ (report.lines.map lineEnds).sum = 0 := by
  constructor
  · intro back
    have count := length_pieces report.text
    rw [back, report.lineEnds_text] at count
    omega
  · intro none
    apply pieces_text_of_plain
    intro line member
    have zero := List.sum_eq_zero_iff_forall_eq_nat.mp none (lineEnds line)
      (List.mem_map_of_mem member)
    exact lineEnds_eq_zero_iff.mp zero

/-- The names that a report shows of a program: those of all symbols if they are listed, and
otherwise those of the addresses and the targets of the code. -/
def Prints (config : Config) (symbols : List Symbol) (code : List CodeWord) (name : String) :
    Prop :=
  if config.emitSymtab then ∃ symbol ∈ symbols, symbol.name = name
  else ∃ word ∈ code,
    (Labels.ofProgram symbols code).get? word.address = some name ∨
      ∃ target, word.target? = some target ∧
        (Labels.ofProgram symbols code).get? target = some name

theorem mem_wordNames {labels : Labels} {word : CodeWord} {name : String} :
    name ∈ wordNames labels word ↔
      labels.get? word.address = some name ∨
        ∃ target, word.target? = some target ∧ labels.get? target = some name := by
  rw [wordNames, List.mem_append, Option.mem_toList, Option.mem_toList, Option.bind_eq_some_iff]

theorem symbol_of_get?_ofProgram {symbols : List Symbol} {code : List CodeWord}
    {address : Address} {name : String}
    (named : (Labels.ofProgram symbols code).get? address = some name) :
    (∃ symbol ∈ symbols, symbol.name = name) ∨ lineEnds name = 0 := by
  rw [Labels.get?_ofProgram, Option.or_eq_some_iff] at named
  rcases named with function | ⟨-, synthetic⟩
  · obtain ⟨symbol, found, same⟩ := Option.map_eq_some_iff.mp function
    have member := List.mem_of_find?_eq_some found
    exact .inl ⟨symbol, List.mem_reverse.mp member, same⟩
  · obtain ⟨number, -, same⟩ := Option.map_eq_some_iff.mp synthetic
    refine .inr ?_
    rw [← same, Labels.syntheticName, lineEnds_append, lineEnds_decimal]
    decide

theorem lineEnds_names_eq_zero_iff (config : Config) (symbols : List Symbol)
    (code : List CodeWord) :
    ((names config symbols code).map lineEnds).sum = 0 ↔
      ∀ name, Prints config symbols code name → '\n' ∉ name.toList := by
  simp only [List.sum_eq_zero_iff_forall_eq_nat, List.forall_mem_map, ← lineEnds_eq_zero_iff]
  unfold names Prints
  cases config.emitSymtab with
  | false =>
    simp only [Bool.false_eq_true, if_false, List.append_nil, List.mem_flatMap, mem_wordNames]
  | true =>
    simp only [if_true, List.mem_append, List.mem_flatMap, mem_wordNames, List.mem_map]
    constructor
    · intro plain name symbol
      exact plain name (.inr symbol)
    · rintro plain name (⟨word, -, shown⟩ | symbol)
      · have named : ∃ address, (Labels.ofProgram symbols code).get? address = some name := by
          rcases shown with label | ⟨target, -, label⟩
          · exact ⟨_, label⟩
          · exact ⟨_, label⟩
        obtain ⟨address, named⟩ := named
        rcases symbol_of_get?_ofProgram named with symbol | plainName
        · exact plain name symbol
        · exact plainName
      · exact plain name symbol

end Report

theorem Elf.Object.lineEnds_name {object : Object} (checked : object.Checked)
    {symbols : List Symbol} (read : object.symbols = .ok symbols) {index : Nat} {symbol : Symbol}
    (found : symbols[index]? = some symbol) :
    lineEnds symbol.name = (object.image.nameBytes (object.symbolNameStart index)).count 0x0a := by
  have named := not_dangling_of_symbols checked read
  rw [symbols_of_not_dangling checked named] at read
  cases read
  obtain ⟨inside, same⟩ := List.getElem?_eq_some_iff.mp found
  rw [List.getElem_map, List.getElem_range] at same
  rw [← same]
  exact lineEnds_byteText _

/-- The text of a report can be split back into its lines exactly when no name in it has a line end,
that is, the byte 0x0a in the file. There is one line end behind each line, and one more for each of
these bytes wherever the name is printed. -/
theorem disassemble_splits_back {bytes : Bytes} {config : Config} {report : Report}
    (listed : disassemble bytes config = .ok report) :
    ∃ object symbols code, Elf.Object.parse bytes config.strict = .ok object ∧
      object.symbols = .ok symbols ∧ object.code = .ok code ∧
      (pieces report.text = report.lines ↔
        ∀ name, Report.Prints config symbols code name → '\n' ∉ name.toList) ∧
      lineEnds report.text =
        report.lines.length + ((Report.names config symbols code).map lineEnds).sum ∧
      ∀ (index : Nat) (symbol : Elf.Symbol), symbols[index]? = some symbol →
        lineEnds symbol.name =
          (object.image.nameBytes (object.symbolNameStart index)).count 0x0a := by
  obtain ⟨object, symbols, code, parsed, read, decoded, rfl⟩ :=
    (disassemble_eq_ok_iff bytes config report).mp listed
  have checked := Elf.Object.checked_of_parse parsed
  refine ⟨object, symbols, code, parsed, read, decoded, ?_, ?_, ?_⟩
  · rw [Report.pieces_text_eq_iff, Report.lineEnds_lines, Report.lineEnds_names_eq_zero_iff]
  · rw [Report.lineEnds_text, Report.lineEnds_lines]
  · intro index symbol found
    exact Elf.Object.lineEnds_name checked read found

def forgedName : Elf.Layout :=
  { wrappedLoop with symbols := [⟨[97, 10, 98], 8, 0, 0x11, 0, 1, by decide⟩] }

theorem forgedName_splits_back :
    ∃ report, disassemble forgedName.bytes .standard = .ok report ∧
      pieces report.text ≠ report.lines := by
  have strict : Config.standard.strict = true := rfl
  have small : forgedName.bytes.size < 2 ^ 32 := by decide +kernel
  have listed := disassemble_layout forgedName small strict
  refine ⟨_, listed, ?_⟩
  obtain ⟨object, symbols, code, parsed, read, -, back, -, -⟩ := disassemble_splits_back listed
  have object : object = ⟨⟨forgedName.bytes⟩, forgedName.sections⟩ :=
    Except.ok.inj (parsed.symm.trans (Elf.Layout.parse_bytes_eq forgedName small))
  subst object
  have symbols : symbols = .null :: forgedName.symbols.map Elf.PlacedSymbol.toSymbol :=
    Except.ok.inj (read.symm.trans (forgedName.placed_bytes.symbols small))
  subst symbols
  intro same
  exact back.mp same "a\nb" ⟨_, List.mem_cons_of_mem _ List.mem_cons_self, by decide⟩ (by decide)

end RiscvListing
