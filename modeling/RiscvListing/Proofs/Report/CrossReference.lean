import RiscvListing.Proofs.Elf.RoundTrip
import RiscvListing.Proofs.Labels.Discovery
import RiscvListing.Proofs.Report.Line

namespace RiscvListing

theorem Instruction.Jumps.render {instruction : Instruction} {offset : Immediate}
    (jump : instruction.Jumps offset) (labels : Labels) (address : Address) :
    ∃ stem, instruction.render labels address =
      stem ++ targetSuffix labels (address + offset) := by
  cases jump with
  | jal rd offset =>
    refine ⟨Text.alignRight 7 "jal" ' ' ++ "\t" ++ (rd.name ++ ", " ++
      Text.signedDecimal offset.toInt), ?_⟩
    simp only [Instruction.render, reduceCtorEq, if_false, mnemonic, operands, String.append_assoc]
  | branch op rs1 rs2 offset =>
    refine ⟨Text.alignRight 7 op.mnemonic ' ' ++ "\t" ++ (rs1.name ++ ", " ++ rs2.name ++ ", 0x" ++
      Text.hex (address + offset).toNat), ?_⟩
    simp only [Instruction.render, reduceCtorEq, if_false, mnemonic, operands, String.append_assoc]

theorem Labels.isSome_ofProgram_iff (symbols : List Elf.Symbol) (code : List CodeWord)
    (address : Address) :
    ((ofProgram symbols code).get? address).isSome = true ↔ Referenced symbols code address := by
  rw [← contains_eq_isSome, contains_ofProgram_iff_referenced]

namespace Report

structure Block where
  label : Option String
  line : String

def Block.lines (block : Block) : List String :=
  block.label.toList ++ [block.line]

def Block.ofWord (labels : Labels) (word : CodeWord) : Block where
  label := (labels.get? word.address).map (labelLine word.address)
  line := instructionLine labels word

theorem codeLines_eq (labels : Labels) (word : CodeWord) :
    codeLines labels word = (Block.ofWord labels word).lines := by
  unfold codeLines Block.lines Block.ofWord
  cases labels.get? word.address <;> rfl

theorem textLines_eq (labels : Labels) (code : List CodeWord) :
    textLines labels code = ".text" :: (code.map (Block.ofWord labels)).flatMap Block.lines := by
  have blocks : codeLines labels = Block.lines ∘ Block.ofWord labels :=
    funext (codeLines_eq labels)
  rw [textLines, blocks, List.flatMap_map]
  rfl

theorem symbolLines_eq (symbols : List Elf.Symbol) :
    symbolLines symbols = "" :: ".symtab" :: symbolHeader :: symbols.mapIdx symbolRow := by
  rw [symbolLines, List.mapIdx_eq_zipIdx_map]

theorem lines_eq_append (config : Config) (symbols : List Elf.Symbol) (code : List CodeWord) :
    (ofProgram config symbols code).lines =
      textLines (Labels.ofProgram symbols code) code ++
        if config.emitSymtab then symbolLines symbols else [] := by
  rw [ofProgram]
  cases config.emitSymtab
  · exact (List.append_nil _).symm
  · rfl

theorem lines_ofProgram (config : Config) (symbols : List Elf.Symbol) (code : List CodeWord) :
    (ofProgram config symbols code).lines =
      ".text" :: (code.map (Block.ofWord (Labels.ofProgram symbols code))).flatMap Block.lines ++
        if config.emitSymtab then
          "" :: ".symtab" :: symbolHeader :: symbols.mapIdx symbolRow
        else [] := by
  rw [lines_eq_append, textLines_eq, symbolLines_eq]

theorem count_labelLine_ofProgram (config : Config) (symbols : List Elf.Symbol)
    (code : List CodeWord) (address : Address) (name : String) :
    (ofProgram config symbols code).lines.count (labelLine address name) =
      if (Labels.ofProgram symbols code).get? address = some name then
        (code.map CodeWord.address).count address
      else 0 := by
  rw [← count_labelLine_textLines]
  unfold ofProgram
  cases config.emitSymtab
  · rfl
  · simp only [if_true, List.count_append, count_labelLine_symbolLines, Nat.add_zero]

theorem instructionLine_of_jumps {word : CodeWord} {offset : Immediate}
    (jump : word.instruction.Jumps offset) (labels : Labels) :
    ∃ stem, instructionLine labels word =
      stem ++ Instruction.targetSuffix labels (word.address + offset) := by
  obtain ⟨stem, rendered⟩ := jump.render labels word.address
  refine ⟨"   " ++ Text.alignRight 5 (Text.hex word.address.toNat) '0' ++ ": \t" ++
    Text.alignRight 8 (Text.hex word.word.toNat) '0' ++ "\t" ++ stem, ?_⟩
  rw [instructionLine, CodeWord.render, rendered]
  simp only [String.append_assoc]

/-- How a report shows the target of a jump: the label stands before every word of code at the
target and nowhere else. -/
structure TargetLabelled (report : Report) (code : List CodeWord) (blocks : List Block)
    (target : Address) (name : String) : Prop where
  listed : ∀ (place : Nat) (word : CodeWord), code[place]? = some word → word.address = target →
    (∃ line, blocks[place]? = some ⟨some (labelLine target name), line⟩) ∧
      report.lines.count (labelLine target name) = 1
  unlisted : (∀ word ∈ code, word.address ≠ target) →
    ∀ other, labelLine target other ∉ report.lines

theorem targetLabelled_ofProgram (config : Config) {symbols : List Elf.Symbol}
    {code : List CodeWord} (distinct : (code.map CodeWord.address).Nodup) {target : Address}
    {name : String} (named : (Labels.ofProgram symbols code).get? target = some name) :
    TargetLabelled (ofProgram config symbols code) code
      (code.map (Block.ofWord (Labels.ofProgram symbols code))) target name where
  listed := by
    intro place word found same
    subst target
    refine ⟨⟨instructionLine (Labels.ofProgram symbols code) word, ?_⟩, ?_⟩
    · rw [List.getElem?_map, found, Option.map_some, Block.ofWord, named]
      rfl
    · have member : word.address ∈ code.map CodeWord.address :=
        List.mem_map_of_mem (List.mem_of_getElem? found)
      rw [count_labelLine_ofProgram, if_pos named]
      have least := List.count_pos_iff.mpr member
      have most := List.nodup_iff_count.mp distinct word.address
      omega
  unlisted := by
    intro absent other
    rw [← List.count_eq_zero, count_labelLine_ofProgram]
    have none : target ∉ code.map CodeWord.address := by
      intro member
      obtain ⟨word, inside, same⟩ := List.mem_map.mp member
      exact absent word inside same
    rw [List.count_eq_zero.mpr none, ite_self]

/-- A report lists the code in order, a block for each word, and then the symbols if it is asked
to. A word has a label exactly when something refers to it, and every jump shows that label. -/
structure CrossReferenced (report : Report) (config : Config) (symbols : List Elf.Symbol)
    (code : List CodeWord) (blocks : List Block) : Prop where
  lines : report.lines = ".text" :: blocks.flatMap Block.lines ++
    if config.emitSymtab then "" :: ".symtab" :: symbolHeader :: symbols.mapIdx symbolRow else []
  length : blocks.length = code.length
  block : ∀ (place : Nat) (word : CodeWord), code[place]? = some word →
    blocks[place]? = some
      ⟨((Labels.ofProgram symbols code).get? word.address).map (labelLine word.address),
        instructionLine (Labels.ofProgram symbols code) word⟩
  labelled : ∀ (place : Nat) (word : CodeWord) (block : Block), code[place]? = some word →
    blocks[place]? = some block →
    (block.label.isSome = true ↔ Referenced symbols code word.address)
  jump : ∀ (place : Nat) (word : CodeWord) (block : Block) (offset : Immediate),
    code[place]? = some word → blocks[place]? = some block → word.instruction.Jumps offset →
    ∃ name stem, (Labels.ofProgram symbols code).get? (word.address + offset) = some name ∧
      block.line = stem ++ " <" ++ name ++ ">" ∧
      report.TargetLabelled code blocks (word.address + offset) name

theorem crossReferenced_ofProgram (config : Config) (symbols : List Elf.Symbol)
    {code : List CodeWord} (distinct : (code.map CodeWord.address).Nodup) :
    (ofProgram config symbols code).CrossReferenced config symbols code
      (code.map (Block.ofWord (Labels.ofProgram symbols code))) where
  lines := lines_ofProgram config symbols code
  length := List.length_map _
  block := by
    intro place word inCode
    rw [List.getElem?_map, inCode]
    rfl
  labelled := by
    intro place word block inCode inBlocks
    rw [List.getElem?_map, inCode] at inBlocks
    cases inBlocks
    rw [Block.ofWord, Option.isSome_map]
    exact Labels.isSome_ofProgram_iff symbols code word.address
  jump := by
    intro place word block offset inCode inBlocks jump
    rw [List.getElem?_map, inCode] at inBlocks
    cases inBlocks
    have reached : Referenced symbols code (word.address + offset) :=
      .inr ⟨word, List.mem_of_getElem? inCode, offset, jump, rfl⟩
    obtain ⟨name, named⟩ := Option.isSome_iff_exists.mp
      ((Labels.isSome_ofProgram_iff symbols code _).mpr reached)
    obtain ⟨stem, shown⟩ := instructionLine_of_jumps jump (Labels.ofProgram symbols code)
    have suffix : Instruction.targetSuffix (Labels.ofProgram symbols code)
        (word.address + offset) = " <" ++ name ++ ">" := by
      rw [Instruction.targetSuffix, named]
    rw [suffix, ← String.append_assoc, ← String.append_assoc] at shown
    exact ⟨name, stem, named, shown, targetLabelled_ofProgram config distinct named⟩

end Report

theorem disassemble_eq_ok_iff (bytes : Bytes) (config : Config) (report : Report) :
    disassemble bytes config = .ok report ↔
      ∃ object symbols code, Elf.Object.parse bytes config.strict = .ok object ∧
        object.symbols = .ok symbols ∧ object.code = .ok code ∧
        report = .ofProgram config symbols code := by
  rw [disassemble, Elf.bind_eq_ok_iff]
  refine exists_congr fun object => ?_
  rw [Elf.bind_eq_ok_iff]
  constructor
  · intro found
    obtain ⟨parsed, symbols, read, rest⟩ := found
    obtain ⟨code, decoded, made⟩ := (Elf.bind_eq_ok_iff _ _ _).mp rest
    exact ⟨symbols, code, parsed, read, decoded, (Except.ok.inj made).symm⟩
  · intro found
    obtain ⟨symbols, code, parsed, read, decoded, made⟩ := found
    subst report
    exact ⟨parsed, symbols, read, (Elf.bind_eq_ok_iff _ _ _).mpr ⟨code, decoded, rfl⟩⟩

theorem disassemble_crossReferenced {bytes : Bytes} {config : Config} {report : Report}
    (listed : disassemble bytes config = .ok report) :
    ∃ object symbols code blocks, Elf.Object.parse bytes config.strict = .ok object ∧
      object.symbols = .ok symbols ∧ object.code = .ok code ∧
      report.CrossReferenced config symbols code blocks := by
  obtain ⟨object, symbols, code, parsed, read, decoded, made⟩ :=
    (disassemble_eq_ok_iff bytes config report).mp listed
  subst report
  have distinct := Elf.Object.nodup_address_of_code decoded
  exact ⟨object, symbols, code, _, parsed, read, decoded,
    Report.crossReferenced_ofProgram config symbols distinct⟩

theorem disassemble_layout (layout : Elf.Layout) (small : layout.bytes.size < 2 ^ 32)
    {config : Config} (strict : config.strict = true) :
    disassemble layout.bytes config =
      .ok (.ofProgram config (.null :: layout.symbols.map Elf.PlacedSymbol.toSymbol)
        (CodeWord.sequence layout.address layout.code)) := by
  have placed := layout.placed_bytes
  rw [disassemble_eq_ok_iff, strict]
  exact ⟨_, _, _, Elf.Layout.parse_bytes_eq layout small, placed.symbols small, placed.code small,
    rfl⟩

def wrappedLoop : Elf.Layout :=
  ⟨0xfffffffc, [0x0040006f, 0xfe000ee3], [],
    [⟨[108, 111, 111, 112], 0, 4, 0x12, 0, 1, by decide⟩], by decide⟩

theorem wrappedLoop_crossReferenced :
    ∃ report, disassemble wrappedLoop.bytes .standard = .ok report ∧
      ∃ object symbols code blocks,
        Elf.Object.parse wrappedLoop.bytes Config.standard.strict = .ok object ∧
        object.symbols = .ok symbols ∧ object.code = .ok code ∧
        report.CrossReferenced .standard symbols code blocks := by
  have strict : Config.standard.strict = true := rfl
  have listed := disassemble_layout wrappedLoop (by decide +kernel) strict
  exact ⟨_, listed, disassemble_crossReferenced listed⟩

end RiscvListing
