import RiscvListing.Proofs.Report.CrossReference

namespace RiscvListing

def Elf.Symbol.relocate (distance : Address) (symbol : Symbol) : Symbol :=
  { symbol with value := symbol.value + distance }

def CodeWord.relocate (distance : Address) (word : CodeWord) : CodeWord :=
  { word with address := word.address + distance }

theorem CodeWord.relocate_add (distance : Address) (word : CodeWord) (offset : Immediate) :
    (word.relocate distance).address + offset = word.address + offset + distance := by
  rw [relocate, BitVec.add_assoc, BitVec.add_comm distance, ← BitVec.add_assoc]

theorem CodeWord.target?_relocate (distance : Address) (word : CodeWord) :
    (word.relocate distance).target? = word.target?.map (· + distance) := by
  have same : (word.relocate distance).instruction = word.instruction := rfl
  rw [target?, target?, same]
  cases word.instruction with
  | jal rd offset => exact congrArg some (word.relocate_add distance offset)
  | branch op rs1 rs2 offset => exact congrArg some (word.relocate_add distance offset)
  | _ => rfl

theorem CodeWord.filterMap_target?_relocate (distance : Address) (code : List CodeWord) :
    (code.map (relocate distance)).filterMap target? =
      (code.filterMap target?).map (· + distance) := by
  rw [List.filterMap_map, List.map_filterMap]
  congr 1
  funext word
  exact word.target?_relocate distance

theorem Elf.Symbol.functions_relocate (distance : Address) (symbols : List Symbol) :
    functions (symbols.map (relocate distance)) =
      (functions symbols).map fun entry => (entry.1 + distance, entry.2) := by
  rw [functions, functions, List.filter_map, List.map_map, List.map_map]
  rfl

namespace Labels

/-- The labels of a program and of the same program at another place. -/
structure Relocates (distance : Address) (labels moved : Labels) : Prop where
  names : ∀ address, moved.get? (address + distance) = labels.get? address
  synthetic : moved.synthetic = labels.synthetic

variable {distance : Address} {labels moved : Labels}

theorem Relocates.contains (relocates : labels.Relocates distance moved) (address : Address) :
    moved.contains (address + distance) = labels.contains address := by
  rw [contains_eq_isSome, contains_eq_isSome, relocates.names]

theorem Relocates.insert (relocates : labels.Relocates distance moved) (address : Address)
    (name : String) :
    (labels.insert address name).Relocates distance (moved.insert (address + distance) name) where
  names := by
    intro other
    rw [get?_insert, get?_insert, relocates.names]
    simp only [BitVec.add_left_inj]
  synthetic := relocates.synthetic

theorem Relocates.ensure (relocates : labels.Relocates distance moved) (address : Address) :
    (labels.ensure address).Relocates distance (moved.ensure (address + distance)) := by
  have same := relocates.contains address
  cases known : labels.contains address with
  | true =>
    rw [known] at same
    rw [ensure_of_contains known, ensure_of_contains same]
    exact relocates
  | false =>
    rw [known] at same
    refine ⟨?_, ?_⟩
    · intro other
      rw [get?_ensure_of_not_contains same, get?_ensure_of_not_contains known, relocates.names,
        relocates.synthetic]
      simp only [BitVec.add_left_inj]
    · rw [synthetic_ensure_of_not_contains same, synthetic_ensure_of_not_contains known,
        relocates.synthetic]

theorem Relocates.insertAll (relocates : labels.Relocates distance moved)
    (named : List (Address × String)) :
    (labels.insertAll named).Relocates distance
      (moved.insertAll (named.map fun entry => (entry.1 + distance, entry.2))) := by
  induction named generalizing labels moved with
  | nil => exact relocates
  | cons entry named ih => exact ih (relocates.insert entry.1 entry.2)

theorem Relocates.foldl_ensure (relocates : labels.Relocates distance moved)
    (targets : List Address) :
    (targets.foldl Labels.ensure labels).Relocates distance
      ((targets.map (· + distance)).foldl Labels.ensure moved) := by
  induction targets generalizing labels moved with
  | nil => exact relocates
  | cons target targets ih => exact ih (relocates.ensure target)

theorem relocates_ofProgram (distance : Address) (symbols : List Elf.Symbol)
    (code : List CodeWord) :
    (ofProgram symbols code).Relocates distance
      (ofProgram (symbols.map (.relocate distance)) (code.map (.relocate distance))) := by
  have start : empty.Relocates distance empty := ⟨fun _ => by rw [get?_empty, get?_empty], rfl⟩
  rw [ofProgram, ofProgram, Elf.Symbol.functions_relocate, discover, discover,
    CodeWord.filterMap_target?_relocate]
  exact (start.insertAll _).foldl_ensure _

theorem Relocates.get?_eq_some_iff (relocates : labels.Relocates distance moved)
    (address : Address) (name : String) :
    moved.get? address = some name ↔
      ∃ place, place + distance = address ∧ labels.get? place = some name := by
  constructor
  · intro named
    refine ⟨address - distance, BitVec.sub_add_cancel address distance, ?_⟩
    rw [← relocates.names, BitVec.sub_add_cancel, named]
  · rintro ⟨place, rfl, named⟩
    rw [relocates.names, named]

theorem Relocates.targetSuffix (relocates : labels.Relocates distance moved)
    (target : Address) :
    Instruction.targetSuffix moved (target + distance) =
      Instruction.targetSuffix labels target := by
  rw [Instruction.targetSuffix, Instruction.targetSuffix, relocates.names]

end Labels

def Instruction.branchText (op : BranchOp) (rs1 rs2 : Register) (target : Address)
    (suffix : String) : String :=
  Text.alignRight 7 op.mnemonic ' ' ++ "\t" ++
    (rs1.name ++ ", " ++ rs2.name ++ ", 0x" ++ Text.hex target.toNat ++ suffix)

namespace CodeWord

theorem render_branch {word : CodeWord} {op : BranchOp} {rs1 rs2 : Register} {offset : Immediate}
    (read : word.instruction = .branch op rs1 rs2 offset) (labels : Labels) :
    word.render labels = Instruction.branchText op rs1 rs2 (word.address + offset)
      (Instruction.targetSuffix labels (word.address + offset)) := by
  rw [render, read]
  rfl

variable {distance : Address} {labels moved : Labels}

theorem render_relocate_branch (relocates : labels.Relocates distance moved) {word : CodeWord}
    {op : BranchOp} {rs1 rs2 : Register} {offset : Immediate}
    (read : word.instruction = .branch op rs1 rs2 offset) :
    (word.relocate distance).render moved =
      Instruction.branchText op rs1 rs2 (word.address + offset + distance)
        (Instruction.targetSuffix labels (word.address + offset)) := by
  have same : (word.relocate distance).instruction = .branch op rs1 rs2 offset := read
  rw [render_branch same, relocate_add, relocates.targetSuffix]

theorem render_relocate (relocates : labels.Relocates distance moved) {word : CodeWord}
    (other : ∀ op rs1 rs2 offset, word.instruction ≠ .branch op rs1 rs2 offset) :
    (word.relocate distance).render moved = word.render labels := by
  have same : (word.relocate distance).instruction = word.instruction := rfl
  rw [render, render, same]
  cases read : word.instruction with
  | branch op rs1 rs2 offset => exact absurd read (other op rs1 rs2 offset)
  | jal rd offset =>
    simp only [Instruction.render, Instruction.operands, relocate_add, relocates.targetSuffix]
  | _ => rfl

end CodeWord

namespace Report

theorem textLines_relocate {distance : Address} {labels moved : Labels}
    (relocates : labels.Relocates distance moved) (code : List CodeWord) :
    textLines moved (code.map (.relocate distance)) =
      ".text" :: (code.map fun word => Block.mk
        ((labels.get? word.address).map (labelLine (word.address + distance)))
        (instructionLine moved (word.relocate distance))).flatMap Block.lines := by
  have blocks : Block.ofWord moved ∘ CodeWord.relocate distance = fun word => Block.mk
      ((labels.get? word.address).map (labelLine (word.address + distance)))
      (instructionLine moved (word.relocate distance)) := by
    funext word
    have named : moved.get? (word.relocate distance).address = labels.get? word.address :=
      relocates.names word.address
    rw [Function.comp_apply, Block.ofWord, named]
    rfl
  rw [textLines_eq, List.map_map, blocks]

/-- Moving a program moves its labels and keeps their names and numbers. Its listing has labels
before the same words, and what it says about a word changes only in the target that is printed for
a branch. -/
theorem listing_relocated (distance : Address) (symbols : List Elf.Symbol)
    (code : List CodeWord) :
    let labels := Labels.ofProgram symbols code
    let moved :=
      Labels.ofProgram (symbols.map (.relocate distance)) (code.map (.relocate distance))
    (∀ address name, moved.get? address = some name ↔
      ∃ place, place + distance = address ∧ labels.get? place = some name) ∧
    moved.synthetic = labels.synthetic ∧
    textLines labels code =
      ".text" :: (code.map fun word => Block.mk
        ((labels.get? word.address).map (labelLine word.address))
        (instructionLine labels word)).flatMap Block.lines ∧
    textLines moved (code.map (.relocate distance)) =
      ".text" :: (code.map fun word => Block.mk
        ((labels.get? word.address).map (labelLine (word.address + distance)))
        (instructionLine moved (word.relocate distance))).flatMap Block.lines ∧
    (∀ word : CodeWord, (∀ op rs1 rs2 offset, word.instruction ≠ .branch op rs1 rs2 offset) →
      (word.relocate distance).render moved = word.render labels) ∧
    ∀ (word : CodeWord) (op : BranchOp) (rs1 rs2 : Register) (offset : Immediate),
      word.instruction = .branch op rs1 rs2 offset →
        word.render labels = Instruction.branchText op rs1 rs2 (word.address + offset)
          (Instruction.targetSuffix labels (word.address + offset)) ∧
        (word.relocate distance).render moved =
          Instruction.branchText op rs1 rs2 (word.address + offset + distance)
            (Instruction.targetSuffix labels (word.address + offset)) := by
  intro labels moved
  have relocates : labels.Relocates distance moved :=
    Labels.relocates_ofProgram distance symbols code
  refine ⟨relocates.get?_eq_some_iff, relocates.synthetic, textLines_eq labels code,
    textLines_relocate relocates code, ?_, ?_⟩
  · intro word other
    exact CodeWord.render_relocate relocates other
  · intro word op rs1 rs2 offset read
    exact ⟨CodeWord.render_branch read labels, CodeWord.render_relocate_branch relocates read⟩

end Report

end RiscvListing
