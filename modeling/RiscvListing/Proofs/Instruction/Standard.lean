import RiscvListing.Instruction.Decode

namespace RiscvListing.Standard

def rd (word : Word) : Register :=
  ⟨word.extractLsb 11 7⟩

def rs1 (word : Word) : Register :=
  ⟨word.extractLsb 19 15⟩

def rs2 (word : Word) : Register :=
  ⟨word.extractLsb 24 20⟩

def sign (count : Nat) (word : Word) : BitVec (1 * count) :=
  (word.extractLsb 31 31).replicate count

def iImmediate (word : Word) : Immediate :=
  sign 21 word ++ word.extractLsb 30 25 ++ word.extractLsb 24 21 ++ word.extractLsb 20 20

def sImmediate (word : Word) : Immediate :=
  sign 21 word ++ word.extractLsb 30 25 ++ word.extractLsb 11 8 ++ word.extractLsb 7 7

def bImmediate (word : Word) : Immediate :=
  sign 20 word ++ word.extractLsb 7 7 ++ word.extractLsb 30 25 ++ word.extractLsb 11 8 ++ 0#1

def uImmediate (word : Word) : Immediate :=
  0#12 ++ word.extractLsb 31 12

def jImmediate (word : Word) : Immediate :=
  sign 12 word ++ word.extractLsb 19 12 ++ word.extractLsb 20 20 ++ word.extractLsb 30 25 ++
    word.extractLsb 24 21 ++ 0#1

def shiftAmount (word : Word) : Immediate :=
  0#27 ++ word.extractLsb 24 20

/-- The bits of a word that a row of the listing fixes. -/
inductive Pattern where
  | opcode (opcode : BitVec 7)
  | funct3 (funct3 : BitVec 3) (opcode : BitVec 7)
  | funct7 (funct7 : BitVec 7) (funct3 : BitVec 3) (opcode : BitVec 7)
  | whole (word : Word)

def Pattern.covers : Pattern → Word → Bool
  | opcode op, word => word.extractLsb 6 0 == op
  | funct3 minor op, word => word.extractLsb 6 0 == op && word.extractLsb 14 12 == minor
  | funct7 top minor op, word =>
    word.extractLsb 6 0 == op && word.extractLsb 14 12 == minor && word.extractLsb 31 25 == top
  | whole fixed, word => word == fixed

structure Row where
  pattern : Pattern
  form : Word → Instruction

def Row.decode? (word : Word) (row : Row) : Option Instruction :=
  if row.pattern.covers word then some (row.form word) else none

def family {α : Type} (opcode : BitVec 7) (form : α → Word → Instruction)
    (operations : List (BitVec 3 × α)) : List Row :=
  operations.map fun (minor, op) => ⟨.funct3 minor opcode, form op⟩

def wideFamily {α : Type} (opcode : BitVec 7) (form : α → Word → Instruction)
    (operations : List ((BitVec 7 × BitVec 3) × α)) : List Row :=
  operations.map fun ((top, minor), op) => ⟨.funct7 top minor opcode, form op⟩

def branches : List (BitVec 3 × BranchOp) :=
  [(0b000, .beq), (0b001, .bne), (0b100, .blt), (0b101, .bge), (0b110, .bltu), (0b111, .bgeu)]

def loads : List (BitVec 3 × LoadOp) :=
  [(0b000, .lb), (0b001, .lh), (0b010, .lw), (0b100, .lbu), (0b101, .lhu)]

def stores : List (BitVec 3 × StoreOp) :=
  [(0b000, .sb), (0b001, .sh), (0b010, .sw)]

def immediates : List (BitVec 3 × ImmediateOp) :=
  [(0b000, .addi), (0b010, .slti), (0b011, .sltiu), (0b100, .xori), (0b110, .ori), (0b111, .andi)]

def shifts : List ((BitVec 7 × BitVec 3) × ShiftOp) :=
  [((0b0000000, 0b001), .slli), ((0b0000000, 0b101), .srli), ((0b0100000, 0b101), .srai)]

def registers : List ((BitVec 7 × BitVec 3) × RegisterOp) :=
  [((0b0000000, 0b000), .add), ((0b0100000, 0b000), .sub), ((0b0000000, 0b001), .sll),
   ((0b0000000, 0b010), .slt), ((0b0000000, 0b011), .sltu), ((0b0000000, 0b100), .xor),
   ((0b0000000, 0b101), .srl), ((0b0100000, 0b101), .sra), ((0b0000000, 0b110), .or),
   ((0b0000000, 0b111), .and), ((0b0000001, 0b000), .mul), ((0b0000001, 0b001), .mulh),
   ((0b0000001, 0b010), .mulhsu), ((0b0000001, 0b011), .mulhu), ((0b0000001, 0b100), .div),
   ((0b0000001, 0b101), .divu), ((0b0000001, 0b110), .rem), ((0b0000001, 0b111), .remu)]

def listing : List Row :=
  [⟨.opcode 0b0110111#7, fun word => .lui (rd word) (uImmediate word)⟩,
   ⟨.opcode 0b0010111#7, fun word => .auipc (rd word) (uImmediate word)⟩,
   ⟨.opcode 0b1101111#7, fun word => .jal (rd word) (jImmediate word)⟩,
   ⟨.funct3 0b000#3 0b1100111#7, fun word => .jalr (rd word) (rs1 word) (iImmediate word)⟩,
   ⟨.funct3 0b000#3 0b0001111#7, fun _ => .fence⟩,
   ⟨.whole 0x00000073, fun _ => .ecall⟩,
   ⟨.whole 0x00100073, fun _ => .ebreak⟩] ++
  family 0b1100011#7 (fun op word => .branch op (rs1 word) (rs2 word) (bImmediate word))
    branches ++
  family 0b0000011#7 (fun op word => .load op (rd word) (rs1 word) (iImmediate word)) loads ++
  family 0b0100011#7 (fun op word => .store op (rs1 word) (rs2 word) (sImmediate word)) stores ++
  family 0b0010011#7 (fun op word => .immediate op (rd word) (rs1 word) (iImmediate word))
    immediates ++
  wideFamily 0b0010011#7 (fun op word => .shift op (rd word) (rs1 word) (shiftAmount word))
    shifts ++
  wideFamily 0b0110011#7 (fun op word => .register op (rd word) (rs1 word) (rs2 word)) registers

/-- The instruction that a word stands for in the instruction set. -/
def decode (word : Word) : Instruction :=
  (listing.findSome? (Row.decode? word)).getD .unknown

theorem decode?_opcode {word : Word} {opcode : BitVec 7} (form : Word → Instruction)
    (same : word.opcode = opcode) : Row.decode? word ⟨.opcode opcode, form⟩ = some (form word) := by
  subst opcode
  simp [Row.decode?, Pattern.covers, Word.opcode, BitVec.extractLsb]

theorem decode?_funct3 {word : Word} {opcode : BitVec 7} (minor : BitVec 3)
    (form : Word → Instruction) (same : word.opcode = opcode) :
    Row.decode? word ⟨.funct3 minor opcode, form⟩ =
      if word.funct3 == minor then some (form word) else none := by
  subst opcode
  simp [Row.decode?, Pattern.covers, Word.opcode, Word.funct3, BitVec.extractLsb]

theorem decode?_funct7 {word : Word} {opcode : BitVec 7} (top : BitVec 7) (minor : BitVec 3)
    (form : Word → Instruction) (same : word.opcode = opcode) :
    Row.decode? word ⟨.funct7 top minor opcode, form⟩ =
      if (word.funct7, word.funct3) == (top, minor) then some (form word) else none := by
  subst opcode
  simp [Row.decode?, Pattern.covers, Word.opcode, Word.funct3, Word.funct7, BitVec.extractLsb,
    and_comm]

theorem decode?_whole (word fixed : Word) (form : Word → Instruction) :
    Row.decode? word ⟨.whole fixed, form⟩ = if word = fixed then some (form word) else none := by
  simp [Row.decode?, Pattern.covers]

theorem findSome?_family {α : Type} {word : Word} {opcode : BitVec 7}
    (form : α → Word → Instruction) (operations : List (BitVec 3 × α))
    (same : word.opcode = opcode) :
    (family opcode form operations).findSome? (Row.decode? word) =
      (operations.lookup word.funct3).map fun op => form op word := by
  induction operations with
  | nil => rfl
  | cons operation operations ih =>
    obtain ⟨minor, op⟩ := operation
    rw [family, List.map_cons, List.findSome?_cons, List.lookup_cons, decode?_funct3 minor _ same]
    cases word.funct3 == minor
    · exact ih
    · rfl

theorem findSome?_wideFamily {α : Type} {word : Word} {opcode : BitVec 7}
    (form : α → Word → Instruction) (operations : List ((BitVec 7 × BitVec 3) × α))
    (same : word.opcode = opcode) :
    (wideFamily opcode form operations).findSome? (Row.decode? word) =
      (operations.lookup (word.funct7, word.funct3)).map fun op => form op word := by
  induction operations with
  | nil => rfl
  | cons operation operations ih =>
    obtain ⟨⟨top, minor⟩, op⟩ := operation
    rw [wideFamily, List.map_cons, List.findSome?_cons, List.lookup_cons,
      decode?_funct7 top minor _ same]
    cases (word.funct7, word.funct3) == (top, minor)
    · exact ih
    · rfl

def Pattern.major : Pattern → BitVec 7
  | opcode op => op
  | funct3 _ op => op
  | funct7 _ _ op => op
  | whole fixed => Word.opcode fixed

theorem decode?_of_major_ne {word : Word} {row : Row} (other : row.pattern.major ≠ word.opcode) :
    row.decode? word = none := by
  apply if_neg
  intro covered
  apply other
  obtain ⟨pattern, form⟩ := row
  cases pattern with
  | opcode op => exact (beq_iff_eq.mp covered).symm
  | funct3 minor op =>
    simp only [Pattern.covers, Bool.and_eq_true] at covered
    exact (beq_iff_eq.mp covered.1).symm
  | funct7 top minor op =>
    simp only [Pattern.covers, Bool.and_eq_true] at covered
    exact (beq_iff_eq.mp covered.1.1).symm
  | whole fixed => rw [beq_iff_eq.mp covered]; rfl

def rowsOf (opcode : BitVec 7) : List Row :=
  listing.filter fun row => row.pattern.major == opcode

theorem findSome?_filter_major (word : Word) (rows : List Row) :
    (rows.filter fun row => row.pattern.major == word.opcode).findSome? (Row.decode? word) =
      rows.findSome? (Row.decode? word) := by
  induction rows with
  | nil => rfl
  | cons row rows ih =>
    by_cases same : row.pattern.major = word.opcode
    · rw [List.filter_cons_of_pos (by simpa using same), List.findSome?_cons, List.findSome?_cons,
        ih]
    · rw [List.filter_cons_of_neg (by simpa using same), List.findSome?_cons,
        decode?_of_major_ne same, ih]

theorem decode_of_opcode {word : Word} {opcode : BitVec 7} (same : word.opcode = opcode) :
    decode word = ((rowsOf opcode).findSome? (Row.decode? word)).getD .unknown := by
  rw [decode, ← findSome?_filter_major word listing, same, rowsOf]

theorem decode_of_opcode_row {word : Word} {opcode : BitVec 7} {form : Word → Instruction}
    (same : word.opcode = opcode) (rows : rowsOf opcode = [⟨.opcode opcode, form⟩]) :
    decode word = form word := by
  rw [decode_of_opcode same, rows, List.findSome?_cons, decode?_opcode form same]
  rfl

theorem decode_of_funct3_row {word : Word} {opcode : BitVec 7} {minor : BitVec 3}
    {form : Word → Instruction} (same : word.opcode = opcode)
    (rows : rowsOf opcode = [⟨.funct3 minor opcode, form⟩]) :
    decode word = if word.funct3 = minor then form word else .unknown := by
  rw [decode_of_opcode same, rows, List.findSome?_cons, decode?_funct3 minor form same]
  by_cases covered : word.funct3 = minor
  · simp only [covered, beq_self_eq_true, if_true, Option.getD_some]
  · simp only [covered, beq_iff_eq, if_false, List.findSome?_nil, Option.getD_none]

theorem decode_of_family {α : Type} {word : Word} {opcode : BitVec 7}
    {form : α → Word → Instruction} {operations : List (BitVec 3 × α)}
    (same : word.opcode = opcode) (rows : rowsOf opcode = family opcode form operations) :
    decode word =
      ((operations.lookup word.funct3).map fun op => form op word).getD .unknown := by
  rw [decode_of_opcode same, rows, findSome?_family form operations same]

theorem lookup_branches : ∀ minor, branches.lookup minor = BranchOp.ofFunct3? minor := by
  decide

theorem lookup_loads : ∀ minor, loads.lookup minor = LoadOp.ofFunct3? minor := by
  decide

theorem lookup_stores : ∀ minor, stores.lookup minor = StoreOp.ofFunct3? minor := by
  decide

theorem lookup_immediates :
    ∀ minor, immediates.lookup minor = ImmediateOp.ofFunct3? minor := by
  decide

theorem lookup_eq_none_of_top_ne {α : Type} {operations : List ((BitVec 7 × BitVec 3) × α)}
    {top : BitVec 7} (other : ∀ operation ∈ operations, top ≠ operation.1.1) (minor : BitVec 3) :
    operations.lookup (top, minor) = none := by
  rw [List.lookup_eq_none_iff]
  intro operation member
  rw [bne_iff_ne]
  intro same
  exact other operation member (congrArg Prod.fst same)

theorem lookup_shifts (top : BitVec 7) (minor : BitVec 3) :
    shifts.lookup (top, minor) = ShiftOp.ofFunct? minor top := by
  by_cases logical : top = 0b0000000#7
  · subst top
    revert minor
    decide
  by_cases arithmetic : top = 0b0100000#7
  · subst top
    revert minor
    decide
  · have none : ShiftOp.ofFunct? minor top = none := by
      unfold ShiftOp.ofFunct?
      split <;> first | rfl | contradiction
    rw [none]
    apply lookup_eq_none_of_top_ne
    simp [shifts, logical, arithmetic]

theorem lookup_registers (top : BitVec 7) (minor : BitVec 3) :
    registers.lookup (top, minor) = RegisterOp.ofFunct? minor top := by
  by_cases base : top = 0b0000000#7
  · subst top
    revert minor
    decide
  by_cases alternate : top = 0b0100000#7
  · subst top
    revert minor
    decide
  by_cases product : top = 0b0000001#7
  · subst top
    revert minor
    decide
  · have none : RegisterOp.ofFunct? minor top = none := by
      unfold RegisterOp.ofFunct?
      split <;> first | rfl | contradiction
    rw [none]
    apply lookup_eq_none_of_top_ne
    simp [registers, base, alternate, product]

end RiscvListing.Standard
