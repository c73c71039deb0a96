import RiscvListing.Instruction.Basic
import RiscvListing.Instruction.Field

namespace RiscvListing

def BranchOp.ofFunct3? : BitVec 3 → Option BranchOp
  | 0b000#3 => some beq
  | 0b001#3 => some bne
  | 0b100#3 => some blt
  | 0b101#3 => some bge
  | 0b110#3 => some bltu
  | 0b111#3 => some bgeu
  | _ => none

def LoadOp.ofFunct3? : BitVec 3 → Option LoadOp
  | 0b000#3 => some lb
  | 0b001#3 => some lh
  | 0b010#3 => some lw
  | 0b100#3 => some lbu
  | 0b101#3 => some lhu
  | _ => none

def StoreOp.ofFunct3? : BitVec 3 → Option StoreOp
  | 0b000#3 => some sb
  | 0b001#3 => some sh
  | 0b010#3 => some sw
  | _ => none

def ImmediateOp.ofFunct3? : BitVec 3 → Option ImmediateOp
  | 0b000#3 => some addi
  | 0b010#3 => some slti
  | 0b011#3 => some sltiu
  | 0b100#3 => some xori
  | 0b110#3 => some ori
  | 0b111#3 => some andi
  | _ => none

def ShiftOp.ofFunct? : BitVec 3 → BitVec 7 → Option ShiftOp
  | 0b001#3, 0b0000000#7 => some slli
  | 0b101#3, 0b0000000#7 => some srli
  | 0b101#3, 0b0100000#7 => some srai
  | _, _ => none

def RegisterOp.ofFunct? : BitVec 3 → BitVec 7 → Option RegisterOp
  | 0b000#3, 0b0000000#7 => some add
  | 0b001#3, 0b0000000#7 => some sll
  | 0b010#3, 0b0000000#7 => some slt
  | 0b011#3, 0b0000000#7 => some sltu
  | 0b100#3, 0b0000000#7 => some xor
  | 0b101#3, 0b0000000#7 => some srl
  | 0b110#3, 0b0000000#7 => some or
  | 0b111#3, 0b0000000#7 => some and
  | 0b000#3, 0b0100000#7 => some sub
  | 0b101#3, 0b0100000#7 => some sra
  | 0b000#3, 0b0000001#7 => some mul
  | 0b001#3, 0b0000001#7 => some mulh
  | 0b010#3, 0b0000001#7 => some mulhsu
  | 0b011#3, 0b0000001#7 => some mulhu
  | 0b100#3, 0b0000001#7 => some div
  | 0b101#3, 0b0000001#7 => some divu
  | 0b110#3, 0b0000001#7 => some rem
  | 0b111#3, 0b0000001#7 => some remu
  | _, _ => none

namespace Instruction

/-- The operations with an immediate share an opcode with the constant shifts. -/
def decodeImmediate (word : Word) : Instruction :=
  match ImmediateOp.ofFunct3? word.funct3 with
  | some op => immediate op word.rd word.rs1 word.shortImmediate
  | none =>
    match ShiftOp.ofFunct? word.funct3 word.funct7 with
    | some op => shift op word.rd word.rs1 word.shiftAmount
    | none => unknown

def decodeSystem (word : Word) : Instruction :=
  if word.funct3 = 0#3 ∧ word.rd = ⟨0#5⟩ then
    match word.funct12 with
    | 0#12 => ecall
    | 1#12 => ebreak
    | _ => unknown
  else unknown

def decode (word : Word) : Instruction :=
  match word.opcode with
  | 0b0110111#7 => lui word.rd word.upperImmediate
  | 0b0010111#7 => auipc word.rd word.upperImmediate
  | 0b1101111#7 => jal word.rd word.jumpOffset
  | 0b1100111#7 =>
    if word.funct3 = 0#3 then jalr word.rd word.rs1 word.shortImmediate else unknown
  | 0b1100011#7 =>
    match BranchOp.ofFunct3? word.funct3 with
    | some op => branch op word.rs1 word.rs2 word.branchOffset
    | none => unknown
  | 0b0000011#7 =>
    match LoadOp.ofFunct3? word.funct3 with
    | some op => load op word.rd word.rs1 word.shortImmediate
    | none => unknown
  | 0b0100011#7 =>
    match StoreOp.ofFunct3? word.funct3 with
    | some op => store op word.rs1 word.rs2 word.storeOffset
    | none => unknown
  | 0b0010011#7 => decodeImmediate word
  | 0b0110011#7 =>
    match RegisterOp.ofFunct? word.funct3 word.funct7 with
    | some op => register op word.rd word.rs1 word.rs2
    | none => unknown
  | 0b0001111#7 => fence
  | 0b1110011#7 => decodeSystem word
  | _ => unknown

end Instruction

structure CodeWord where
  address : Address
  word : Word
  deriving DecidableEq, Repr

namespace CodeWord

def instruction (code : CodeWord) : Instruction :=
  .decode code.word

def target? (code : CodeWord) : Option Address :=
  code.instruction.target? code.address

def sequence : Address → List Word → List CodeWord
  | _, [] => []
  | address, word :: words => ⟨address, word⟩ :: sequence (address + 4) words

end CodeWord

end RiscvListing
