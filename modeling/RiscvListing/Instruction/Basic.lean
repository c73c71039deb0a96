import RiscvListing.Basic

namespace RiscvListing

structure Register where
  number : BitVec 5
  deriving DecidableEq, Repr

namespace Register

def names : Vector String 32 :=
  #v["zero", "ra", "sp", "gp", "tp", "t0", "t1", "t2",
     "s0", "s1", "a0", "a1", "a2", "a3", "a4", "a5",
     "a6", "a7", "s2", "s3", "s4", "s5", "s6", "s7",
     "s8", "s9", "s10", "s11", "t3", "t4", "t5", "t6"]

def name (register : Register) : String :=
  names.get register.number.toFin

def ofIndex (index : BitVec 32) : Register :=
  ⟨index.setWidth 5⟩

end Register

inductive BranchOp where
  | beq | bne | blt | bge | bltu | bgeu
  deriving DecidableEq, Repr

inductive LoadOp where
  | lb | lh | lw | lbu | lhu
  deriving DecidableEq, Repr

inductive StoreOp where
  | sb | sh | sw
  deriving DecidableEq, Repr

inductive ImmediateOp where
  | addi | slti | sltiu | xori | ori | andi
  deriving DecidableEq, Repr

inductive ShiftOp where
  | slli | srli | srai
  deriving DecidableEq, Repr

inductive RegisterOp where
  | add | sub | sll | slt | sltu | xor | srl | sra | or | and
  | mul | mulh | mulhsu | mulhu | div | divu | rem | remu
  deriving DecidableEq, Repr

/-- An instruction of the base integer set with multiplication, or a word that is none of them. -/
inductive Instruction where
  | lui (rd : Register) (value : Immediate)
  | auipc (rd : Register) (value : Immediate)
  | jal (rd : Register) (offset : Immediate)
  | jalr (rd rs1 : Register) (offset : Immediate)
  | branch (op : BranchOp) (rs1 rs2 : Register) (offset : Immediate)
  | load (op : LoadOp) (rd rs1 : Register) (offset : Immediate)
  | store (op : StoreOp) (rs1 rs2 : Register) (offset : Immediate)
  | immediate (op : ImmediateOp) (rd rs1 : Register) (value : Immediate)
  | shift (op : ShiftOp) (rd rs1 : Register) (amount : Immediate)
  | register (op : RegisterOp) (rd rs1 rs2 : Register)
  | fence
  | ecall
  | ebreak
  | unknown
  deriving DecidableEq, Repr

def BranchOp.mnemonic : BranchOp → String
  | beq => "beq"
  | bne => "bne"
  | blt => "blt"
  | bge => "bge"
  | bltu => "bltu"
  | bgeu => "bgeu"

def LoadOp.mnemonic : LoadOp → String
  | lb => "lb"
  | lh => "lh"
  | lw => "lw"
  | lbu => "lbu"
  | lhu => "lhu"

def StoreOp.mnemonic : StoreOp → String
  | sb => "sb"
  | sh => "sh"
  | sw => "sw"

def ImmediateOp.mnemonic : ImmediateOp → String
  | addi => "addi"
  | slti => "slti"
  | sltiu => "sltiu"
  | xori => "xori"
  | ori => "ori"
  | andi => "andi"

def ShiftOp.mnemonic : ShiftOp → String
  | slli => "slli"
  | srli => "srli"
  | srai => "srai"

def RegisterOp.mnemonic : RegisterOp → String
  | add => "add"
  | sub => "sub"
  | sll => "sll"
  | slt => "slt"
  | sltu => "sltu"
  | xor => "xor"
  | srl => "srl"
  | sra => "sra"
  | or => "or"
  | and => "and"
  | mul => "mul"
  | mulh => "mulh"
  | mulhsu => "mulhsu"
  | mulhu => "mulhu"
  | div => "div"
  | divu => "divu"
  | rem => "rem"
  | remu => "remu"

namespace Instruction

def mnemonic : Instruction → String
  | lui .. => "lui"
  | auipc .. => "auipc"
  | jal .. => "jal"
  | jalr .. => "jalr"
  | branch op .. => op.mnemonic
  | load op .. => op.mnemonic
  | store op .. => op.mnemonic
  | immediate op .. => op.mnemonic
  | shift op .. => op.mnemonic
  | register op .. => op.mnemonic
  | fence => "fence"
  | ecall => "ecall"
  | ebreak => "ebreak"
  | unknown => "unknown_instruction"

/-- Where the instruction goes when it stands at `address`, for the jumps whose target does not
depend on a register. -/
def target? (address : Address) : Instruction → Option Address
  | jal _ offset => some (address + offset)
  | branch _ _ _ offset => some (address + offset)
  | _ => none

end Instruction

end RiscvListing
