import RiscvListing.Disk.Basic
import RiscvListing.Elf.Error
import RiscvListing.Config.Reader

namespace RiscvListing

def Json.Fault.message : Json.Fault → String
  | unfinished => "the text ends inside a value"
  | malformed => "the text is not a value"
  | mismatch => "a value does not fit its place"

inductive Failure where
  | object (error : Elf.Error)
  | input (error : InputError)
  | config (error : Config.Error)
  deriving DecidableEq, Repr

namespace Failure

def message : Failure → String
  | object error => "Invalid ELF image: " ++ error.message
  | input error => "Input error: " ++ error.message
  | config (.file fault) => "I/O error: " ++ fault.message
  | config (.text fault) => "Invalid configuration: " ++ fault.message

def isNotElf (failure : Failure) : Bool :=
  failure = object .invalidMagic

end Failure

end RiscvListing
