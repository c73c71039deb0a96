import RiscvListing.Basic

namespace RiscvListing

structure Config where
  maxFileSize : UInt64
  /-- Whether every section must be present. -/
  strict : Bool
  emitSymtab : Bool
  deriving DecidableEq

/-- Files of up to 64 MiB, all sections required, and the symbol table listed. -/
def Config.standard : Config :=
  ⟨67108864, true, true⟩

namespace Config

def flagText (flag : Bool) : String :=
  if flag then "true" else "false"

def toText (config : Config) : String :=
  "\x7b\"io\":\x7b\"max_file_size\":" ++ Text.decimal config.maxFileSize.toNat ++
    "\x7d,\"sections\":\x7b\"strict\":" ++ flagText config.strict ++
    "\x7d,\"output\":\x7b\"emit_symtab\":" ++ flagText config.emitSymtab ++ "\x7d\x7d"

end Config

end RiscvListing
