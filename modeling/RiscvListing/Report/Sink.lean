import RiscvListing.Report.Basic

namespace RiscvListing

structure Sink where
  capacity : Nat
  taken : Bytes

namespace Sink

def ofCapacity (capacity : Nat) : Sink :=
  ⟨capacity, #[]⟩

def room (sink : Sink) : Nat :=
  sink.capacity - sink.taken.size

def write (sink : Sink) (bytes : Bytes) : Sink :=
  { sink with taken := sink.taken ++ bytes.extract 0 sink.room }

/-- Writes the pieces one after another. Fails at the first piece that does not fit whole. -/
def writeAll (sink : Sink) : List Bytes → Sink × Bool
  | [] => (sink, true)
  | bytes :: rest =>
    if bytes.size ≤ sink.room then (sink.write bytes).writeAll rest
    else (sink.write bytes, false)

end Sink

/-- Writes each line and its end. Tells whether everything was taken. -/
def Report.writeTo (report : Report) (sink : Sink) : Sink × Bool :=
  sink.writeAll (report.lines.flatMap fun line => [utf8 line, utf8 "\n"])

end RiscvListing
