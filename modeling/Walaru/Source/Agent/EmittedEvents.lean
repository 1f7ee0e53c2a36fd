import Walaru.Source.Daemon.IngestCapabilities

/-!
# The events that the agent emits

`AgentBridge.emit` in full mode, as the daemon finds its lines in the file. A call of
`Files.readAllBytes` or `Files.readString` is emitted before the bridge reads the file in
its place; the read ends with its input, with the loss of the `io` capability when the file
is too large, or with an exception and no event.
-/
namespace Walaru.Agent

/-- The types of `emit` that have no part in a read. -/
def plainTypes : List String :=
  ["TEST_START", "TEST_FINISH", "METHOD_ENTER", "METHOD_EXIT", "LINE", "CALL", "WRITE", "READ",
    "MONITOR", "INPUT", "CHECKPOINT", "CAPTURE", "NOTE", "SPAN_START", "SPAN_VALUE", "SPAN_END"]

/-- `capabilityMissing`, from a read that is too large or a class that is not transformed. -/
def capabilityMissing (capability : String) (raw : Json) : Bool :=
  kindName raw = "CAPABILITY" && raw.getBool "available" = some false &&
    capabilityName raw = capability

/-- The threads of the reads that were called and have not ended, one for each read, after
the next event; nothing when the agent does not emit it there. -/
def emitNext (pending : List Nat) (raw : Json) : Option (List Nat) :=
  let thread := threadIdOf raw
  if fileReadCall raw then some (thread :: pending)
  else if fileReadInput raw || capabilityMissing "io" raw then
    if thread ∈ pending then some (pending.erase thread) else none
  else if kindName raw ∈ plainTypes ∨ capabilityMissing "instrumentation" raw then some pending
  else none

/-- A stream that agents write, their threads in any order. -/
def AgentStream (raws : List Json) : Prop := (raws.foldlM emitNext []).isSome

end Walaru.Agent
