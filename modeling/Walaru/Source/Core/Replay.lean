import Walaru.Source.Core.Protocol

/-!
# Events, recordings and the comparison with a fresh run

`replay.rs`: the trace event shared by both replay backends, the recording blob,
and the check that a fresh execution reproduces a recording up to a target event.
-/
namespace Walaru

/-- Events that can act as reverse-step boundaries. -/
inductive EventKind where
  | testStart | line | call | write | read | monitor | testFinish | output | input
  | checkpoint | capture | note | spanStart | spanValue | spanEnd
  deriving DecidableEq, Repr

structure SourceLocation where
  path : String
  line : Nat
  column : Nat
  symbol : String
  deriving DecidableEq, Repr

/-- One bounded Kotlin/Java logical stack frame. -/
structure LogicalFrame where
  className : String
  method : String
  path : String
  line : Nat
  deriving DecidableEq, Repr

structure Event where
  id : String
  sequence : Nat
  threadId : Nat
  /-- Logical thread name, stable across fresh JVMs. -/
  threadKey : String
  virtualThread : Bool
  coroutine : Bool
  logicalStack : List LogicalFrame
  kind : EventKind
  location : Option SourceLocation
  values : Json
  /-- Measurements shown to users and excluded from replay equality. -/
  observations : Json
  stateHash : String
  outputIndex : Nat
  deriving DecidableEq, Repr

/-- One private deterministic-input tape entry. -/
structure RecordedInput where
  kind : String
  encoded : String
  sensitive : Bool
  deriving DecidableEq, Repr

structure ReplayCheckpoint where
  sequence : Nat
  eventId : String
  stateHash : String
  outputIndex : Nat
  deriving DecidableEq, Repr

structure LinuxProcessReplayArtifact where
  traceDirectory : String
  eventIndex : BTreeMap String Nat
  deriving DecidableEq

/-- A revision-bound execution recording. -/
structure Recording where
  id : String
  revision : String
  testId : String
  backend : String
  capabilities : CapabilityManifest
  inputs : List RecordedInput
  linuxProcess : Option LinuxProcessReplayArtifact
  events : List Event
  checkpoints : List ReplayCheckpoint
  deriving DecidableEq

inductive ReplayError where
  | unsupportedCapability (capability reason : String)
  | unknownEvent (id : String)
  | noPreviousEvent (id : String)
  | invalidRequest
  | diverged (sequence : Nat) (reason : String)
  deriving DecidableEq, Repr

/-- The checkpoint loop of `validate_recording`; `previous` is the sequence of
the checkpoint before. -/
def validateCheckpoints (events : List Event) :
    Option Nat → List ReplayCheckpoint → Except ReplayError Unit
  | _, [] => .ok ()
  | previous, checkpoint :: rest =>
    if previous.any fun p => p ≥ checkpoint.sequence then
      .error (.diverged checkpoint.sequence "recording checkpoints are not strictly ordered")
    else
      match events.find? fun event =>
        event.sequence = checkpoint.sequence && event.id = checkpoint.eventId with
      | none =>
        .error (.diverged checkpoint.sequence "recording checkpoint does not reference an event")
      | some event =>
        if event.stateHash ≠ checkpoint.stateHash ∨ event.outputIndex ≠ checkpoint.outputIndex then
          .error (.diverged checkpoint.sequence "recording checkpoint state is inconsistent")
        else validateCheckpoints events (some checkpoint.sequence) rest

def validateRecording (recording : Recording) : Except ReplayError Unit := do
  validateCheckpoints recording.events none recording.checkpoints
  let supported := recording.capabilities.supported
  if recording.capabilities.completeness ≠ .complete then
    match recording.capabilities.unavailable.minEntry? with
    | none => throw (.unsupportedCapability "completeness" "recording is marked partial")
    | some (capability, reason) => throw (.unsupportedCapability capability reason)
  else if "pureJvm" ∉ supported then
    throw (.unsupportedCapability "pureJvm" "recording does not declare `pureJvm`")
  else if "singleThread" ∉ supported ∧ "threadSchedule" ∉ supported then
    throw (.unsupportedCapability "threads"
      "recording declares neither single-thread execution nor a replay schedule")
  else pure ()

/-- The first compared field in which a fresh event differs. -/
def divergence (original fresh : Event) : Option String :=
  if original.kind ≠ fresh.kind then some "event kind changed"
  else if original.location ≠ fresh.location then some "source location changed"
  else if original.threadKey ≠ fresh.threadKey ∨ original.virtualThread ≠ fresh.virtualThread then
    some "logical thread changed"
  else if original.coroutine ≠ fresh.coroutine ∨ original.logicalStack ≠ fresh.logicalStack then
    some "coroutine logical stack changed"
  else if original.values ≠ fresh.values then some "captured runtime values changed"
  else if original.stateHash ≠ fresh.stateHash then some "state hash changed"
  else if original.outputIndex ≠ fresh.outputIndex then some "output position changed"
  else none

/-- Compare the originals with the replayed events at the same index. -/
def comparePrefix : List Event → List Event → Except ReplayError Unit
  | [], _ => .ok ()
  | original :: _, [] =>
    .error (.diverged original.sequence "fresh execution ended before the target event")
  | original :: originals, fresh :: replayed =>
    match divergence original fresh with
    | some reason => .error (.diverged original.sequence reason)
    | none => comparePrefix originals replayed

/-- A fresh execution matches every observable event through the target. -/
def verifyReplayedPrefix (recording : Recording) (replayed : List Event) (targetEventId : String) :
    Except ReplayError Unit := do
  validateRecording recording
  match recording.events.findIdx? fun event => event.id = targetEventId with
  | none => throw (.unknownEvent targetEventId)
  | some target => comparePrefix (recording.events.take (target + 1)) replayed

end Walaru
