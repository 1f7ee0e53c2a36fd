import Walaru.Source.Core.SourceSurface
import Walaru.Source.Core.StorePages
import Walaru.Source.Daemon.Events

/-!
# Reverse execution

`replay.rs`: the backward search of the JVM backend, the navigation plan of the Linux
process backend, and what an event has to be to stop them.
-/
namespace Walaru
open Lib.Text

inductive StepKind where
  | line | call | write
  deriving DecidableEq, Repr

/-- The event category at which a step stops. -/
def StepKind.boundary : StepKind → EventKind
  | line => .line
  | call => .call
  | write => .write

structure SourceTarget where
  path : String
  line : Nat
  deriving DecidableEq, Repr

structure ReverseRequest where
  fromEventId : String
  step : Option StepKind
  untilTarget : Option SourceTarget
  watch : Option String
  deriving DecidableEq, Repr

structure ReverseOutcome where
  backend : String
  event : Event
  verified : Bool
  deriving DecidableEq, Repr

/-- `Value::as_i64`: the integer, when the machine type holds it. -/
def asI64 : Json → Option Int
  | .number (.posInt value) => if value < 2 ^ 63 then some value else none
  | .number (.negInt value) => if -2 ^ 63 ≤ value ∧ value < 2 ^ 63 then some value else none
  | _ => none

/-- `trim_start_matches("./")`. -/
def trimStartDots : List Char → List Char
  | '.' :: '/' :: rest => trimStartDots rest
  | chars => chars

def normalizePath (path : String) : String :=
  String.ofList (trimStartDots (replaceChar '\\' '/' path).toList)

/-- The index of an `array[index]` watch. -/
def watchedIndex (watch : String) : Option Int :=
  (stripPrefix "array[" watch).bind fun rest => (stripSuffix "]" rest).bind parseI64

def validWatchpoint (watch : String) : Bool :=
  ((splitOnce '#' watch).any fun (owner, field) => trim owner ≠ "" && trim field ≠ "") ||
    (watchedIndex watch).isSome

def matchesWatchpoint (values : Json) (watch : String) : Bool :=
  match watchedIndex watch with
  | some index =>
    values.getStr "targetKind" = some "array" && (values.get "index").bind asI64 = some index
  | none =>
    match splitOnce '#' watch with
    | none => false
    | some (owner, field) =>
      values.getStr "targetKind" = some "field" &&
        ((values.getStr "targetOwner").any fun actual =>
          replaceChar '.' '/' actual = replaceChar '.' '/' (trim owner)) &&
        values.getStr "field" = some (trim field)

def matchesRequest (event : Event) (request : ReverseRequest) : Bool :=
  match request.step with
  | some step =>
    event.kind = step.boundary && request.watch.all fun watch => matchesWatchpoint event.values watch
  | none =>
    request.untilTarget.any fun target => event.location.any fun location =>
      normalizePath location.path = normalizePath target.path && location.line = target.line

/-- The check of a request's form. -/
def requestForm (request : ReverseRequest) : Except ReplayError Unit := do
  if request.step.isSome = request.untilTarget.isSome then throw .invalidRequest
  if request.watch.isSome ∧ ¬ (request.step = some .write ∧ request.watch.any validWatchpoint) then
    throw .invalidRequest

/-- The last event before the start that matches. -/
def previousEvent (recording : Recording) (request : ReverseRequest) : Except ReplayError Event :=
  match recording.events.findIdx? fun event => event.id = request.fromEventId with
  | none => throw (.unknownEvent request.fromEventId)
  | some start =>
    match (recording.events.take start).reverse.find? fun event => matchesRequest event request with
    | none => throw (.noPreviousEvent request.fromEventId)
    | some event => return event

/-- `JvmReplayBackend::reverse`. -/
def reverse (recording : Recording) (request : ReverseRequest) : Except ReplayError ReverseOutcome := do
  validateRecording recording
  requestForm request
  let event ← previousEvent recording request
  return ⟨"jvm", event, false⟩

structure LinuxReplayPlan where
  executable : String
  argv : List String
  event : Event
  verified : Bool
  deriving DecidableEq, Repr

structure LinuxProcessReplayBackend where
  rrExecutable : Option String

def LinuxProcessReplayBackend.planReverse (backend : LinuxProcessReplayBackend)
    (recording : Recording) (request : ReverseRequest) : Except ReplayError LinuxReplayPlan := do
  match backend.rrExecutable with
  | none => throw (.unsupportedCapability "rr" "rr executable was not detected")
  | some executable =>
    requestForm request
    let event ← previousEvent recording request
    match recording.linuxProcess with
    | none => throw (.unsupportedCapability "rrTrace" "recording does not reference an rr trace")
    | some artifact =>
      if trim artifact.traceDirectory = "" then
        throw (.unsupportedCapability "rrTrace" "rr trace directory is empty")
      match (artifact.eventIndex.get? event.id).filter fun value => 0 < value with
      | none =>
        throw (.unsupportedCapability "crossIndex"
          ("Walaru event `" ++ event.id ++ "` has no rr event mapping"))
      | some nativeEvent =>
        return ⟨executable, ["replay", "-g", toString nativeEvent, artifact.traceDirectory], event,
          false⟩

end Walaru
