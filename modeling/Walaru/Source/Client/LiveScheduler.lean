import Walaru.Lib.Trace
import Walaru.Source.Core.Json

/-!
# The live scheduler of the editor client

`LiveScheduler` in `live.js`. The editor thread runs one entry point, one timer callback or
one continuation of an awaited run at a time, so each of them is one step. Timers may fire
at any time after they are armed and runs may settle in any order. Delays and elapsed times
are left out, and so is `setDelay`, which changes nothing else.

Snapshots are passed on unread, so their type is a parameter. A result is any JSON value;
the callbacks of the scheduler return normally.
-/
namespace Walaru.Client

inductive LiveStatus where
  | idle | paused | queued | running | passed | failed | error
  deriving DecidableEq, Repr

/-- The argument of `onState`. -/
structure LiveState where
  state : LiveStatus
  generation : Nat
  reason : String
  failures : Option Nat
  message : Option String
  deriving DecidableEq, Repr

/-- What a rejection that is neither null nor undefined has under these names. -/
structure LiveError where
  name : Option String
  message : Option String
  deriving DecidableEq, Repr

/-- How an awaited run ends; a rejection with null or undefined carries no error. -/
inductive Completion where
  | resolved (result : Json)
  | rejected (error : Option LiveError)
  deriving DecidableEq

inductive Callback (Snapshot : Type) where
  | run (snapshot : Snapshot) (reason : String)
  | cancelRemote
  | onState (state : LiveState)
  | onResult (result : Json) (reason : String)
  | onError (error : Option LiveError) (reason : String)
  deriving DecidableEq

/-- A callback, the generation it is about, and the scheduler when it was called. -/
structure Call (Snapshot : Type) where
  callback : Callback Snapshot
  generation : Nat
  newest : Nat
  paused : Bool
  disposed : Bool
  deriving DecidableEq

structure Pending (Snapshot : Type) where
  generation : Nat
  snapshot : Snapshot
  reason : String
  deriving DecidableEq, Repr

/-- The run that the next change aborts; controllers are numbered as they are made. -/
structure ActiveRun where
  generation : Nat
  controller : Nat
  deriving DecidableEq, Repr

/-- A call of `start` that waits for its run, with the flag of its controller. -/
structure AwaitedRun where
  generation : Nat
  controller : Nat
  reason : String
  aborted : Bool
  deriving DecidableEq, Repr

structure LiveScheduler (Snapshot : Type) where
  generation : Nat
  /-- The generation of the armed timer. -/
  timer : Option Nat
  active : Option ActiveRun
  pending : Option (Pending Snapshot)
  paused : Bool
  disposed : Bool
  awaited : List AwaitedRun
  controllers : Nat
  /-- Every callback so far. -/
  calls : List (Call Snapshot)
  deriving DecidableEq

variable {Snapshot : Type}

/-- The diagnostics with severity `error`; a value that cannot be filtered, or a null among
the items, throws, with the text of V8. -/
def errorCount (result : Json) : Except LiveError Nat :=
  match result.get "diagnostics" with
  | none | some .null => .ok 0
  | some (.array items) =>
    if .null ∈ items then
      .error ⟨some "TypeError", some "Cannot read properties of null (reading 'severity')"⟩
    else .ok (items.countP fun item => item.getStr "severity" = some "error")
  | some _ =>
    .error ⟨some "TypeError", some "result?.diagnostics?.filter is not a function"⟩

def terminalState (result : Json) : LiveStatus :=
  if result.getStr "status" = some "ok" then .passed
  else if result.getStr "status" = some "failure" then .failed
  else .error

namespace LiveScheduler

def initial : LiveScheduler Snapshot where
  generation := 0
  timer := none
  active := none
  pending := none
  paused := false
  disposed := false
  awaited := []
  controllers := 0
  calls := []

def call (s : LiveScheduler Snapshot) (callback : Callback Snapshot) (generation : Nat) :
    LiveScheduler Snapshot :=
  { s with calls := s.calls ++ [⟨callback, generation, s.generation, s.paused, s.disposed⟩] }

def reportState (s : LiveScheduler Snapshot) (state : LiveStatus) (generation : Nat)
    (reason : String) : LiveScheduler Snapshot :=
  s.call (.onState ⟨state, generation, reason, none, none⟩) generation

/-- Abort the controller of the active run. -/
def abortActive (s : LiveScheduler Snapshot) : LiveScheduler Snapshot :=
  match s.active with
  | none => s
  | some active =>
    { s with awaited := s.awaited.map fun run =>
        if run.controller = active.controller then { run with aborted := true } else run }

/-- Abort the active run here and at the daemon. -/
def abortWork (s : LiveScheduler Snapshot) : LiveScheduler Snapshot :=
  if s.active.isSome then s.abortActive.call .cancelRemote s.generation else s

def schedule (s : LiveScheduler Snapshot) (snapshot : Snapshot) (reason : String) :
    LiveScheduler Snapshot :=
  if s.disposed then s
  else
    let generation := s.generation + 1
    let s := { s with
      generation := generation
      pending := some ⟨generation, snapshot, reason⟩
      timer := none }
    let s := s.abortWork
    if s.paused then s.reportState .paused generation reason
    else { s.reportState .queued generation reason with timer := some generation }

/-- `start` up to its `await`. -/
def start (s : LiveScheduler Snapshot) (generation : Nat) : LiveScheduler Snapshot :=
  match s.pending with
  | none => s
  | some current =>
    if s.disposed ∨ s.paused ∨ generation ≠ s.generation ∨ generation ≠ current.generation then s
    else
      let controller := s.controllers
      let s := { s with active := some ⟨generation, controller⟩, controllers := controller + 1 }
      let s := s.reportState .running generation current.reason
      let s := s.call (.run current.snapshot current.reason) generation
      { s with awaited := s.awaited ++ [⟨generation, controller, current.reason, false⟩] }

def flush (s : LiveScheduler Snapshot) : LiveScheduler Snapshot :=
  match s.pending with
  | none => s
  | some pending =>
    if s.paused ∨ s.disposed then s else { s with timer := none }.start pending.generation

def pause (s : LiveScheduler Snapshot) : LiveScheduler Snapshot :=
  let s := { s with paused := true, timer := none }
  s.abortWork.reportState .paused s.generation "manual"

def resume (s : LiveScheduler Snapshot) : LiveScheduler Snapshot :=
  if s.paused then
    let s := { s with paused := false }
    match s.pending with
    | some pending => s.schedule pending.snapshot "resume"
    | none => s.reportState .idle s.generation "resume"
  else s

def dispose (s : LiveScheduler Snapshot) : LiveScheduler Snapshot :=
  { s with disposed := true, timer := none }.abortActive

/-- The `catch` of `start`. The message of null or undefined cannot be read, so that its
state is not reported. -/
def caught (s : LiveScheduler Snapshot) (run : AwaitedRun) (error : Option LiveError) :
    LiveScheduler Snapshot :=
  if run.generation ≠ s.generation ∨ run.aborted ∨ error.bind LiveError.name = some "AbortError" then
    s
  else
    let s := { s with pending := none }
    let s := s.call (.onError error run.reason) run.generation
    match error with
    | none => s
    | some error =>
      s.call (.onState ⟨.error, run.generation, run.reason, none, error.message⟩) run.generation

/-- The `try` of `start` after its `await`. -/
def complete (s : LiveScheduler Snapshot) (run : AwaitedRun) : Completion → LiveScheduler Snapshot
  | .rejected error => s.caught run error
  | .resolved result =>
    if run.generation ≠ s.generation ∨ run.aborted ∨ s.disposed then s
    else
      let s := { s with pending := none }
      let s := s.call (.onResult result run.reason) run.generation
      match errorCount result with
      | .error error => s.caught run (some error)
      | .ok failures =>
        s.call (.onState ⟨terminalState result, run.generation, run.reason, some failures, none⟩)
          run.generation

/-- The `finally` of `start`. -/
def release (s : LiveScheduler Snapshot) (generation : Nat) : LiveScheduler Snapshot :=
  if s.active.any fun active => active.generation = generation then { s with active := none } else s

/-- The rest of the call of `start` that waits for this run. -/
def settle (s : LiveScheduler Snapshot) (run : AwaitedRun) (completion : Completion) :
    LiveScheduler Snapshot :=
  (({ s with awaited := s.awaited.erase run }).complete run completion).release run.generation

end LiveScheduler

inductive LiveEvent (Snapshot : Type) where
  | schedule (snapshot : Snapshot) (reason : String)
  | flush
  | pause
  | resume
  | dispose
  | timer
  | settled (controller : Nat) (completion : Completion)
  deriving DecidableEq

open LiveScheduler in
/-- The timer fires when it is armed, and a run settles when it is awaited. -/
def LiveScheduler.step (s : LiveScheduler Snapshot) :
    LiveEvent Snapshot → Option (LiveScheduler Snapshot)
  | .schedule snapshot reason => some (s.schedule snapshot reason)
  | .flush => some s.flush
  | .pause => some s.pause
  | .resume => some s.resume
  | .dispose => some s.dispose
  | .timer => s.timer.map fun generation => { s with timer := none }.start generation
  | .settled controller completion =>
    (s.awaited.find? fun run => run.controller = controller).map fun run => s.settle run completion

end Walaru.Client
