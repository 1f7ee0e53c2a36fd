import Mathlib.Logic.Function.Basic
import Walaru.Source.Agent.TestContexts

/-!
# Contexts carried between threads

`WalaruContext` of the public API over `AgentBridge.apiCaptureContext`, `apiContextActive`
and `apiSwapContext`, on any number of threads. Contexts are shared and named as in
`TestContexts`; the current one is inherited by a thread that is created. A swap looks at
contexts in one step and sets the slot of its thread in the next, and other threads take any
steps in between. Whether there are events does not change.
-/
namespace Walaru.Agent

/-- What `WalaruContext.wrap` returns: a task that swaps in the token, or the action itself. -/
structure ContextTask where
  token : Option Nat
  swaps : Bool
  deriving DecidableEq, Repr

/-- A task that runs, with the current test of its thread before it. -/
structure ContextFrame where
  task : ContextTask
  previous : Option Nat
  deriving DecidableEq, Repr

structure ContextRun where
  /-- There is an event writer. -/
  events : Bool
  contexts : List TestContext
  activeTests : BTreeMap String Nat
  threads : List Nat
  /-- `CURRENT_TEST.get()` of a thread. -/
  slot : Nat → Option Nat
  /-- The tasks that run on a thread, the innermost first. -/
  frames : Nat → List ContextFrame
  /-- What a swap that has begun will set. -/
  pending : Nat → Option (Option Nat)
  /-- The tokens of the contexts so far. -/
  captured : List (Option Nat)
  tasks : List ContextTask

inductive ContextCall where
  | testStarted (uniqueId : String)
  | testFinished (uniqueId : String)
  /-- A thread is created. -/
  | fork (child : Nat)
  | capture
  | wrap (token : Option Nat)
  | enter (task : ContextTask)
  /-- The action of the innermost task ends, normally or by an exception. -/
  | leave (threw : Bool)
  /-- A swap sets the slot. -/
  | install
  deriving DecidableEq, Repr

namespace ContextRun

def initial (events : Bool) : ContextRun where
  events := events
  contexts := []
  activeTests := ∅
  threads := [0]
  slot := fun _ => none
  frames := fun _ => []
  pending := fun _ => none
  captured := []
  tasks := []

/-- The agent as one thread has it. -/
def view (s : ContextRun) (thread : Nat) : TestContexts :=
  ⟨s.contexts, s.activeTests, s.slot thread, false⟩

def active (s : ContextRun) (context : Nat) : Bool := (s.contexts[context]?).any TestContext.active

def currentTest (s : ContextRun) (thread : Nat) : Option Nat := (s.view thread).currentTest

/-- `WalaruContext.capture`; the token of `EMPTY` is null. -/
def capture (s : ContextRun) (thread : Nat) : Option Nat :=
  if s.events then s.currentTest thread else none

/-- `WalaruContext.present`. -/
def present (s : ContextRun) (token : Option Nat) : Bool := s.events && token.any s.active

/-- What `apiSwapContext` sets. -/
def swapped (s : ContextRun) (replacement : Option Nat) : Option Nat :=
  if s.events && replacement.any s.active then replacement else none

/-- No task runs on the thread, and no swap. -/
def Idle (s : ContextRun) (thread : Nat) : Prop := s.frames thread = [] ∧ s.pending thread = none

instance (s : ContextRun) (thread : Nat) : Decidable (s.Idle thread) :=
  inferInstanceAs (Decidable (_ ∧ _))

def withView (s : ContextRun) (thread : Nat) (agent : TestContexts) : ContextRun :=
  { s with
    contexts := agent.contexts
    activeTests := agent.activeTests
    slot := Function.update s.slot thread agent.local_ }

def step (s : ContextRun) : Nat × ContextCall → Option ContextRun
  | (thread, .testStarted uniqueId) =>
    if thread ∈ s.threads ∧ s.Idle thread then
      some (s.withView thread ((s.view thread).testStarted uniqueId))
    else none
  | (thread, .testFinished uniqueId) =>
    if thread ∈ s.threads ∧ s.Idle thread then
      some (s.withView thread ((s.view thread).testFinished uniqueId))
    else none
  | (thread, .fork child) =>
    if thread ∈ s.threads ∧ s.pending thread = none ∧ child ∉ s.threads then
      some { s with
        threads := child :: s.threads
        slot := Function.update s.slot child (s.slot thread) }
    else none
  | (thread, .capture) =>
    if thread ∈ s.threads ∧ s.pending thread = none then
      some { s with captured := s.capture thread :: s.captured }
    else none
  | (thread, .wrap token) =>
    if thread ∈ s.threads ∧ s.pending thread = none ∧ token ∈ s.captured then
      some { s with tasks := ⟨token, s.present token⟩ :: s.tasks }
    else none
  | (thread, .enter task) =>
    if thread ∈ s.threads ∧ s.pending thread = none ∧ task ∈ s.tasks then
      some { s with
        frames := Function.update s.frames thread (⟨task, s.currentTest thread⟩ :: s.frames thread)
        pending := Function.update s.pending thread
          (if task.swaps then some (s.swapped task.token) else none) }
    else none
  | (thread, .leave _) =>
    if s.pending thread = none then
      match s.frames thread with
      | [] => none
      | frame :: rest =>
        some { s with
          frames := Function.update s.frames thread rest
          pending := Function.update s.pending thread
            (if frame.task.swaps then some (s.swapped frame.previous) else none) }
    else none
  | (thread, .install) =>
    match s.pending thread with
    | none => none
    | some context =>
      some { s with
        slot := Function.update s.slot thread context
        pending := Function.update s.pending thread none }

end ContextRun
end Walaru.Agent
