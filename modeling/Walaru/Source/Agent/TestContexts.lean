import Walaru.Lib.Trace
import Walaru.Source.Core.Protocol

/-!
# Test contexts of the agent

`AgentBridge.testStarted`, `testFinished` and `currentTest` on one thread. A context is
named by its place in the order of creation, so that two contexts are the same object
exactly when their places are equal. The events that the calls emit, and the names and
failures that only these carry, are left out; emitting an event returns.
-/
namespace Walaru.Agent

/-- `AgentBridge.TestContext`. -/
structure TestContext where
  uniqueId : String
  previous : Option Nat
  active : Bool
  deriving DecidableEq, Repr

structure TestContexts where
  /-- Every context so far. -/
  contexts : List TestContext
  /-- `ACTIVE_TESTS`. -/
  activeTests : BTreeMap String Nat
  /-- `CURRENT_TEST.get()` of the thread. -/
  local_ : Option Nat
  /-- The last call ended with a `NullPointerException`. -/
  threw : Bool

inductive TestCall where
  | started (uniqueId : String)
  | finished (uniqueId : String)
  deriving DecidableEq, Repr

namespace TestContexts

def initial : TestContexts := ⟨[], ∅, none, false⟩

def active (s : TestContexts) (context : Nat) : Bool :=
  (s.contexts[context]?).any TestContext.active

def uniqueId (s : TestContexts) (context : Nat) : Option String :=
  (s.contexts[context]?).map TestContext.uniqueId

def previous (s : TestContexts) (context : Nat) : Option Nat :=
  (s.contexts[context]?).bind TestContext.previous

def deactivate (s : TestContexts) (context : Nat) : TestContexts :=
  { s with contexts := s.contexts.modify context fun c => { c with active := false } }

def currentTest (s : TestContexts) : Option Nat :=
  s.local_.filter s.active

def testStarted (s : TestContexts) (uniqueId : String) : TestContexts :=
  let context : TestContext := ⟨uniqueId, s.currentTest, true⟩
  let place := s.contexts.length
  let replaced := s.activeTests[uniqueId]?
  let s := { s with
    contexts := s.contexts ++ [context]
    activeTests := s.activeTests.insert uniqueId place }
  let s := match replaced with
    | some replaced => s.deactivate replaced
    | none => s
  { s with local_ := some place, threw := false }

/-- Give the thread the context before this one, if that is still active. -/
def restore (s : TestContexts) : Option Nat → TestContexts
  | none => { s with threw := true }
  | some context => { s with local_ := (s.previous context).filter s.active, threw := false }

def testFinished (s : TestContexts) (uniqueId : String) : TestContexts :=
  let removed := s.activeTests[uniqueId]?
  let s := { s with activeTests := s.activeTests.erase uniqueId }
  let named := s.local_.any fun context => s.uniqueId context = some uniqueId
  let context := if removed = none ∧ named then s.local_ else removed
  let s := match context with
    | some context => s.deactivate context
    | none => s
  if s.local_ = context ∨ named then s.restore s.local_ else { s with threw := false }

end TestContexts

/-- The agent and, beside it, the tests that have started and not finished, oldest first. -/
structure TestRun where
  agent : TestContexts
  unfinished : List String

namespace TestRun

def initial : TestRun := ⟨.initial, []⟩

/-- No test starts twice; any id may be finished at any time. -/
def step (s : TestRun) : TestCall → Option TestRun
  | .started uniqueId =>
    if uniqueId ∈ s.agent.contexts.map TestContext.uniqueId then none
    else some ⟨s.agent.testStarted uniqueId, s.unfinished ++ [uniqueId]⟩
  | .finished uniqueId => some ⟨s.agent.testFinished uniqueId, s.unfinished.erase uniqueId⟩

end TestRun

end Walaru.Agent
