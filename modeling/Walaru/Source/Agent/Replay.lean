import Mathlib.Algebra.Order.BigOperators.Group.Finset
import Walaru.Source.Agent.Recorder
import Walaru.Source.Daemon.Tape

/-!
# Replaying inputs and events

`ReplayScheduler` and `InputTape.next` in replay mode. The schedule admits events
one at a time by thread key; the tape hands out its entries in order to whoever
holds the monitor, and an input call holds the monitor while its `INPUT` event
waits for its turn. A wait that ends only by the time-out is a step that is not
enabled. The daemon writes the schedule from the recorded events and the tape
from the recorded inputs.
-/
namespace Walaru.Agent
open Lib.Trace

/-- `ReplayScheduler.Entry`. -/
structure ScheduleEntry where
  category : String
  threadKey : String
  deriving DecidableEq, Repr

/-- `ReplayScheduler.category`. -/
def replayCategory : String → String
  | "METHOD_ENTER" | "METHOD_EXIT" | "CALL" => "CALL"
  | rawType => rawType

/-- The mutable part of `ReplayScheduler`. -/
structure Turnstile where
  cursor : Nat
  writing : Bool
  deriving DecidableEq, Repr

/-- What a call of `before` does at this moment. -/
inductive Admission where
  | waits
  | fails
  | enters (turn : Turnstile)
  deriving DecidableEq, Repr

namespace Turnstile

def before (expected : List ScheduleEntry) (turn : Turnstile) (rawType threadKey : String) :
    Admission :=
  if expected = [] then .enters turn
  else
    match expected[turn.cursor]? with
    | none => .fails
    | some entry =>
      if turn.writing ∨ entry.threadKey ≠ threadKey then .waits
      else if entry.category ≠ replayCategory rawType then .fails
      else .enters { turn with writing := true }

def after (expected : List ScheduleEntry) (turn : Turnstile) : Turnstile :=
  if expected = [] then turn else ⟨turn.cursor + 1, false⟩

end Turnstile

inductive ReplayPhase where
  | idle
  /-- Past `before` with an ordinary event. -/
  | writing
  /-- In the monitor with a tape entry, before the turn of its event. -/
  | holding (encoded : String)
  /-- In the monitor, past `before` with its event. -/
  | writingInput (encoded : String)
  /-- In the monitor, past `after`. -/
  | leaving (encoded : String)
  /-- An `IllegalStateException` left the call. -/
  | failed
  deriving DecidableEq, Repr

structure ReplayThread where
  rest : List BridgeCall
  phase : ReplayPhase
  returned : List String
  deriving DecidableEq, Repr

@[ext]
structure Replay (Thread : Type) where
  threads : Thread → ReplayThread
  turn : Turnstile
  tapeCursor : Nat
  monitor : Option Thread

/-- What the fresh JVM replays, and the logical names of its threads. -/
structure ReplaySetup (Thread : Type) where
  key : Thread → String
  schedule : List ScheduleEntry
  tape : List TapeEntry

variable {Thread : Type} [DecidableEq Thread]

namespace Replay

def start (program : Thread → List BridgeCall) : Replay Thread :=
  ⟨fun t => ⟨program t, .idle, []⟩, ⟨0, false⟩, 0, none⟩

def set (s : Replay Thread) (t : Thread) (self : ReplayThread) : Replay Thread :=
  { s with threads := Function.update s.threads t self }

@[simp] theorem set_threads (s : Replay Thread) (t : Thread) (self : ReplayThread) :
    (s.set t self).threads = Function.update s.threads t self := rfl

@[simp] theorem set_turn (s : Replay Thread) (t : Thread) (self : ReplayThread) :
    (s.set t self).turn = s.turn := rfl

@[simp] theorem set_tapeCursor (s : Replay Thread) (t : Thread) (self : ReplayThread) :
    (s.set t self).tapeCursor = s.tapeCursor := rfl

@[simp] theorem set_monitor (s : Replay Thread) (t : Thread) (self : ReplayThread) :
    (s.set t self).monitor = s.monitor := rfl

/-- `emit` of an ordinary event, up to its turn. -/
def beginEvent (setup : ReplaySetup Thread) (s : Replay Thread) (t : Thread) (rawType : String) :
    Option (Replay Thread) :=
  let self := s.threads t
  match s.turn.before setup.schedule rawType (setup.key t) with
  | .waits => none
  | .fails => some (s.set t { self with phase := .failed })
  | .enters turn => some { s.set t { self with phase := .writing } with turn := turn }

/-- Enter the monitor and take the next tape entry. -/
def takeEntry (setup : ReplaySetup Thread) (s : Replay Thread) (t : Thread) (kind : String) :
    Option (Replay Thread) :=
  let self := s.threads t
  if s.monitor ≠ none then none
  else
    match setup.tape[s.tapeCursor]? with
    | none => some (s.set t { self with phase := .failed })
    | some entry =>
      if entry.kind ≠ kind then
        some { s.set t { self with phase := .failed } with tapeCursor := s.tapeCursor + 1 }
      else
        some { s.set t { self with phase := .holding entry.encoded } with
          tapeCursor := s.tapeCursor + 1
          monitor := some t }

/-- `inputObserved`, up to the turn of its event. -/
def beginInput (setup : ReplaySetup Thread) (s : Replay Thread) (t : Thread) (encoded : String) :
    Option (Replay Thread) :=
  let self := s.threads t
  match s.turn.before setup.schedule "INPUT" (setup.key t) with
  | .waits => none
  | .fails => some { s.set t { self with phase := .failed } with monitor := none }
  | .enters turn => some { s.set t { self with phase := .writingInput encoded } with turn := turn }

/-- One step of a thread. -/
def step (setup : ReplaySetup Thread) (s : Replay Thread) (t : Thread) : Option (Replay Thread) :=
  let self := s.threads t
  match self.phase, self.rest with
  | .idle, [] => none
  | .idle, .event rawType :: _ => s.beginEvent setup t rawType
  | .idle, .input kind :: _ => s.takeEntry setup t kind
  | .writing, rest =>
    some { s.set t { self with rest := rest.tail, phase := .idle } with
      turn := s.turn.after setup.schedule }
  | .holding encoded, _ => s.beginInput setup t encoded
  | .writingInput encoded, _ =>
    some { s.set t { self with phase := .leaving encoded } with
      turn := s.turn.after setup.schedule }
  | .leaving encoded, rest =>
    some { s.set t ⟨rest.tail, .idle, self.returned ++ [encoded]⟩ with monitor := none }
  | .failed, _ => none

/-- Every thread has returned from its last call. -/
def Finished (s : Replay Thread) : Prop :=
  ∀ t, (s.threads t).phase = .idle ∧ (s.threads t).rest = []

end Replay

def ReplayPhase.weight : ReplayPhase → Nat
  | .idle => 4
  | .writing | .holding _ => 3
  | .writingInput _ => 2
  | .leaving _ => 1
  | .failed => 0

/-- An upper bound on the steps that a thread can still take. -/
def ReplayThread.budget (self : ReplayThread) : Nat :=
  if self.rest = [] ∧ self.phase = .idle then 0 else 5 * self.rest.length + self.phase.weight

namespace Replay
variable {setup : ReplaySetup Thread} {s s' : Replay Thread} {t : Thread}

/-- Returning from a call lowers the budget, also from a last one. -/
theorem budget_return (rest : List BridgeCall) {phase : ReplayPhase} (returned more : List String)
    (busy : phase ≠ .idle) (live : 0 < phase.weight) :
    (⟨rest.tail, .idle, more⟩ : ReplayThread).budget <
      (⟨rest, phase, returned⟩ : ReplayThread).budget := by
  have whole : (⟨rest, phase, returned⟩ : ReplayThread).budget = 5 * rest.length + phase.weight := by
    simp [ReplayThread.budget, busy]
  rw [whole]
  cases rest with
  | nil => simpa [ReplayThread.budget] using live
  | cons call rest =>
    simp only [ReplayThread.budget, List.tail_cons, ReplayPhase.weight, List.length_cons]
    split <;> omega

/-- A step moves one thread, which has not failed, and lowers its budget. -/
theorem step_budget (stepped : s.step setup t = some s') :
    ∃ self, s'.threads = Function.update s.threads t self ∧
      self.budget < (s.threads t).budget ∧ (s.threads t).phase ≠ .failed := by
  cases shape : s.threads t with
  | mk rest phase returned =>
  simp only [step, shape] at stepped
  split at stepped
  · cases stepped
  · simp only [beginEvent, shape] at stepped
    split at stepped <;> simp only [Option.some.injEq, reduceCtorEq] at stepped
    all_goals subst stepped; exact ⟨_, rfl, by simp [ReplayThread.budget, ReplayPhase.weight], by simp⟩
  · simp only [takeEntry, shape] at stepped
    split at stepped
    · cases stepped
    · split at stepped
      · simp only [Option.some.injEq] at stepped
        subst stepped
        exact ⟨_, rfl, by simp [ReplayThread.budget, ReplayPhase.weight], by simp⟩
      · split at stepped <;> simp only [Option.some.injEq] at stepped
        all_goals subst stepped; exact ⟨_, rfl, by simp [ReplayThread.budget, ReplayPhase.weight], by simp⟩
  · simp only [Option.some.injEq] at stepped
    subst stepped
    exact ⟨_, rfl, budget_return _ _ _ (by simp) (by decide), by simp⟩
  · simp only [beginInput, shape] at stepped
    split at stepped <;> simp only [Option.some.injEq, reduceCtorEq] at stepped
    all_goals subst stepped; exact ⟨_, rfl, by simp [ReplayThread.budget, ReplayPhase.weight], by simp⟩
  · simp only [Option.some.injEq] at stepped
    subst stepped
    exact ⟨_, rfl, by simp [ReplayThread.budget, ReplayPhase.weight], by simp⟩
  · simp only [Option.some.injEq] at stepped
    subst stepped
    exact ⟨_, rfl, budget_return _ _ _ (by simp) (by simp [ReplayPhase.weight]), by simp⟩
  · cases stepped

/-- A thread that failed stays failed. -/
theorem step_failed {u : Thread} (stepped : s.step setup t = some s')
    (failed : (s.threads u).phase = .failed) : (s'.threads u).phase = .failed := by
  obtain ⟨self, threads, -, live⟩ := step_budget stepped
  rw [threads]
  by_cases own : u = t
  · exact absurd (own ▸ failed) live
  · rw [Function.update_of_ne own]
    exact failed

theorem step_decreases [Fintype Thread] (stepped : s.step setup t = some s') :
    ∑ u, (s'.threads u).budget < ∑ u, (s.threads u).budget := by
  obtain ⟨self, threads, lower, -⟩ := step_budget stepped
  rw [threads]
  refine Finset.sum_lt_sum (fun u _ => ?_) ⟨t, Finset.mem_univ t, ?_⟩
  · by_cases own : u = t
    · subst own
      rw [Function.update_self]
      exact lower.le
    · rw [Function.update_of_ne own]
  · rw [Function.update_self]
    exact lower

/-- After a failure the replay comes to a stop in which the thread is still failed. -/
theorem failed_stuck [Fintype Thread] {u : Thread} (failed : (s.threads u).phase = .failed) :
    ∃ s', Reachable (step setup) s s' ∧ Stuck (step setup) s' ∧ (s'.threads u).phase = .failed := by
  obtain ⟨s', run, stuck⟩ := exists_stuck (step setup) (fun s => ∑ u, (s.threads u).budget)
    (fun _ _ _ stepped => step_decreases stepped) s
  exact ⟨s', run, stuck, run.invariant (step setup) (P := fun s => (s.threads u).phase = .failed)
    (fun _ _ _ failed stepped => step_failed stepped failed) failed⟩

end Replay

end Walaru.Agent
