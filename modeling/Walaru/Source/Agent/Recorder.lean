import Mathlib.Logic.Function.Basic
import Mathlib.Data.List.Basic
import Walaru.Lib.Trace

/-!
# Recording inputs and events

`InputTape.next` in record mode and `AgentBridge.emit` without a schedule. A
thread is the sequence of its bridge calls. A recorded-input call takes the tape
monitor, appends to the tape, writes its `INPUT` event and only then leaves the
monitor; every other event is one write of the shared stream. The bytes of an
input come with the step, since they are what the program really read.
-/
namespace Walaru.Agent
open Lib.Trace

/-- A call into `AgentBridge`. -/
inductive BridgeCall where
  | event (rawType : String)
  | input (kind : String)
  deriving DecidableEq, Repr

/-- `InputTape.Entry`. -/
structure TapeEntry where
  kind : String
  encoded : String
  deriving DecidableEq, Repr

/-- What a call leaves in the event stream. -/
inductive Emitted where
  | event (rawType : String)
  | input (entry : TapeEntry)
  deriving DecidableEq, Repr

namespace Emitted

def call : Emitted → BridgeCall
  | event rawType => .event rawType
  | input entry => .input entry.kind

def rawType : Emitted → String
  | event rawType => rawType
  | input _ => "INPUT"

def tapeEntry : Emitted → Option TapeEntry
  | event _ => none
  | input entry => some entry

end Emitted

inductive RecordPhase where
  | idle
  /-- In the monitor, with the entry on the tape and its event still to write. -/
  | appended (entry : TapeEntry)
  /-- The event is written; the monitor is still held. -/
  | observed (entry : TapeEntry)
  deriving DecidableEq, Repr

structure RecordThread where
  rest : List BridgeCall
  phase : RecordPhase
  /-- What the input calls returned so far. -/
  returned : List String
  deriving DecidableEq, Repr

structure Recorder (Thread : Type) where
  threads : Thread → RecordThread
  monitor : Option Thread
  tape : List TapeEntry
  stream : List (Thread × Emitted)

variable {Thread : Type} [DecidableEq Thread]

namespace Recorder

def start (program : Thread → List BridgeCall) : Recorder Thread :=
  ⟨fun t => ⟨program t, .idle, []⟩, none, [], []⟩

def set (s : Recorder Thread) (t : Thread) (self : RecordThread) : Recorder Thread :=
  { s with threads := Function.update s.threads t self }

@[simp] theorem set_threads (s : Recorder Thread) (t : Thread) (self : RecordThread) :
    (s.set t self).threads = Function.update s.threads t self := rfl

@[simp] theorem set_monitor (s : Recorder Thread) (t : Thread) (self : RecordThread) :
    (s.set t self).monitor = s.monitor := rfl

@[simp] theorem set_tape (s : Recorder Thread) (t : Thread) (self : RecordThread) :
    (s.set t self).tape = s.tape := rfl

@[simp] theorem set_stream (s : Recorder Thread) (t : Thread) (self : RecordThread) :
    (s.set t self).stream = s.stream := rfl

/-- One step of a thread; `actual` is what an input call reads. -/
def step (s : Recorder Thread) (label : Thread × String) : Option (Recorder Thread) :=
  let (t, actual) := label
  let self := s.threads t
  match self.phase, self.rest with
  | .idle, [] => none
  | .idle, .event rawType :: rest =>
    some { s.set t { self with rest := rest } with stream := s.stream ++ [(t, .event rawType)] }
  | .idle, .input kind :: _ =>
    if s.monitor = none then
      some { s.set t { self with phase := .appended ⟨kind, actual⟩ } with
        monitor := some t
        tape := s.tape ++ [⟨kind, actual⟩] }
    else none
  | .appended entry, _ =>
    some { s.set t { self with phase := .observed entry } with
      stream := s.stream ++ [(t, .input entry)] }
  | .observed entry, _ =>
    some { s.set t ⟨self.rest.tail, .idle, self.returned ++ [entry.encoded]⟩ with monitor := none }

/-- Every thread has returned from its last call. -/
def Finished (s : Recorder Thread) : Prop :=
  ∀ t, (s.threads t).phase = .idle ∧ (s.threads t).rest = []

end Recorder

def entriesOf {Thread : Type} (stream : List (Thread × Emitted)) : List TapeEntry :=
  stream.filterMap fun e => e.2.tapeEntry

section Entries
variable {Thread : Type} (e : Thread × Emitted) (first second : List (Thread × Emitted))

@[simp] theorem entriesOf_nil : entriesOf ([] : List (Thread × Emitted)) = [] := rfl

@[simp] theorem entriesOf_append :
    entriesOf (first ++ second) = entriesOf first ++ entriesOf second := by
  simp [entriesOf]

@[simp] theorem entriesOf_cons :
    entriesOf (e :: second) = e.2.tapeEntry.toList ++ entriesOf second := by
  cases h : e.2.tapeEntry <;> simp [entriesOf, h]

end Entries

/-- The part of a stream that one thread wrote. -/
def emittedBy (t : Thread) (stream : List (Thread × Emitted)) : List Emitted :=
  (stream.filter fun e => e.1 = t).map Prod.snd

def callsOf (t : Thread) (stream : List (Thread × Emitted)) : List BridgeCall :=
  (emittedBy t stream).map Emitted.call

def valuesOf (t : Thread) (stream : List (Thread × Emitted)) : List String :=
  ((emittedBy t stream).filterMap Emitted.tapeEntry).map TapeEntry.encoded

section Parts
variable (t : Thread) (e : Thread × Emitted) (first second : List (Thread × Emitted))

@[simp] theorem emittedBy_nil : emittedBy t [] = [] := rfl

@[simp] theorem emittedBy_append :
    emittedBy t (first ++ second) = emittedBy t first ++ emittedBy t second := by
  simp [emittedBy]

@[simp] theorem emittedBy_cons :
    emittedBy t (e :: second) = if e.1 = t then e.2 :: emittedBy t second else emittedBy t second := by
  by_cases own : e.1 = t <;> simp [emittedBy, own]

@[simp] theorem callsOf_nil : callsOf t [] = [] := rfl

@[simp] theorem callsOf_append : callsOf t (first ++ second) = callsOf t first ++ callsOf t second := by
  simp [callsOf]

@[simp] theorem callsOf_cons :
    callsOf t (e :: second) = if e.1 = t then e.2.call :: callsOf t second else callsOf t second := by
  by_cases own : e.1 = t <;> simp [callsOf, own]

@[simp] theorem valuesOf_nil : valuesOf t [] = [] := rfl

@[simp] theorem valuesOf_append :
    valuesOf t (first ++ second) = valuesOf t first ++ valuesOf t second := by
  simp [valuesOf]

@[simp] theorem valuesOf_cons :
    valuesOf t (e :: second) =
      (if e.1 = t then (e.2.tapeEntry.map TapeEntry.encoded).toList else []) ++ valuesOf t second := by
  by_cases own : e.1 = t
  · cases h : e.2.tapeEntry <;> simp [valuesOf, own, h]
  · simp [valuesOf, own]

end Parts

/-- No calls of a thread in a stream: none of the events is its own. -/
theorem callsOf_eq_nil_iff {t : Thread} {stream : List (Thread × Emitted)} :
    callsOf t stream = [] ↔ ∀ e ∈ stream, e.1 ≠ t := by
  simp [callsOf, emittedBy, List.filter_eq_nil_iff]

/-- The calls of a thread that have no event yet. -/
def RecordThread.unwritten (self : RecordThread) : List BridgeCall :=
  match self.phase with
  | .observed _ => self.rest.tail
  | _ => self.rest

/-- The value whose event is written but which is not returned yet. -/
def RecordThread.unreturned (self : RecordThread) : List String :=
  match self.phase with
  | .observed entry => [entry.encoded]
  | _ => []

/-- Stream, tape and returned values agree with the programs; at most the thread in
the monitor is inside an input call. -/
structure Logged (program : Thread → List BridgeCall) (s : Recorder Thread) : Prop where
  calls : ∀ t, program t = callsOf t s.stream ++ (s.threads t).unwritten
  values : ∀ t, valuesOf t s.stream = (s.threads t).returned ++ (s.threads t).unreturned
  holder : ∀ t, (s.threads t).phase ≠ .idle → s.monitor = some t
  settled : (∀ t entry, (s.threads t).phase ≠ .appended entry) → s.tape = entriesOf s.stream
  appended : ∀ t entry, (s.threads t).phase = .appended entry →
    s.tape = entriesOf s.stream ++ [entry] ∧ ∃ rest, (s.threads t).rest = .input entry.kind :: rest

namespace Logged
variable {program : Thread → List BridgeCall} {s s' : Recorder Thread}

theorem start (program : Thread → List BridgeCall) : Logged program (Recorder.start program) where
  calls t := rfl
  values t := rfl
  holder t busy := absurd rfl busy
  settled _ := rfl
  appended t entry phase := by cases phase

/-- A thread other than the one in the monitor is between calls. -/
theorem idle (logged : Logged program s) {u : Thread} (outside : s.monitor ≠ some u) :
    (s.threads u).phase = .idle := by
  by_contra busy
  exact outside (logged.holder u busy)

/-- What a step of `t` has to show: its own calls and values move with the events it
adds, and the other threads are either idle or see monitor and tape unchanged. -/
theorem of_step (logged : Logged program s) (t : Thread) (self : RecordThread) (added : List Emitted)
    (threads : s'.threads = Function.update s.threads t self)
    (stream : s'.stream = s.stream ++ added.map fun e => (t, e))
    (calls : (s.threads t).unwritten = added.map Emitted.call ++ self.unwritten)
    (values : (s.threads t).returned ++ (s.threads t).unreturned ++
      (added.filterMap Emitted.tapeEntry).map TapeEntry.encoded = self.returned ++ self.unreturned)
    (quiet : (∀ u, u ≠ t → (s.threads u).phase = .idle) ∨
      (s'.monitor = s.monitor ∧ s'.tape = s.tape ∧ entriesOf s'.stream = entriesOf s.stream))
    (holder : self.phase ≠ .idle → s'.monitor = some t)
    (settled : (∀ u entry, (s'.threads u).phase ≠ .appended entry) →
      s'.tape = entriesOf s'.stream)
    (appended : ∀ entry, self.phase = .appended entry →
      s'.tape = entriesOf s'.stream ++ [entry] ∧ ∃ rest, self.rest = .input entry.kind :: rest) :
    Logged program s' := by
  have mine : s'.threads t = self := by rw [threads, Function.update_self]
  have other : ∀ {u}, u ≠ t → s'.threads u = s.threads u := fun ne => by
    rw [threads, Function.update_of_ne ne]
  have own_part : emittedBy t (added.map fun e => (t, e)) = added := by
    simp [emittedBy, List.filter_map, Function.comp_def]
  have other_part : ∀ {u}, u ≠ t → emittedBy u (added.map fun e => (t, e)) = [] := fun ne => by
    simp [emittedBy, List.filter_map, Ne.symm ne]
  refine ⟨fun u => ?_, fun u => ?_, fun u busy => ?_, settled, fun u entry inside => ?_⟩
  · rw [stream, callsOf_append, logged.calls u]
    by_cases own : u = t
    · subst own
      rw [mine, calls, callsOf, callsOf, own_part, List.append_assoc]
    · rw [other own, callsOf, callsOf, other_part own, List.map_nil, List.append_nil]
  · rw [stream, valuesOf_append, logged.values u]
    by_cases own : u = t
    · subst own
      rw [mine, ← values, valuesOf, own_part]
    · rw [other own, valuesOf, other_part own, List.filterMap_nil, List.map_nil, List.append_nil]
  · by_cases own : u = t
    · subst own
      exact holder (mine ▸ busy)
    · rw [other own] at busy
      rcases quiet with idle | ⟨monitor, -, -⟩
      · exact absurd (idle u own) busy
      · exact monitor.trans (logged.holder u busy)
  · by_cases own : u = t
    · subst own
      rw [mine] at inside ⊢
      exact appended entry inside
    · rw [other own] at inside ⊢
      rcases quiet with idle | ⟨-, tape, entries⟩
      · rw [idle u own] at inside
        cases inside
      · rw [tape, entries]
        exact logged.appended u entry inside

theorem step (logged : Logged program s) {label : Thread × String}
    (stepped : s.step label = some s') : Logged program s' := by
  obtain ⟨t, actual⟩ := label
  have alone : ∀ {m}, s.monitor = m → (∀ u, u ≠ t → m ≠ some u) →
      ∀ u, u ≠ t → (s.threads u).phase = .idle := by
    rintro m rfl outside u other
    exact logged.idle (outside u other)
  cases phase : (s.threads t).phase with
  | idle =>
    cases next : (s.threads t).rest with
    | nil => simp [Recorder.step, phase, next] at stepped
    | cons call rest =>
      cases call with
      | event rawType =>
        simp only [Recorder.step, phase, next, Option.some.injEq] at stepped
        subst stepped
        refine logged.of_step t _ [.event rawType] rfl rfl ?_ ?_ (.inr ⟨rfl, rfl, ?_⟩) ?_ ?_ ?_
        · simp [RecordThread.unwritten, phase, next, Emitted.call]
        · simp [RecordThread.unreturned, phase, Emitted.tapeEntry]
        · simp [Emitted.tapeEntry]
        · simp
        · intro none_appended
          have before := logged.settled fun u entry inside => by
            by_cases own : u = t
            · simp [own, phase] at inside
            · exact none_appended u entry (by simpa [own] using inside)
          simpa [Emitted.tapeEntry] using before
        · simp
      | input kind =>
        simp only [Recorder.step, phase, next, Option.ite_none_right_eq_some, Option.some.injEq]
          at stepped
        obtain ⟨unheld, rfl⟩ := stepped
        have tape := logged.settled fun u entry inside => by
          simp [logged.idle (u := u) (by simp [unheld])] at inside
        refine logged.of_step t _ [] rfl (by simp) ?_ ?_ (.inl (alone unheld (by simp))) ?_ ?_ ?_
        · simp [RecordThread.unwritten, phase, next]
        · simp [RecordThread.unreturned, phase]
        · simp
        · exact fun none_appended => absurd (none_appended t ⟨kind, actual⟩) (by simp)
        · simp [tape]
  | appended entry =>
    have held := logged.holder t (by simp [phase])
    obtain ⟨tape, rest, next⟩ := logged.appended t entry phase
    simp only [Recorder.step, phase, Option.some.injEq] at stepped
    subst stepped
    refine logged.of_step t _ [.input entry] rfl rfl ?_ ?_
      (.inl (alone held (by simp +contextual [eq_comm]))) ?_ ?_ ?_
    · simp [RecordThread.unwritten, phase, next, Emitted.call]
    · simp [RecordThread.unreturned, phase, Emitted.tapeEntry]
    · simp [held]
    · simp [tape, Emitted.tapeEntry]
    · simp
  | observed entry =>
    have held := logged.holder t (by simp [phase])
    have others := alone held (by simp +contextual [eq_comm])
    have tape := logged.settled fun u entry inside => by
      by_cases own : u = t
      · simp [own, phase] at inside
      · simp [others u own] at inside
    simp only [Recorder.step, phase, Option.some.injEq] at stepped
    subst stepped
    refine logged.of_step t _ [] rfl (by simp) ?_ ?_ (.inl others) ?_ ?_ ?_
    · simp [RecordThread.unwritten, phase]
    · simp [RecordThread.unreturned, phase]
    · simp
    · simp [tape]
    · simp

end Logged

/-- A finished recording: the stream has each thread's calls in its order, and the
tape has the inputs in stream order. -/
theorem recorded {program : Thread → List BridgeCall} {s : Recorder Thread}
    (run : Reachable Recorder.step (Recorder.start program) s) (finished : s.Finished) :
    program = (fun t => callsOf t s.stream) ∧ s.tape = entriesOf s.stream ∧
      ∀ t, (s.threads t).returned = valuesOf t s.stream := by
  have logged := run.invariant Recorder.step (P := Logged program)
    (fun _ _ _ logged stepped => logged.step stepped) (.start program)
  refine ⟨funext fun t => ?_, logged.settled fun t entry inside => ?_, fun t => ?_⟩
  · simpa [RecordThread.unwritten, finished t] using logged.calls t
  · simp [finished t] at inside
  · simpa [RecordThread.unreturned, finished t] using (logged.values t).symm

end Walaru.Agent
