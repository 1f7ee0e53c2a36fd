import Walaru.Lib.Trace
import Walaru.Source.Core.Retention
import Walaru.Source.Core.StorePages

/-!
# Reading a trace while runs go on

One client walks through the trace of a test page by page, and between its requests runs
begin, store their events, finish and are deleted. Every run has an identifier of its own,
and the events of a run are numbered upwards. Only the writes to the tables that a trace is
read from are steps of their own.
-/
namespace Walaru
open Lib.PageWalk

/-- What the client asks for. -/
structure TraceReader where
  /-- The test, which is no run. -/
  subject : String
  limit : Nat
  maxBytes : Nat
  positive : 1 ≤ limit
  addressable : limit < 2 ^ 63 - 1

/-- A page, with the store that answered it. -/
structure TracePage (Payload : Type) where
  store : Store Payload
  items : List Event

structure TraceState (Payload : Type) where
  store : Store Payload
  /-- Every run that ever began. -/
  begun : List String
  /-- The cursor of the next request, if the walk goes on. -/
  next : Option (Option String)
  pages : List (TracePage Payload)

inductive TraceAction where
  | beginRun (run : NewRun)
  | appendEvent (runId testId : String) (event : Blob Event)
  | finishRun (runId : String) (desired : RunStatus) (currentRevision finishedAt : String)
  | deleteRuns (doomed : List String)
  | readPage

variable {Payload : Type}

def TraceState.start : TraceState Payload := ⟨.empty, [], some none, []⟩

def traceStep (reader : TraceReader) (s : TraceState Payload) :
    TraceAction → Option (TraceState Payload)
  | .beginRun run =>
    if run.id ∈ s.begun ∨ run.id = reader.subject then none
    else (s.store.beginRun run).toOption.map fun store =>
      { s with store := store, begun := run.id :: s.begun }
  | .appendEvent runId testId event =>
    if s.store.events.any fun row =>
        row.runId = runId && event.content.sequence ≤ row.sequence then none
    else (s.store.appendEvent runId testId event).toOption.map fun store => { s with store := store }
  | .finishRun runId desired currentRevision finishedAt =>
    (s.store.finishRun runId desired currentRevision finishedAt).toOption.map fun done =>
      { s with store := done.2 }
  | .deleteRuns doomed => some { s with store := s.store.deleteRuns doomed }
  | .readPage =>
    s.next.bind fun cursor =>
      (s.store.trace reader.subject cursor reader.limit reader.maxBytes).toOption.map fun page =>
        { s with
          next := page.nextCursor.map some
          pages := s.pages ++ [⟨s.store, page.items⟩] }

namespace Store

/-- The rows of a test in a run, as they were stored. -/
def runTestRows (s : Store Payload) (runId testId : String) : List EventRow :=
  s.events.filter fun row => row.runId = runId && row.testId = testId

/-- The trace of a test in a run. -/
def traceIn (s : Store Payload) (testId : String) (run : Option String) : List Event :=
  match run with
  | some runId => (s.runTestRows runId testId).map fun row => row.payload.content
  | none => []

/-- What every store holds that runs have written to. -/
structure Numbered (s : Store Payload) : Prop where
  upwards : s.events.Pairwise fun a b => a.runId = b.runId → a.sequence < b.sequence
  stored : ∀ row ∈ s.events, row.payload.content.sequence = row.sequence ∧ row.sequence < 2 ^ 63
  owned : ∀ row ∈ s.events, s.hasRun row.runId = true

end Store

namespace Store
variable {s t : Store Payload}

theorem toOption_eq_some {ε α : Type} {x : Except ε α} {a : α} : x.toOption = some a ↔ x = .ok a := by
  cases x <;> simp [Except.toOption]

theorem beginRun_ok {run : NewRun} (began : s.beginRun run = .ok t) :
    t.events = s.events ∧ ∀ id, t.hasRun id = true ↔ s.hasRun id = true ∨ id = run.id := by
  unfold beginRun at began
  split at began
  · cases began
  · obtain rfl := Except.ok.inj began
    refine ⟨rfl, fun id => ?_⟩
    simp only [hasRun, List.any_append, List.any_cons, List.any_nil, Bool.or_false, Bool.or_eq_true,
      decide_eq_true_eq]
    exact or_congr_right eq_comm

theorem appendEvent_ok {runId testId : String} {event : Blob Event}
    (appended : s.appendEvent runId testId event = .ok t) :
    event.content.sequence < 2 ^ 63 ∧ s.hasRun runId = true ∧
      t = { s with events := s.events ++
        [⟨event.content.id, runId, testId, event.content.sequence, event⟩] } := by
  unfold appendEvent at appended
  simp only at appended
  split at appended
  · cases appended
  · rename_i small
    split at appended
    · cases appended
    · split at appended
      · cases appended
      · rename_i known
        exact ⟨by omega, by simpa using known, (Except.ok.inj appended).symm⟩

theorem finishRun_ok {runId currentRevision finishedAt : String} {desired status : RunStatus}
    (finished : s.finishRun runId desired currentRevision finishedAt = .ok (status, t)) :
    t.events = s.events ∧ ∀ id, t.hasRun id = s.hasRun id := by
  unfold finishRun at finished
  split at finished
  · cases finished
  · obtain ⟨-, rfl⟩ := Prod.mk.inj (Except.ok.inj finished)
    refine ⟨rfl, fun id => ?_⟩
    simp only [hasRun, List.any_map]
    congr 1
    funext row
    simp only [Function.comp_apply]
    split <;> rfl

/-- The test resolves to a run of the store. -/
theorem hasRun_latestRunOf {testId runId : String} (latest : s.latestRunOf testId = some runId) :
    s.hasRun runId = true := by
  unfold latestRunOf at latest
  obtain ⟨run, found, rfl⟩ := Option.map_eq_some_iff.mp latest
  have listed : ∀ step : Option RunRow → EventRow → Option RunRow,
      (∀ best row, (∀ old ∈ best, old ∈ s.runs) → ∀ old ∈ step best row, old ∈ s.runs) →
      ∀ (rows : List EventRow) (best : Option RunRow), (∀ old ∈ best, old ∈ s.runs) →
        ∀ run ∈ rows.foldl step best, run ∈ s.runs := by
    intro step keeps rows
    induction rows with
    | nil => exact fun best known => known
    | cons row rows ih =>
      intro best known
      rw [List.foldl_cons]
      exact ih _ (keeps best row known)
  have member : run ∈ s.runs := by
    refine listed _ ?_ _ none (by simp) run found
    intro best row known old member
    split at member
    · exact known old member
    · rename_i named
      have new := List.mem_of_find?_eq_some named
      split at member
      · cases member
        exact new
      · split at member
        · cases member
          exact new
        · exact known old member
  rw [hasRun, List.any_eq_true]
  exact ⟨run, member, by simp⟩

end Store

namespace Store
variable {s : Store Payload}

theorem Numbered.runTestRows_sorted (numbered : s.Numbered) (runId testId : String) :
    (s.runTestRows runId testId).Pairwise fun a b => a.sequence < b.sequence := by
  rw [runTestRows, List.pairwise_filter]
  refine numbered.upwards.imp fun {a b} upwards here there => ?_
  simp only [Bool.and_eq_true, decide_eq_true_eq] at here there
  exact upwards (here.1.trans there.1.symm)

theorem Numbered.eventRows_eq (numbered : s.Numbered) (runId testId : String) (after : Int) :
    s.eventRows runId (some testId) after =
      (s.runTestRows runId testId).filter fun row => after < (row.sequence : Int) := by
  have kept : (s.events.filter fun row =>
      row.runId = runId && ((some testId).all fun t => row.testId = t) && after < (row.sequence : Int)) =
      (s.runTestRows runId testId).filter fun row => after < (row.sequence : Int) := by
    rw [runTestRows, List.filter_filter]
    exact List.filter_congr fun row _ => by simp [Bool.and_comm, Bool.and_assoc]
  rw [eventRows, kept]
  apply List.mergeSort_of_pairwise
  exact ((numbered.runTestRows_sorted runId testId).filter _).imp fun less => by simpa using Nat.le_of_lt less

end Store

/-- The stores of a run of the steps. -/
structure TraceSound (reader : TraceReader) (s : TraceState Payload) : Prop where
  numbered : s.store.Numbered
  known : ∀ id, s.store.hasRun id = true → id ∈ s.begun
  test : s.store.hasRun reader.subject = false

/-- What a write leaves to the walk: a run that is still there has its rows, and perhaps
further ones behind them, and a run that is gone does not come back. -/
structure Written (testId : String) (s t : TraceState Payload) : Prop where
  pages : t.pages = s.pages
  next : t.next = s.next
  begun : s.begun ⊆ t.begun
  rows : ∀ runId ∈ s.begun, t.store.hasRun runId = true → s.store.hasRun runId = true ∧
    ∃ more, t.store.runTestRows runId testId = s.store.runTestRows runId testId ++ more

theorem traceSound_start (reader : TraceReader) :
    TraceSound reader (TraceState.start : TraceState Payload) where
  numbered := ⟨.nil, fun _ member => absurd member List.not_mem_nil,
    fun _ member => absurd member List.not_mem_nil⟩
  known := fun _ known => absurd known Bool.false_ne_true
  test := rfl

section Writes
variable {reader : TraceReader} {s : TraceState Payload} {store : Store Payload}

/-- Writes that leave the events alone. -/
theorem TraceSound.of_events (sound : TraceSound reader s) (begun : List String)
    (events : store.events = s.store.events) (grown : s.begun ⊆ begun)
    (runs : ∀ id, store.hasRun id = true ↔ s.store.hasRun id = true ∨
      (id ∈ begun ∧ id ∉ s.begun ∧ id ≠ reader.subject)) :
    TraceSound reader { s with store := store, begun := begun } ∧
      Written reader.subject s { s with store := store, begun := begun } := by
  refine ⟨⟨⟨?_, ?_, ?_⟩, ?_, ?_⟩, ⟨rfl, rfl, grown, ?_⟩⟩
  · exact events ▸ sound.numbered.upwards
  · exact events ▸ sound.numbered.stored
  · intro row member
    rw [events] at member
    exact (runs _).mpr (.inl (sound.numbered.owned row member))
  · intro id present
    rcases (runs id).mp present with old | new
    · exact grown (sound.known id old)
    · exact new.1
  · rw [Bool.eq_false_iff]
    intro present
    rcases (runs _).mp present with old | new
    · rw [sound.test] at old
      cases old
    · exact new.2.2 rfl
  · intro runId known present
    refine ⟨?_, [], ?_⟩
    · exact ((runs runId).mp present).resolve_right fun new => new.2.1 known
    · simp only [Store.runTestRows, events, List.append_nil]

theorem TraceSound.appendEvent (sound : TraceSound reader s) {runId testId : String}
    {event : Blob Event}
    (upwards : ∀ row ∈ s.store.events, row.runId = runId → row.sequence < event.content.sequence)
    (appended : s.store.appendEvent runId testId event = .ok store) :
    TraceSound reader { s with store := store } ∧
      Written reader.subject s { s with store := store } := by
  obtain ⟨small, known, rfl⟩ := Store.appendEvent_ok appended
  refine ⟨⟨⟨?_, ?_, ?_⟩, sound.known, sound.test⟩, ⟨rfl, rfl, fun _ => id, ?_⟩⟩
  · rw [List.pairwise_append]
    refine ⟨sound.numbered.upwards, List.pairwise_singleton _ _, ?_⟩
    intro a member b last same
    rw [List.mem_singleton] at last
    subst last
    exact upwards a member same
  · intro row member
    rcases List.mem_append.mp member with old | new
    · exact sound.numbered.stored row old
    · rw [List.mem_singleton] at new
      subst new
      exact ⟨rfl, small⟩
  · intro row member
    rcases List.mem_append.mp member with old | new
    · exact sound.numbered.owned row old
    · rw [List.mem_singleton] at new
      subst new
      exact known
  · intro other _ present
    exact ⟨present, _, List.filter_append _ _⟩

theorem TraceSound.deleteRuns (sound : TraceSound reader s) (doomed : List String) :
    TraceSound reader { s with store := s.store.deleteRuns doomed } ∧
      Written reader.subject s { s with store := s.store.deleteRuns doomed } := by
  have runs := Store.hasRun_deleteRuns s.store doomed
  refine ⟨⟨⟨?_, ?_, ?_⟩, ?_, ?_⟩, ⟨rfl, rfl, fun _ => id, ?_⟩⟩
  · exact sound.numbered.upwards.sublist List.filter_sublist
  · exact fun row member => sound.numbered.stored row (List.mem_filter.mp member).1
  · intro row member
    obtain ⟨old, stays⟩ := List.mem_filter.mp member
    exact (runs _).mpr ⟨sound.numbered.owned row old, by simpa using stays⟩
  · exact fun id present => sound.known id ((runs id).mp present).1
  · rw [Bool.eq_false_iff]
    intro present
    have old := ((runs _).mp present).1
    rw [sound.test] at old
    cases old
  · intro runId _ present
    obtain ⟨old, stays⟩ := (runs runId).mp present
    refine ⟨old, [], ?_⟩
    rw [List.append_nil, Store.runTestRows, Store.runTestRows, Store.deleteRuns, List.filter_filter]
    refine List.filter_congr fun row _ => ?_
    by_cases same : row.runId = runId
    · simp [same, stays]
    · simp [same]

end Writes

/-- A step writes, or reads the next page. -/
inductive TraceStepped (reader : TraceReader) (s t : TraceState Payload) : Prop where
  | wrote (written : Written reader.subject s t)
  | read (cursor : Option String) (page : EventPage) (due : s.next = some cursor)
      (answered : s.store.trace reader.subject cursor reader.limit reader.maxBytes = .ok page)
      (after : t = { s with
        next := page.nextCursor.map some
        pages := s.pages ++ [⟨s.store, page.items⟩] })

theorem traceStep_cases {reader : TraceReader} {s t : TraceState Payload} {a : TraceAction}
    (sound : TraceSound reader s) (h : traceStep reader s a = some t) :
    TraceSound reader t ∧ TraceStepped reader s t := by
  cases a with
  | beginRun run =>
    simp only [traceStep] at h
    split at h
    · cases h
    · rename_i fresh
      rw [not_or] at fresh
      obtain ⟨store, began, rfl⟩ := Option.map_eq_some_iff.mp h
      obtain ⟨events, runs⟩ := Store.beginRun_ok (Store.toOption_eq_some.mp began)
      have both := sound.of_events (run.id :: s.begun) events (List.subset_cons_self _ _)
        fun id => by
          rw [runs, List.mem_cons]
          constructor
          · rintro (old | rfl)
            · exact .inl old
            · exact .inr ⟨.inl rfl, fresh⟩
          · rintro (old | ⟨rfl | known, unknown, -⟩)
            · exact .inl old
            · exact .inr rfl
            · exact absurd known unknown
      exact both.imp_right .wrote
  | appendEvent runId testId event =>
    simp only [traceStep] at h
    split at h
    · cases h
    · rename_i upwards
      obtain ⟨store, appended, rfl⟩ := Option.map_eq_some_iff.mp h
      refine (sound.appendEvent ?_ (Store.toOption_eq_some.mp appended)).imp_right .wrote
      intro row member same
      by_contra later
      exact upwards (List.any_eq_true.mpr ⟨row, member, by simp [same]; omega⟩)
  | finishRun runId desired currentRevision finishedAt =>
    obtain ⟨⟨status, store⟩, finished, rfl⟩ := Option.map_eq_some_iff.mp h
    obtain ⟨events, runs⟩ := Store.finishRun_ok (Store.toOption_eq_some.mp finished)
    have both := sound.of_events s.begun events (fun _ => id) fun id => by
      rw [runs]
      exact ⟨.inl, fun either => either.resolve_right fun new => new.2.1 new.1⟩
    exact both.imp_right .wrote
  | deleteRuns doomed =>
    obtain rfl := Option.some.inj h
    exact (sound.deleteRuns doomed).imp_right .wrote
  | readPage =>
    obtain ⟨cursor, due, rest⟩ := Option.bind_eq_some_iff.mp h
    obtain ⟨page, answered, rfl⟩ := Option.map_eq_some_iff.mp rest
    exact ⟨⟨sound.numbered, sound.known, sound.test⟩,
      .read cursor page due (Store.toOption_eq_some.mp answered) rfl⟩

end Walaru
