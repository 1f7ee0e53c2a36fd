import Walaru.Guarantees.StorePaging
import Walaru.Source.Core.TraceReads

/-!
# A walk through a trace while the test runs again

A cursor is a sequence number, and every page resolves the test to its last run again. The
pages of a walk belong together exactly when they all resolve to one run: then they return
each event of the run's trace once, although the run may go on and others may begin.
-/
namespace Walaru
open Lib.PageWalk Lib.BoundedPage

variable {Payload : Type}

/-- The run that the test resolves to when the page is read. -/
def TracePage.run (p : TracePage Payload) (subject : String) : Option String :=
  p.store.latestRunOf subject

def returned (pages : List (TracePage Payload)) : List Event := (pages.map TracePage.items).flatten

/-- The events come from one run, and they are its trace of the test when the walk ends. -/
def OneRun (subject : String) (pages : List (TracePage Payload)) : Prop :=
  ∃ run, (∀ p ∈ pages, p.items ≠ [] → p.run subject = run) ∧
    ∀ last ∈ pages.getLast?, returned pages = last.store.traceIn subject run

/-- The test resolves to one run at all requests. -/
def SameRun (subject : String) (pages : List (TracePage Payload)) : Prop :=
  ∀ p ∈ pages, ∀ q ∈ pages, p.run subject = q.run subject

/-- The rows behind a cursor. -/
def rowsBehind (s : Store Payload) (runId testId : String) (cursor : Option String) : List EventRow :=
  (s.runTestRows runId testId).filter fun row => (cursor.bind parseI64).getD (-1) < (row.sequence : Int)

/-- What a page shows of the run that the test resolves to. -/
inductive TraceRead (s : Store Payload) (subject : String) (cursor : Option String) (page : EventPage) :
    Prop where
  | nothing (latest : s.latestRunOf subject = none) (empty : page = ⟨[], none⟩)
  | last (runId : String) (latest : s.latestRunOf subject = some runId)
      (items : page.items = (rowsBehind s runId subject cursor).map fun row => row.payload.content)
      (done : page.nextCursor = none)
  | more (runId : String) (latest : s.latestRunOf subject = some runId) (kept rest : List EventRow)
      (end_ : EventRow) (split : rowsBehind s runId subject cursor = kept ++ rest) (left : rest ≠ [])
      (ends : kept.getLast? = some end_)
      (items : page.items = kept.map fun row => row.payload.content)
      (next : page.nextCursor = some (toString end_.sequence))

theorem trace_read {s : Store Payload} (numbered : s.Numbered) (reader : TraceReader)
    (test : s.hasRun reader.subject = false) {cursor : Option String} {page : EventPage}
    (answered : s.trace reader.subject cursor reader.limit reader.maxBytes = .ok page) :
    TraceRead s reader.subject cursor page := by
  rw [Store.trace, test, if_neg Bool.false_ne_true] at answered
  cases latest : s.latestRunOf reader.subject with
  | none =>
    rw [latest] at answered
    exact .nothing latest (Except.ok.inj answered).symm
  | some runId =>
    have positive := reader.positive
    have addressable := reader.addressable
    have fetch : max (min (reader.limit + 1) usizeMax) 1 = reader.limit + 1 := by
      unfold usizeMax
      omega
    have room : ¬ 2 ^ 63 ≤ reader.limit + 1 := by omega
    rw [latest] at answered
    simp only [Store.eventsFrom, Store.eventsMatching, fetch, room, if_false,
      numbered.eventRows_eq] at answered
    obtain rfl := Except.ok.inj answered
    obtain ⟨rest, split, flag, nonempty⟩ := fill_page (fun row : EventRow => row.payload.jsonLength)
      reader.maxBytes positive (rowsBehind s runId reader.subject cursor)
    by_cases left : rest = []
    · have none_ : ¬ (fill usizeMax (fun row : EventRow => row.payload.jsonLength) reader.limit
          reader.maxBytes 0 0 ((rowsBehind s runId reader.subject cursor).take (reader.limit + 1))).2 =
            true := fun some_ => flag.mp some_ left
      refine .last runId latest ?_ ?_
      · rw [left, List.append_nil] at split
        exact congrArg (List.map fun row : EventRow => row.payload.content) split.symm
      · exact if_neg none_
    · obtain ⟨front, end_, whole⟩ := List.eq_nil_or_concat _ |>.resolve_left (nonempty left)
      have ends : (fill usizeMax (fun row : EventRow => row.payload.jsonLength) reader.limit
          reader.maxBytes 0 0 ((rowsBehind s runId reader.subject cursor).take
            (reader.limit + 1))).1.getLast? = some end_ := by
        rw [whole]
        simp
      refine .more runId latest _ rest end_ split left ends rfl ?_
      have member : end_ ∈ s.events := by
        have inside : end_ ∈ rowsBehind s runId reader.subject cursor := by
          rw [split]
          exact List.mem_append_left _ (List.mem_of_getLast? ends)
        exact (List.mem_filter.mp (List.mem_filter.mp inside).1).1
      refine (if_pos (flag.mpr left)).trans ?_
      rw [List.getLast?_map]
      change Option.map _ (Option.map _ (fill usizeMax (fun row : EventRow => row.payload.jsonLength)
        reader.limit reader.maxBytes 0 0 ((rowsBehind s runId reader.subject cursor).take
          (reader.limit + 1))).1.getLast?) = _
      rw [ends, Option.map_some, Option.map_some, (numbered.stored end_ member).1]

/-- The pages so far are the beginning of a run's trace, up to the cursor, and something of
the trace is left; or the run is gone for good. -/
def Left (testId : String) (s : TraceState Payload) (runId cursor : String) : Prop :=
  runId ∈ s.begun ∧ (s.store.hasRun runId = true → ∃ done rest end_,
    s.store.runTestRows runId testId = done ++ rest ∧ rest ≠ [] ∧ done.getLast? = some end_ ∧
      cursor = toString end_.sequence ∧ returned s.pages = done.map fun row => row.payload.content)

/-- What is known of a walk that is over: only its last page can be empty, pages of one run
are its trace, and a run that another page replaces was not read to its end. -/
structure Ended (testId : String) (front : List (TracePage Payload)) (last : TracePage Payload) :
    Prop where
  occupied : ∀ p ∈ front, p.items ≠ []
  whole : SameRun testId (front ++ [last]) →
    returned (front ++ [last]) = last.store.traceIn testId (last.run testId)
  unread : front ≠ [] → ∀ runId, (∀ p ∈ front, p.run testId = some runId) →
    returned front ≠ last.store.traceIn testId (some runId)

structure Walking (testId : String) (s : TraceState Payload) : Prop where
  resolved : ∀ p ∈ s.pages, p.items ≠ [] → ∃ runId, p.run testId = some runId
  first : s.next = some none → s.pages = []
  occupied : ∀ cursor, s.next = some (some cursor) → s.pages ≠ [] ∧ ∀ p ∈ s.pages, p.items ≠ []
  going : ∀ cursor runId, s.next = some (some cursor) →
    (∀ p ∈ s.pages, p.run testId = some runId) → Left testId s runId cursor
  ended : s.next = none → ∃ front last, s.pages = front ++ [last] ∧ Ended testId front last

section Walk
variable {reader : TraceReader} {s t : TraceState Payload} {testId : String}

theorem walking_start : Walking testId (TraceState.start : TraceState Payload) where
  resolved := fun _ member => absurd member List.not_mem_nil
  first := fun _ => rfl
  occupied := fun _ due => by cases due
  going := fun _ _ due => by cases due
  ended := fun finished => by cases finished

theorem Left.written {runId cursor : String} (left : Left testId s runId cursor)
    (written : Written testId s t) : Left testId t runId cursor := by
  refine ⟨written.begun left.1, fun present => ?_⟩
  obtain ⟨before, more, grown⟩ := written.rows runId left.1 present
  obtain ⟨done, rest, end_, split, some_, ends, place, same⟩ := left.2 before
  refine ⟨done, rest ++ more, end_, ?_, by simp [some_], ends, place, ?_⟩
  · rw [grown, split, List.append_assoc]
  · rw [written.pages, same]

theorem Walking.written (walking : Walking testId s) (written : Written testId s t) :
    Walking testId t where
  resolved := written.pages ▸ walking.resolved
  first := by
    rw [written.pages, written.next]
    exact walking.first
  occupied := by
    rw [written.pages, written.next]
    exact walking.occupied
  going := by
    intro cursor runId
    rw [written.next, written.pages]
    exact fun due same => (walking.going cursor runId due same).written written
  ended := by
    rw [written.pages, written.next]
    exact walking.ended

theorem returned_concat (pages : List (TracePage Payload)) (p : TracePage Payload) :
    returned (pages ++ [p]) = returned pages ++ p.items := by
  simp [returned]

/-- Where the walk stands in the trace of the run: at its start, or behind the rows read. -/
theorem Walking.position (walking : Walking testId s) (sound : TraceSound reader s)
    {cursor : Option String} (due : s.next = some cursor) {runId : String}
    (present : s.store.hasRun runId = true) (same : ∀ p ∈ s.pages, p.run testId = some runId) :
    ∃ done, s.store.runTestRows runId testId = done ++ rowsBehind s.store runId testId cursor ∧
      returned s.pages = (done.map fun row => row.payload.content) ∧
      (cursor ≠ none → rowsBehind s.store runId testId cursor ≠ []) := by
  have sorted := sound.numbered.runTestRows_sorted runId testId
  cases cursor with
  | none =>
    refine ⟨[], ?_, ?_, fun some_ => absurd rfl some_⟩
    · have all : ∀ row ∈ s.store.runTestRows runId testId, (-1 : Int) < (row.sequence : Int) :=
        fun row _ => by omega
      rw [rowsBehind, List.nil_append]
      exact (List.filter_eq_self.mpr (by simpa using all)).symm
    · rw [walking.first due]
      rfl
  | some cursor =>
    obtain ⟨done, rest, end_, split, some_, ends, place, read⟩ :=
      (walking.going cursor runId due same).2 present
    have stored : end_.sequence < 2 ^ 63 := by
      have member : end_ ∈ s.store.runTestRows runId testId := by
        rw [split]
        exact List.mem_append_left _ (List.mem_of_getLast? ends)
      exact (sound.numbered.stored end_ (List.mem_filter.mp member).1).2
    have behind : rowsBehind s.store runId testId (some cursor) = rest := by
      rw [split] at sorted
      have later := filter_after_last (fun row : EventRow => row.sequence) sorted ends
      rw [rowsBehind, split, place, Option.bind_some, parseI64_toString stored, Option.getD_some]
      simpa only [Int.ofNat_lt] using later
    exact ⟨done, behind ▸ split, read, fun _ => behind ▸ some_⟩

/-- A run that is not read to its end is not what the walk returned. -/
theorem Walking.unread (walking : Walking testId s) (sound : TraceSound reader s)
    {cursor : Option String} (due : s.next = some cursor) (some_ : s.pages ≠ []) {runId : String}
    (same : ∀ p ∈ s.pages, p.run testId = some runId) :
    returned s.pages ≠ s.store.traceIn testId (some runId) := by
  cases cursor with
  | none => exact absurd (walking.first due) some_
  | some cursor =>
    intro whole
    rw [Store.traceIn] at whole
    by_cases present : s.store.hasRun runId = true
    · obtain ⟨done, split, read, left⟩ := walking.position sound due present same
      rw [read, split, List.map_append] at whole
      have lengths := congrArg List.length whole
      have more := List.length_pos_of_ne_nil (left (by simp))
      simp only [List.length_map, List.length_append] at lengths
      omega
    · have none_ : s.store.runTestRows runId testId = [] := by
        rw [Store.runTestRows, List.filter_eq_nil_iff]
        intro row member named
        simp only [Bool.and_eq_true, decide_eq_true_eq] at named
        exact present (named.1 ▸ sound.numbered.owned row member)
      rw [none_, List.map_nil] at whole
      obtain ⟨p, member⟩ := List.exists_mem_of_ne_nil _ some_
      have empty := List.flatten_eq_nil_iff.mp whole p.items (List.mem_map_of_mem member)
      exact (walking.occupied cursor due).2 p member empty

theorem Walking.items_of_due (walking : Walking testId s) {cursor : Option String}
    (due : s.next = some cursor) : ∀ p ∈ s.pages, p.items ≠ [] := by
  cases cursor with
  | none =>
    rw [walking.first due]
    exact fun _ member => absurd member List.not_mem_nil
  | some cursor => exact (walking.occupied cursor due).2

/-- A page that is not the last goes on from where the walk stands. -/
theorem Walking.more (walking : Walking reader.subject s) (sound : TraceSound reader s)
    {cursor : Option String} (due : s.next = some cursor) {items : List Event} {runId : String}
    {kept rest : List EventRow} {end_ : EventRow}
    (latest : s.store.latestRunOf reader.subject = some runId)
    (split : rowsBehind s.store runId reader.subject cursor = kept ++ rest) (left : rest ≠ [])
    (ends : kept.getLast? = some end_) (shown : items = kept.map fun row => row.payload.content) :
    Walking reader.subject { s with
      next := some (some (toString end_.sequence))
      pages := s.pages ++ [⟨s.store, items⟩] } where
  resolved := by
    intro p member some_
    rcases List.mem_append.mp member with old | new
    · exact walking.resolved p old some_
    · rw [List.mem_singleton] at new
      subst new
      exact ⟨runId, latest⟩
  first := fun impossible => by cases impossible
  occupied := by
    refine fun _ _ => ⟨by simp, fun p member => ?_⟩
    rcases List.mem_append.mp member with old | new
    · exact walking.items_of_due due p old
    · rw [List.mem_singleton] at new
      subst new
      have occupied : kept ≠ [] := by
        intro empty
        rw [empty] at ends
        cases ends
      simpa [shown] using occupied
  going := by
    intro next other again same
    obtain rfl := Option.some.inj (Option.some.inj again)
    have here : s.store.latestRunOf reader.subject = some other := same ⟨s.store, items⟩ (by simp)
    obtain rfl := Option.some.inj (latest.symm.trans here)
    have present := Store.hasRun_latestRunOf latest
    refine ⟨sound.known runId present, fun _ => ?_⟩
    obtain ⟨done, place, read, -⟩ := walking.position sound due present
      fun p member => same p (List.mem_append_left _ member)
    refine ⟨done ++ kept, rest, end_, ?_, left, ?_, rfl, ?_⟩
    · rw [place, split, List.append_assoc]
    · rw [List.getLast?_append, ends]
      rfl
    · rw [returned_concat, read, shown, List.map_append]
  ended := fun impossible => by cases impossible

/-- A last page ends the walk. -/
theorem Walking.last (walking : Walking reader.subject s) (sound : TraceSound reader s)
    {cursor : Option String} (due : s.next = some cursor) {items : List Event}
    (shown : match s.store.latestRunOf reader.subject with
      | none => items = []
      | some runId => items =
          (rowsBehind s.store runId reader.subject cursor).map fun row => row.payload.content) :
    Walking reader.subject { s with next := none, pages := s.pages ++ [⟨s.store, items⟩] } where
  resolved := by
    intro p member some_
    rcases List.mem_append.mp member with old | new
    · exact walking.resolved p old some_
    · rw [List.mem_singleton] at new
      subst new
      cases latest : s.store.latestRunOf reader.subject with
      | none =>
        rw [latest] at shown
        exact absurd shown some_
      | some runId => exact ⟨runId, latest⟩
  first := fun impossible => by cases impossible
  occupied := fun _ impossible => by cases impossible
  going := fun _ _ impossible => by cases impossible
  ended := by
    refine fun _ => ⟨s.pages, ⟨s.store, items⟩, rfl, walking.items_of_due due, ?_, ?_⟩
    · intro same
      have before : ∀ p ∈ s.pages, p.run reader.subject = s.store.latestRunOf reader.subject :=
        fun p member => same p (List.mem_append_left _ member) ⟨s.store, items⟩ (by simp)
      change returned (s.pages ++ [⟨s.store, items⟩]) =
        s.store.traceIn reader.subject (s.store.latestRunOf reader.subject)
      rw [returned_concat]
      cases latest : s.store.latestRunOf reader.subject with
      | none =>
        rw [latest] at shown before
        have none_ : s.pages = [] := by
          rw [List.eq_nil_iff_forall_not_mem]
          intro p member
          obtain ⟨runId, run⟩ := walking.resolved p member (walking.items_of_due due p member)
          rw [before p member] at run
          cases run
        rw [none_, shown]
        rfl
      | some runId =>
        rw [latest] at shown before
        obtain ⟨done, place, read, -⟩ :=
          walking.position sound due (Store.hasRun_latestRunOf latest) before
        rw [read, shown, Store.traceIn, place, List.map_append]
    · exact fun some_ runId same => walking.unread sound due some_ same

theorem Walking.step {a : TraceAction} (walking : Walking reader.subject s)
    (sound : TraceSound reader s) (h : traceStep reader s a = some t) : Walking reader.subject t := by
  cases (traceStep_cases sound h).2 with
  | wrote written => exact walking.written written
  | read cursor page due answered after =>
    subst after
    cases trace_read sound.numbered reader sound.test answered with
    | nothing latest empty =>
      subst empty
      exact walking.last sound due (by rw [latest])
    | last runId latest items done =>
      rw [done]
      exact walking.last sound due (by rw [latest]; exact items)
    | more runId latest kept rest end_ split left ends items next =>
      rw [next]
      exact walking.more sound due latest split left ends items

end Walk

/-- In every run of writes and page requests that ends the walk, its pages are the trace of
one run exactly when the test resolved to one run at all requests. -/
theorem trace_walk_one_run_iff (reader : TraceReader) (actions : List TraceAction)
    (s : TraceState Payload) (ran : Lib.Trace.run (traceStep reader) .start actions = some s)
    (finished : s.next = none) : OneRun reader.subject s.pages ↔ SameRun reader.subject s.pages := by
  have both : TraceSound reader s ∧ Walking reader.subject s := by
    refine Lib.Trace.run_invariant (P := fun s => TraceSound reader s ∧ Walking reader.subject s)
      (traceStep reader) ?_ ran ⟨traceSound_start reader, walking_start⟩
    exact fun s a t holds h => ⟨(traceStep_cases holds.1 h).1, holds.2.step holds.1 h⟩
  obtain ⟨front, last, pages, ended⟩ := both.2.ended finished
  have resolved := both.2.resolved
  rw [pages] at resolved ⊢
  constructor
  · rintro ⟨run, single, whole⟩
    have same := whole last (by simp)
    have before : ∀ p ∈ front, p.run reader.subject = run := fun p member =>
      single p (List.mem_append_left _ member) (ended.occupied p member)
    -- an empty last page would leave the run of the others unread
    have here : front = [] ∨ last.run reader.subject = run := by
      by_cases empty : last.items = []
      · rw [returned_concat, empty, List.append_nil] at same
        by_contra neither
        rw [not_or] at neither
        obtain ⟨p, member⟩ := List.exists_mem_of_ne_nil _ neither.1
        obtain ⟨runId, run_⟩ := resolved p (List.mem_append_left _ member) (ended.occupied p member)
        obtain rfl : run = some runId := (before p member).symm.trans run_
        exact ended.unread neither.1 runId before same
      · exact .inr (single last (by simp) empty)
    rcases here with rfl | latest
    · intro p first q second
      simp only [List.nil_append, List.mem_singleton] at first second
      rw [first, second]
    · have all : ∀ p ∈ front ++ [last], p.run reader.subject = run := by
        intro p member
        rcases List.mem_append.mp member with old | new
        · exact before p old
        · rw [List.mem_singleton.mp new]
          exact latest
      exact fun p first q second => (all p first).trans (all q second).symm
  · intro same
    refine ⟨last.run reader.subject, fun p member _ => same p member last (by simp), ?_⟩
    intro other ends
    rw [List.getLast?_concat, Option.mem_some_iff] at ends
    rw [← ends]
    exact ended.whole same

section Sample

def tracedEvent (id : String) (sequence : Nat) : Blob Event :=
  ⟨{ listedEvent sequence with id := id }, 300, 90⟩

def tracedRow (id runId : String) (sequence : Nat) : EventRow :=
  ⟨id, runId, "demo.AppTest#runs", sequence, tracedEvent id sequence⟩

def singleReader : TraceReader := ⟨"demo.AppTest#runs", 1, 65536, Nat.one_pos, by decide⟩

/-- A run of the test with two events. -/
def twoEvents (runId first second startedAt : String) : List TraceAction :=
  [.beginRun ⟨runId, "rev-1", "", startedAt⟩,
    .appendEvent runId "demo.AppTest#runs" (tracedEvent first 0),
    .appendEvent runId "demo.AppTest#runs" (tracedEvent second 1)]

def onceStore : Store Unit :=
  { Store.empty with
    runs := [⟨"run-1", "rev-1", "", .running, "2026-01-01T00:00:00+00:00", none⟩]
    events := [tracedRow "evt-0" "run-1" 0, tracedRow "evt-1" "run-1" 1] }

def twiceStore : Store Unit :=
  { Store.empty with
    runs := onceStore.runs ++
      [⟨"run-2", "rev-1", "", .running, "2026-01-01T00:01:00+00:00", none⟩]
    events := onceStore.events ++ [tracedRow "evt-2" "run-2" 0, tracedRow "evt-3" "run-2" 1] }

theorem onceStore_numbered : onceStore.Numbered := ⟨by decide, by decide, by decide⟩

theorem twiceStore_numbered : twiceStore.Numbered := ⟨by decide, by decide, by decide⟩

/-- A page of one row. -/
def singlePage (rows : List EventRow) : EventPage :=
  let cut := fill usizeMax (fun row : EventRow => row.payload.jsonLength) 1 65536 0 0 (rows.take 2)
  let items := cut.1.map fun row => row.payload.content
  ⟨items, if cut.2 then items.getLast?.map fun event => toString event.sequence else none⟩

theorem singleReader_page (s : TraceState Unit) (runId : String) (numbered : s.store.Numbered)
    (test : s.store.hasRun "demo.AppTest#runs" = false)
    (latest : s.store.latestRunOf "demo.AppTest#runs" = some runId) {cursor : Option String}
    (due : s.next = some cursor) {page : EventPage}
    (shown : singlePage (rowsBehind s.store runId "demo.AppTest#runs" cursor) = page) :
    traceStep singleReader s .readPage = some { s with
      next := page.nextCursor.map some
      pages := s.pages ++ [⟨s.store, page.items⟩] } := by
  have answered : s.store.trace "demo.AppTest#runs" cursor 1 65536 = .ok page := by
    rw [Store.trace, test, if_neg Bool.false_ne_true, latest]
    simp only [Store.eventsFrom, Store.eventsMatching, numbered.eventRows_eq]
    exact congrArg Except.ok shown
  rw [traceStep, due, Option.bind_some]
  change (s.store.trace "demo.AppTest#runs" cursor 1 65536).toOption.map _ = _
  rw [answered]
  rfl

/-- Where both walks stand after their first page. -/
def onceRead : TraceState Unit :=
  ⟨onceStore, ["run-1"], some (some "0"), [⟨onceStore, [(tracedEvent "evt-0" 0).content]⟩]⟩

theorem onceRead_reached :
    Lib.Trace.run (traceStep singleReader) (.start : TraceState Unit)
        (twoEvents "run-1" "evt-0" "evt-1" "2026-01-01T00:00:00+00:00" ++ [.readPage]) =
      some onceRead := by
  refine (Lib.Trace.run_snoc_eq_some _).mpr ⟨⟨onceStore, ["run-1"], some none, []⟩, rfl, ?_⟩
  exact singleReader_page ⟨onceStore, ["run-1"], some none, []⟩ "run-1" onceStore_numbered (by decide)
    (by decide) rfl rfl

/-- A run of another test. -/
def otherTest : List TraceAction :=
  [.beginRun ⟨"run-2", "rev-1", "", "2026-01-01T00:01:00+00:00"⟩,
    .appendEvent "run-2" "demo.AppTest#other" (tracedEvent "evt-2" 0)]

def otherStore : Store Unit :=
  { Store.empty with
    runs := twiceStore.runs
    events := onceStore.events ++
      [{ tracedRow "evt-2" "run-2" 0 with testId := "demo.AppTest#other" }] }

theorem otherStore_numbered : otherStore.Numbered := ⟨by decide, by decide, by decide⟩

/-- A run that does not report the test is written between the two pages. -/
theorem trace_walk_one_run_iff_demo :
    OneRun "demo.AppTest#runs" (onceRead.pages ++
      [⟨otherStore, [(tracedEvent "evt-1" 1).content]⟩]) := by
  have ran : Lib.Trace.run (traceStep singleReader) (.start : TraceState Unit)
      (twoEvents "run-1" "evt-0" "evt-1" "2026-01-01T00:00:00+00:00" ++ [.readPage] ++ otherTest ++
        [.readPage]) =
      some ⟨otherStore, ["run-2", "run-1"], none,
        onceRead.pages ++ [⟨otherStore, [(tracedEvent "evt-1" 1).content]⟩]⟩ := by
    refine (Lib.Trace.run_snoc_eq_some _).mpr
      ⟨⟨otherStore, ["run-2", "run-1"], some (some "0"), onceRead.pages⟩, ?_, ?_⟩
    · rw [Lib.Trace.run_append_eq_some]
      exact ⟨onceRead, onceRead_reached, rfl⟩
    · exact singleReader_page ⟨otherStore, ["run-2", "run-1"], some (some "0"), onceRead.pages⟩
        "run-1" otherStore_numbered (by decide) (by decide) rfl rfl
  refine (trace_walk_one_run_iff singleReader _ _ ran rfl).mpr ?_
  have latest : ∀ p ∈ onceRead.pages ++ [⟨otherStore, [(tracedEvent "evt-1" 1).content]⟩],
      p.run "demo.AppTest#runs" = some "run-1" := by
    intro p member
    simp only [onceRead, List.singleton_append, List.mem_cons, List.not_mem_nil, or_false] at member
    rcases member with rfl | rfl <;> decide
  exact fun p first q second => (latest p first).trans (latest q second).symm

/-- A second run of the test between two pages: the walk goes on in its events. -/
theorem trace_walk_splices_runs :
    ¬ ∀ (reader : TraceReader) (actions : List TraceAction) (s : TraceState Unit),
      Lib.Trace.run (traceStep reader) .start actions = some s → s.next = none →
        OneRun reader.subject s.pages := by
  intro claim
  have ran : Lib.Trace.run (traceStep singleReader) (.start : TraceState Unit)
      (twoEvents "run-1" "evt-0" "evt-1" "2026-01-01T00:00:00+00:00" ++ [.readPage] ++
        twoEvents "run-2" "evt-2" "evt-3" "2026-01-01T00:01:00+00:00" ++ [.readPage]) =
      some ⟨twiceStore, ["run-2", "run-1"], none,
        onceRead.pages ++ [⟨twiceStore, [(tracedEvent "evt-3" 1).content]⟩]⟩ := by
    refine (Lib.Trace.run_snoc_eq_some _).mpr
      ⟨⟨twiceStore, ["run-2", "run-1"], some (some "0"), onceRead.pages⟩, ?_, ?_⟩
    · rw [Lib.Trace.run_append_eq_some]
      exact ⟨onceRead, onceRead_reached, rfl⟩
    · exact singleReader_page ⟨twiceStore, ["run-2", "run-1"], some (some "0"), onceRead.pages⟩
        "run-2" twiceStore_numbered (by decide) (by decide) rfl rfl
  obtain ⟨run, single, -⟩ := claim singleReader _ _ ran rfl
  have first := single ⟨onceStore, [(tracedEvent "evt-0" 0).content]⟩ (by simp [onceRead]) (by simp)
  have second := single ⟨twiceStore, [(tracedEvent "evt-3" 1).content]⟩ (by simp) (by simp)
  have apart : onceStore.latestRunOf "demo.AppTest#runs" ≠ twiceStore.latestRunOf "demo.AppTest#runs" := by
    decide
  exact apart (first.trans second.symm)

end Sample

end Walaru
