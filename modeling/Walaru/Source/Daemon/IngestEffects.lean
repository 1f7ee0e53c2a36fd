import Mathlib.Data.List.Nodup
import Walaru.Source.Daemon.Ingest

/-!
# What ingestion writes

Reading the stream appends one event row for each parsed event and touches no
table but `events` and `failures`. The test tables are replaced only after the
whole stream was read, and that part cannot fail: a test's rows are deleted
first and its sets have no repetition.
-/
namespace Walaru
open Lib.StateResult

/-- Only the event and failure tables differ, and `rows` were appended. -/
structure EventsAppended (rows : List EventRow) (s t : EvidenceStore) : Prop where
  runs : t.runs = s.runs
  tests : t.tests = s.tests
  dependencies : t.dependencies = s.dependencies
  coverage : t.coverage = s.coverage
  recordings : t.recordings = s.recordings
  verificationCache : t.verificationCache = s.verificationCache
  revisionManifests : t.revisionManifests = s.revisionManifests
  events : t.events = s.events ++ rows

namespace EventsAppended

theorem refl (s : EvidenceStore) : EventsAppended [] s s :=
  ⟨rfl, rfl, rfl, rfl, rfl, rfl, rfl, by simp⟩

theorem trans {rows more : List EventRow} {s t u : EvidenceStore}
    (first : EventsAppended rows s t) (second : EventsAppended more t u) :
    EventsAppended (rows ++ more) s u where
  runs := second.runs.trans first.runs
  tests := second.tests.trans first.tests
  dependencies := second.dependencies.trans first.dependencies
  coverage := second.coverage.trans first.coverage
  recordings := second.recordings.trans first.recordings
  verificationCache := second.verificationCache.trans first.verificationCache
  revisionManifests := second.revisionManifests.trans first.revisionManifests
  events := by rw [second.events, first.events, List.append_assoc]

theorem single (s : EvidenceStore) (row : EventRow) :
    EventsAppended [row] s { s with events := s.events ++ [row] } :=
  ⟨rfl, rfl, rfl, rfl, rfl, rfl, rfl, rfl⟩

end EventsAppended

@[simp] theorem checkCancellation_ok {c : Bool} {u : Unit} {s t : EvidenceStore} :
    checkCancellation c s = .ok u t ↔ c = false ∧ s = t := by
  cases c <;> simp [checkCancellation]

@[simp] theorem checkCancellation_error {c : Bool} {e : VerifierError} {s t : EvidenceStore} :
    checkCancellation c s = .error e t ↔ (c = true ∧ .cancelled = e) ∧ s = t := by
  cases c <;> simp [checkCancellation]

@[simp] theorem checkEventCap_ok {st : IngestState} {u : Unit} {s t : EvidenceStore} :
    checkEventCap st s = .ok u t ↔ st.eventCount < maxEventsPerRun ∧ s = t := by
  simp [checkEventCap]

theorem checkEventCap_error {st : IngestState} {e : VerifierError} {s t : EvidenceStore}
    (failure : checkEventCap st s = .error e t) : s = t := by
  simp only [checkEventCap, refuse_error] at failure
  exact failure.2

/-- The row of the event read after `n` others. -/
def eventRow (ctx : IngestContext) (n : Nat) (raw : Json) : EventRow where
  eventId := (publicEvent ctx n raw).id
  runId := ctx.runId
  testId := publicTestId raw
  sequence := n
  payload := eventBlob ctx.platform (publicEvent ctx n raw)

def eventRows (ctx : IngestContext) : Nat → List Json → List EventRow
  | _, [] => []
  | n, raw :: rest => eventRow ctx n raw :: eventRows ctx (n + 1) rest

theorem eventRows_append (ctx : IngestContext) (n : Nat) (raws more : List Json) :
    eventRows ctx n (raws ++ more) =
      eventRows ctx n raws ++ eventRows ctx (n + raws.length) more := by
  induction raws generalizing n with
  | nil => rfl
  | cons raw rest ih =>
    simp only [List.cons_append, eventRows, ih, List.length_cons]
    rw [show n + 1 + rest.length = n + (rest.length + 1) by omega]

theorem runId_of_mem_eventRows {ctx : IngestContext} {n : Nat} {raws : List Json} {row : EventRow}
    (member : row ∈ eventRows ctx n raws) : row.runId = ctx.runId := by
  induction raws generalizing n with
  | nil => simp [eventRows] at member
  | cons raw rest ih =>
    rcases List.mem_cons.mp member with rfl | later
    · rfl
    · exact ih later

/-- The accumulators after a list of events. -/
def observeAll (ctx : IngestContext) (st : IngestState) (raws : List Json) : IngestState :=
  raws.foldl (IngestState.observe ctx) st

@[simp] theorem observe_eventCount (ctx : IngestContext) (st : IngestState) (raw : Json) :
    (st.observe ctx raw).eventCount = st.eventCount + 1 := rfl

theorem observeAll_append (ctx : IngestContext) (st : IngestState) (raws more : List Json) :
    observeAll ctx st (raws ++ more) = observeAll ctx (observeAll ctx st raws) more :=
  List.foldl_append

theorem observeAll_eventCount (ctx : IngestContext) (st : IngestState) (raws : List Json) :
    (observeAll ctx st raws).eventCount = st.eventCount + raws.length := by
  induction raws generalizing st with
  | nil => rfl
  | cons raw rest ih =>
    have later := ih (st.observe ctx raw)
    simp only [observeAll, List.foldl_cons, List.length_cons, observe_eventCount] at later ⊢
    omega

theorem appendEvent_effects {s t : EvidenceStore} {runId testId : String} {event : Blob Event}
    (success : s.appendEvent runId testId event = .ok t) :
    s.hasRun runId ∧
      t = { s with events := s.events ++
              [⟨event.content.id, runId, testId, event.content.sequence, event⟩] } := by
  simp only [Store.appendEvent] at success
  split at success
  · cases success
  · split at success
    · cases success
    · split at success
      · cases success
      · rename_i present
        cases success
        exact ⟨by simpa using present, rfl⟩

theorem saveFailure_frame {s t : EvidenceStore} {failure : FailureRecord}
    (success : s.saveFailure failure = .ok t) : EventsAppended [] s t := by
  simp only [Store.saveFailure] at success
  split at success
  · cases success
  · cases success
    exact ⟨rfl, rfl, rfl, rfl, rfl, rfl, rfl, by simp⟩

theorem saveFinish_frame {ctx : IngestContext} {n : Nat} {raw : Json} {s t : EvidenceStore}
    {u : Unit} (success : saveFinish ctx n raw s = .ok u t) : EventsAppended [] s t := by
  simp only [saveFinish] at success
  split at success
  · exact saveFailure_frame (writing_ok.mp success)
  · obtain ⟨-, rfl⟩ := pure_ok.mp success
    exact .refl s

theorem saveFinish_error {ctx : IngestContext} {n : Nat} {raw : Json} {s t : EvidenceStore}
    {e : VerifierError} (failure : saveFinish ctx n raw s = .error e t) : s = t := by
  simp only [saveFinish] at failure
  split at failure
  · obtain ⟨-, -, -, same⟩ := writing_error.mp failure
    exact same
  · simp at failure

/-- One line adds the row of its event, if it has one, and counts it. -/
theorem ingestLine_effects {ctx : IngestContext} {index : Nat} {line : StreamLine}
    {st next : IngestState} {s t : EvidenceStore}
    (success : ingestLine ctx index line st s = .ok next t) :
    next = observeAll ctx st line.raw?.toList ∧
      EventsAppended (eventRows ctx st.eventCount line.raw?.toList) s t := by
  cases line with
  | unreadable message => simp [ingestLine] at success
  | blank =>
    simp only [ingestLine, bind_ok, checkCancellation_ok, pure_ok] at success
    obtain ⟨_, _, ⟨-, rfl⟩, rfl, rfl⟩ := success
    exact ⟨rfl, .refl _⟩
  | invalidJson =>
    simp only [ingestLine, bind_ok, throw_ok, and_false, exists_false] at success
  | event raw =>
    simp only [ingestLine, bind_ok, checkCancellation_ok, checkEventCap_ok, writing_ok,
      pure_ok] at success
    obtain ⟨_, _, ⟨-, rfl⟩, _, _, ⟨-, rfl⟩, _, u, appended, _, v, saved, rfl, rfl⟩ := success
    obtain ⟨-, rfl⟩ := appendEvent_effects appended
    refine ⟨rfl, ?_⟩
    have first := EventsAppended.single s (eventRow ctx st.eventCount raw)
    exact first.trans (saveFinish_frame saved)

/-- A line that stops ingestion has at most written its own event. -/
theorem ingestLine_error {ctx : IngestContext} {index : Nat} {line : StreamLine}
    {st : IngestState} {s t : EvidenceStore} {e : VerifierError}
    (failure : ingestLine ctx index line st s = .error e t) :
    ∃ raws, raws <+: line.raw?.toList ∧ EventsAppended (eventRows ctx st.eventCount raws) s t := by
  have unchanged : s = t → ∃ raws, raws <+: line.raw?.toList ∧
      EventsAppended (eventRows ctx st.eventCount raws) s t := by
    rintro rfl
    exact ⟨[], List.nil_prefix, .refl s⟩
  cases line with
  | unreadable message =>
    simp only [ingestLine, throw_error] at failure
    exact unchanged failure.2
  | blank =>
    simp only [ingestLine, bind_error, checkCancellation_error, pure_error, and_false,
      exists_false, or_false] at failure
    exact unchanged failure.2
  | invalidJson =>
    simp only [ingestLine, bind_error, checkCancellation_error, checkCancellation_ok,
      checkEventCap_ok, throw_error] at failure
    rcases failure with ⟨-, same⟩ | ⟨_, _, ⟨-, rfl⟩, failure⟩
    · exact unchanged same
    · rcases failure with full | ⟨_, _, ⟨-, rfl⟩, -, same⟩
      · exact unchanged (checkEventCap_error full)
      · exact unchanged same
  | event raw =>
    simp only [ingestLine, bind_error, checkCancellation_error, checkCancellation_ok,
      checkEventCap_ok, writing_error, writing_ok, pure_error, and_false, exists_false,
      or_false] at failure
    rcases failure with ⟨-, same⟩ | ⟨_, _, ⟨-, rfl⟩, failure⟩
    · exact unchanged same
    · rcases failure with full | ⟨_, _, ⟨-, rfl⟩, failure⟩
      · exact unchanged (checkEventCap_error full)
      · rcases failure with ⟨_, -, -, same⟩ | ⟨_, u, appended, saved⟩
        · exact unchanged same
        · obtain ⟨-, rfl⟩ := appendEvent_effects appended
          obtain rfl := saveFinish_error saved
          exact ⟨[raw], List.prefix_rfl, .single s _⟩

theorem filterMap_raw?_cons (line : StreamLine) (rest : List StreamLine) :
    (line :: rest).filterMap StreamLine.raw? =
      line.raw?.toList ++ rest.filterMap StreamLine.raw? := by
  cases h : line.raw? <;> simp [h]

/-- A whole stream adds one row for each event, in stream order. -/
theorem ingestLines_effects {ctx : IngestContext} {index : Nat} {stream : List StreamLine}
    {st next : IngestState} {s t : EvidenceStore}
    (success : ingestLines ctx index stream st s = .ok next t) :
    next = observeAll ctx st (stream.filterMap StreamLine.raw?) ∧
      EventsAppended (eventRows ctx st.eventCount (stream.filterMap StreamLine.raw?)) s t := by
  induction stream generalizing index st s with
  | nil =>
    obtain ⟨rfl, rfl⟩ := pure_ok.mp success
    exact ⟨rfl, .refl s⟩
  | cons line rest ih =>
    obtain ⟨mid, u, first, later⟩ := bind_ok.mp success
    obtain ⟨rfl, wrote⟩ := ingestLine_effects first
    obtain ⟨rfl, more⟩ := ih later
    rw [observeAll_eventCount] at more
    rw [filterMap_raw?_cons, eventRows_append]
    exact ⟨(observeAll_append ctx st _ _).symm, wrote.trans more⟩

/-- A stream that stops has written the rows of its first events. -/
theorem ingestLines_error {ctx : IngestContext} {index : Nat} {stream : List StreamLine}
    {st : IngestState} {s t : EvidenceStore} {e : VerifierError}
    (failure : ingestLines ctx index stream st s = .error e t) :
    ∃ raws, raws <+: stream.filterMap StreamLine.raw? ∧
      EventsAppended (eventRows ctx st.eventCount raws) s t := by
  induction stream generalizing index st s with
  | nil => exact absurd failure (by simp [ingestLines])
  | cons line rest ih =>
    rw [filterMap_raw?_cons]
    rcases bind_error.mp failure with first | ⟨mid, u, first, later⟩
    · obtain ⟨raws, begins, wrote⟩ := ingestLine_error first
      exact ⟨raws, begins.trans (List.prefix_append _ _), wrote⟩
    · obtain ⟨rfl, wrote⟩ := ingestLine_effects first
      obtain ⟨raws, begins, more⟩ := ih later
      rw [observeAll_eventCount] at more
      refine ⟨line.raw?.toList ++ raws, (List.prefix_append_right_inj _).mpr begins, ?_⟩
      rw [eventRows_append]
      exact wrote.trans more

/-- The paths that the accumulators hold for a test. -/
def learnedPaths (st : IngestState) (testId : String) : BTreeSet String :=
  (st.dependencies.get? testId).getD ∅

/-- The tests in `ids` have exactly the learned dependencies; every other row stays. -/
structure TestsRecorded (st : IngestState) (ids : List String) (s t : EvidenceStore) : Prop where
  runs : t.runs = s.runs
  events : t.events = s.events
  recordings : t.recordings = s.recordings
  verificationCache : t.verificationCache = s.verificationCache
  revisionManifests : t.revisionManifests = s.revisionManifests
  dependencies : ∀ row, row ∈ t.dependencies ↔
    (row.testId ∈ ids ∧ row.kind = "method" ∧ row.subject ∈ learnedPaths st row.testId) ∨
      (row.testId ∉ ids ∧ row ∈ s.dependencies)

theorem TestsRecorded.refl (st : IngestState) (s : EvidenceStore) : TestsRecorded st [] s s :=
  ⟨rfl, rfl, rfl, rfl, rfl, by simp⟩

theorem TestsRecorded.trans {st : IngestState} {ids more : List String} {s t u : EvidenceStore}
    (first : TestsRecorded st ids s t) (second : TestsRecorded st more t u) :
    TestsRecorded st (ids ++ more) s u where
  runs := second.runs.trans first.runs
  events := second.events.trans first.events
  recordings := second.recordings.trans first.recordings
  verificationCache := second.verificationCache.trans first.verificationCache
  revisionManifests := second.revisionManifests.trans first.revisionManifests
  dependencies row := by
    rw [second.dependencies row, first.dependencies row, List.mem_append]
    tauto

theorem hasTest_upsertTest (s : EvidenceStore) (test : TestRow) :
    (s.upsertTest test).hasTest test.id := by
  unfold Store.upsertTest
  split
  · rename_i known
    simp only [Store.hasTest, List.any_eq_true, decide_eq_true_eq] at known ⊢
    obtain ⟨row, member, same⟩ := known
    exact ⟨test, List.mem_map.mpr ⟨row, member, by simp [same]⟩, rfl⟩
  · simp [Store.hasTest]

/-- Inserting distinct dependencies of a test that has none never conflicts. -/
theorem insertDependencies_ok (testId : String) (dependencies : List (String × String))
    (distinct : dependencies.Nodup) (rows : List DependencyRow)
    (absent : ∀ d ∈ dependencies, (⟨testId, d.1, d.2⟩ : DependencyRow) ∉ rows) :
    dependencies.foldlM (fun rows d => Store.insertDependency rows ⟨testId, d.1, d.2⟩) rows =
      (.ok (rows ++ dependencies.map fun d => ⟨testId, d.1, d.2⟩) : Except StoreError _) := by
  induction dependencies generalizing rows with
  | nil => simp [pure, Except.pure]
  | cons d rest ih =>
    obtain ⟨fresh, distinct⟩ := List.nodup_cons.mp distinct
    have step : Store.insertDependency rows ⟨testId, d.1, d.2⟩ =
        .ok (rows ++ [⟨testId, d.1, d.2⟩]) := if_neg (absent d List.mem_cons_self)
    rw [List.foldlM_cons, step]
    refine (ih distinct _ ?_).trans ?_
    · intro other member
      simp only [List.mem_append, List.mem_singleton, DependencyRow.mk.injEq, true_and, not_or]
      refine ⟨absent other (List.mem_cons_of_mem d member), fun same => fresh ?_⟩
      rwa [← Prod.ext same.1 same.2]
    · simp

theorem replaceDependencies_ok (s : EvidenceStore) {testId : String} (known : s.hasTest testId)
    (dependencies : List (String × String)) (distinct : dependencies.Nodup) :
    s.replaceDependencies testId dependencies = .ok { s with
      dependencies := (s.dependencies.filter fun row => row.testId ≠ testId) ++
        dependencies.map fun d => ⟨testId, d.1, d.2⟩ } := by
  have inserted := insertDependencies_ok testId dependencies distinct
    (s.dependencies.filter fun row => row.testId ≠ testId) (by simp)
  simp only [Store.replaceDependencies, known, Bool.not_true, Bool.false_eq_true, and_false,
    if_false]
  simp only [inserted]
  rfl

theorem insertCoverage_ok (testId : String) (points : List (String × Nat × String))
    (distinct : points.Nodup) (rows : List CoverageRow)
    (absent : ∀ row ∈ rows, row.testId = testId → (row.path, row.line, row.symbol) ∉ points) :
    ∃ after, points.foldlM
      (fun rows point => Store.insertCoverage rows testId point.1 point.2.1 point.2.2) rows =
        (.ok after : Except StoreError _) := by
  induction points generalizing rows with
  | nil => exact ⟨rows, rfl⟩
  | cons point rest ih =>
    obtain ⟨fresh, distinct⟩ := List.nodup_cons.mp distinct
    have free : ¬ (rows.any fun row => row.testId = testId && row.path = point.1 &&
        row.line = point.2.1 && row.symbol = point.2.2) = true := by
      simp only [List.any_eq_true, Bool.and_eq_true, decide_eq_true_eq, not_exists, not_and,
        and_imp]
      intro row member same path line symbol
      refine absent row member same ?_
      rw [path, line, symbol]
      exact List.mem_cons_self
    have step : Store.insertCoverage rows testId point.1 point.2.1 point.2.2 = .ok (rows ++
        [⟨Store.nextRowid rows, testId, point.1, point.2.1, point.2.2⟩]) := if_neg free
    rw [List.foldlM_cons, step]
    refine ih distinct _ ?_
    intro row member same
    rcases List.mem_append.mp member with old | new
    · exact fun later => absent row old same (List.mem_cons_of_mem point later)
    · rw [List.mem_singleton.mp new]
      exact fresh

theorem replaceCoverage_ok (s : EvidenceStore) {testId : String} (known : s.hasTest testId)
    (points : List (String × Nat × String)) (distinct : points.Nodup) :
    ∃ rows, s.replaceCoverage testId points = .ok { s with coverage := rows } := by
  obtain ⟨rows, inserted⟩ := insertCoverage_ok testId points distinct
    (s.coverage.filter fun row => row.testId ≠ testId) (by
      intro row member same
      simp [same] at member)
  refine ⟨rows, ?_⟩
  simp only [Store.replaceCoverage, known, Bool.not_true, Bool.false_eq_true, and_false, if_false]
  simp only [inserted]
  rfl

theorem nodup_toList {α : Type} [Ord α] [Std.TransOrd α] [Std.LawfulEqOrd α] (set : BTreeSet α) :
    set.toList.Nodup := by
  refine set.distinct_toList.imp fun {a b} (differ : ¬ compare a b = .eq) (same : a = b) => ?_
  subst same
  exact differ Std.ReflCmp.compare_self

theorem upsertTest_frame (s : EvidenceStore) (test : TestRow) :
    ∃ tests, s.upsertTest test = { s with tests := tests } := by
  unfold Store.upsertTest
  split
  · exact ⟨_, rfl⟩
  · exact ⟨_, rfl⟩

theorem recordTest_effects (st : IngestState) (test : String × Option String) (s : EvidenceStore) :
    ∃ t, recordTest st test s = .ok () t ∧ TestsRecorded st [test.1] s t := by
  let row : TestRow := ⟨test.1, test.1, (st.modules.get? test.1).getD ":", test.2⟩
  obtain ⟨tests, known⟩ := upsertTest_frame s row
  have present : ({ s with tests := tests } : EvidenceStore).hasTest test.1 :=
    known ▸ hasTest_upsertTest s row
  obtain ⟨rows, covered⟩ := replaceCoverage_ok { s with tests := tests } present
    ((((st.coverage.get? test.1).getD ∅).toList).map fun point =>
      (point.path, point.line, point.symbol))
    ((nodup_toList _).map fun a b same => by
      simpa [CoveragePoint.ext_iff] using same)
  have learned := replaceDependencies_ok { s with tests := tests, coverage := rows } present
    (((learnedPaths st test.1).toList).map fun path => (path, "method"))
    ((nodup_toList _).map fun a b same => by simpa using same)
  refine ⟨{ s with
    tests := tests
    coverage := rows
    dependencies := (s.dependencies.filter fun row => row.testId ≠ test.1) ++
      (((learnedPaths st test.1).toList).map fun path => (path, "method")).map fun d =>
        ⟨test.1, d.1, d.2⟩ }, ?_, rfl, rfl, rfl, rfl, rfl, fun row => ?_⟩
  · simp only [recordTest, bind_ok, writing_ok]
    exact ⟨(), _, congrArg Except.ok known, (), _, covered, learned⟩
  · simp only [List.mem_append, List.mem_filter, decide_eq_true_eq, List.mem_map,
      Std.ExtTreeSet.mem_toList, List.mem_singleton]
    constructor
    · rintro (⟨member, other⟩ | ⟨_, ⟨path, member, rfl⟩, rfl⟩)
      · exact .inr ⟨other, member⟩
      · exact .inl ⟨rfl, rfl, member⟩
    · rintro (⟨same, kind, member⟩ | ⟨other, member⟩)
      · refine .inr ⟨_, ⟨row.subject, same ▸ member, rfl⟩, ?_⟩
        rw [← same, ← kind]
      · exact .inl ⟨member, other⟩

theorem recordTests_effects (st : IngestState) (tests : List (String × Option String))
    (s : EvidenceStore) :
    ∃ t, recordTests st tests s = .ok () t ∧ TestsRecorded st (tests.map Prod.fst) s t := by
  induction tests generalizing s with
  | nil => exact ⟨s, rfl, .refl st s⟩
  | cons test rest ih =>
    obtain ⟨mid, first, recorded⟩ := recordTest_effects st test s
    obtain ⟨t, later, more⟩ := ih mid
    exact ⟨t, bind_ok.mpr ⟨(), mid, first, later⟩, recorded.trans more⟩

/-- The accumulators at the end of a stream. -/
def finalState (ctx : IngestContext) (file : EventFile) : IngestState :=
  observeAll ctx IngestState.start file.raws

/-- The evidence that ingestion of a readable file answers. -/
def evidence (ctx : IngestContext) (file : EventFile) : Ingested :=
  match file with
  | .lines _ => (finalState ctx file).ingested
  | _ => Ingested.default

/-- What a completed ingestion leaves in the store. -/
structure Ingesting (ctx : IngestContext) (file : EventFile) (s t : EvidenceStore) : Prop where
  runs : t.runs = s.runs
  recordings : t.recordings = s.recordings
  verificationCache : t.verificationCache = s.verificationCache
  revisionManifests : t.revisionManifests = s.revisionManifests
  events : t.events = s.events ++ eventRows ctx 0 file.raws
  dependencies : ∀ row, row ∈ t.dependencies ↔
    (row.testId ∈ (finalState ctx file).tests ∧ row.kind = "method" ∧
        row.subject ∈ learnedPaths (finalState ctx file) row.testId) ∨
      (row.testId ∉ (finalState ctx file).tests ∧ row ∈ s.dependencies)

theorem ingestEvents_effects {ctx : IngestContext} {file : EventFile} {ingested : Ingested}
    {s t : EvidenceStore} (success : ingestEvents ctx file s = .ok ingested t) :
    ingested = evidence ctx file ∧ Ingesting ctx file s t := by
  cases file with
  | missing =>
    obtain ⟨rfl, rfl⟩ := pure_ok.mp success
    refine ⟨rfl, rfl, rfl, rfl, rfl, by simp [EventFile.raws, eventRows], fun row => ?_⟩
    simp [finalState, observeAll, EventFile.raws, IngestState.start]
  | unreadable message => simp [ingestEvents] at success
  | lines stream =>
    simp only [ingestEvents, bind_ok, pure_ok] at success
    obtain ⟨st, mid, streamed, _, u, recorded, rfl, rfl⟩ := success
    obtain ⟨rfl, wrote⟩ := ingestLines_effects streamed
    obtain ⟨v, again, tables⟩ := recordTests_effects
      (observeAll ctx .start (stream.filterMap StreamLine.raw?)) _ mid
    rw [recorded] at again
    cases again
    refine ⟨rfl, tables.runs.trans wrote.runs, tables.recordings.trans wrote.recordings,
      tables.verificationCache.trans wrote.verificationCache,
      tables.revisionManifests.trans wrote.revisionManifests,
      tables.events.trans wrote.events, fun row => ?_⟩
    rw [tables.dependencies row, wrote.dependencies, Std.ExtTreeMap.map_fst_toList_eq_keys,
      Std.ExtTreeMap.mem_keys]
    rfl

/-- An ingestion that stops has written the rows of its first events only. -/
theorem ingestEvents_error {ctx : IngestContext} {file : EventFile} {e : VerifierError}
    {s t : EvidenceStore} (failure : ingestEvents ctx file s = .error e t) :
    ∃ raws, raws <+: file.raws ∧ EventsAppended (eventRows ctx 0 raws) s t := by
  cases file with
  | missing => simp [ingestEvents] at failure
  | unreadable message =>
    simp only [ingestEvents, throw_error] at failure
    obtain ⟨-, rfl⟩ := failure
    exact ⟨[], List.nil_prefix, .refl s⟩
  | lines stream =>
    rcases bind_error.mp failure with stopped | ⟨st, mid, -, later⟩
    · exact ingestLines_error stopped
    · obtain ⟨t', recorded, -⟩ := recordTests_effects st st.tests.toList mid
      rcases bind_error.mp later with never | ⟨_, _, -, never⟩
      · rw [recorded] at never
        cases never
      · simp at never

end Walaru
