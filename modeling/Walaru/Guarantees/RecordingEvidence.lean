import Walaru.Guarantees.CapabilityHonesty
import Walaru.Source.Daemon.RunEvents

/-!
# What a recording contains

A record request reads one page of its run's rows and never looks at the page's
cursor, at the statuses of the run, or at the presence of any event. So a complete
recording shows that its test ran exactly when its covered stream does so early enough,
and it holds the whole run exactly when the run fits the page.
-/
namespace Walaru
open Lib.StateResult

/-- The store that a record request reads its events from. -/
def recordedStore (env : RecordEnv) (testId : String) (captureFileIo : Bool) (s : EvidenceStore) :
    EvidenceStore :=
  storeOf (verify env.verifier (recordRequest testId captureFileIo) s)

/-- A full-mode request is never answered from the cache. -/
theorem full_fresh {env : VerifierEnv} {request : VerificationRequest} {replay : Option Recording}
    {s t : EvidenceStore} {outcome : VerificationOutcome} (full : request.mode = .full)
    (returned : verifyInternal env request replay s = .ok outcome t) : outcome.cached = false := by
  have result := verifyInternal_result env request replay s
  rw [returned] at result
  cases result with
  | served idle hit =>
    have allowed := hit.cacheable
    simp [cacheable, full] at allowed
  | finished admitted observed => rfl

theorem composeRecording_ok {env : RecordEnv} {testId : String} {outcome : VerificationOutcome}
    {s t : EvidenceStore} {recording : Recording}
    (composed : composeRecording env testId outcome s = .ok recording t) :
    ∃ events inputs, readRun outcome.runId s = .ok events s ∧
      recordedInputs env.inputsTape = .ok inputs ∧
      recording = assembleRecording env.verifier.platform outcome testId events inputs := by
  obtain ⟨_, _, usable, reads⟩ := bind_ok.mp composed
  obtain rfl := (ReadOnly.refuse _).ok usable
  obtain ⟨events, _, read, tapes⟩ := bind_ok.mp reads
  obtain rfl := (readOnly_readRun _).ok read
  obtain ⟨inputs, _, taped, assembled⟩ := bind_ok.mp tapes
  obtain ⟨rfl, -⟩ := pure_ok.mp assembled
  exact ⟨events, inputs, read, (answer_ok.mp taped).1, rfl⟩

/-- The parts of a recording that come from its run. -/
theorem recordWithOptions_parts {env : RecordEnv} {testId : String} {captureFileIo : Bool}
    {s after : EvidenceStore} {recording : Recording}
    (returned : recordWithOptions env testId captureFileIo s = .ok recording after) :
    ∃ outcome events inputs, verify env.verifier (recordRequest testId captureFileIo) s =
        .ok outcome (recordedStore env testId captureFileIo s) ∧
      readRun outcome.runId (recordedStore env testId captureFileIo s) =
        .ok events (recordedStore env testId captureFileIo s) ∧
      recordedInputs env.inputsTape = .ok inputs ∧
      recording = assembleRecording env.verifier.platform outcome testId events inputs := by
  rcases recordWithOptions_result env testId captureFileIo s with
    ⟨e, failed⟩ | ⟨outcome, t, other, ran, composed, saved⟩
  · rw [failed] at returned
    cases returned
  · rw [saved] at returned
    obtain ⟨rfl, -⟩ := EStateM.Result.ok.inj returned
    have read_from : recordedStore env testId captureFileIo s = t := by rw [recordedStore, ran]; rfl
    obtain ⟨events, inputs, read, taped, rfl⟩ := composeRecording_ok composed
    rw [read_from]
    exact ⟨outcome, events, inputs, ran, read, taped, rfl⟩

/-- A finished run reads back as the page of the rows that are left of it. -/
theorem readRun_finished {history : List Operation} {env : VerifierEnv}
    {request : VerificationRequest} {replay : Option Recording} {outcome : VerificationOutcome}
    {t : EvidenceStore} (returned : verifyInternal env request replay (play history) = .ok outcome t)
    (fresh : outcome.cached = false) :
    readRun outcome.runId t =
      .ok ((pageRows (rowsOf t env.runId)).map fun row => row.payload.content) t := by
  obtain ⟨same, rows⟩ := rowsOf_finished returned fresh
  rw [same]
  split at rows
  · exact readRun_page (env.ingestContext outcome.revision) _ rows
  · exact readRun_page (env.ingestContext outcome.revision) [] rows

/-- The events of a recording, and the rows they were read from. -/
theorem recording_events {history : List Operation} {env : RecordEnv} {testId : String}
    {captureFileIo : Bool} {recording : Recording} {after : EvidenceStore}
    (returned : recordWithOptions env testId captureFileIo (play history) = .ok recording after) :
    recording.events = (pageRows (rowsOf (recordedStore env testId captureFileIo (play history))
        env.verifier.runId)).map (fun row => row.payload.content) ∧
      rowsOf (recordedStore env testId captureFileIo (play history)) env.verifier.runId =
        if (recordedStore env testId captureFileIo (play history)).hasRun env.verifier.runId then
          runRows env.verifier recording.revision
        else [] := by
  obtain ⟨outcome, events, inputs, ran, read, -, rfl⟩ := recordWithOptions_parts returned
  have fresh := full_fresh rfl ran
  rw [readRun_finished ran fresh] at read
  obtain ⟨rfl, -⟩ := EStateM.Result.ok.inj read
  exact ⟨rfl, (rowsOf_finished ran fresh).2⟩

/-- A recording is as complete as the answer of its run. -/
theorem recording_completeness {history : List Operation} {env : RecordEnv} {testId : String}
    {captureFileIo : Bool} {recording : Recording} {after : EvidenceStore}
    (returned : recordWithOptions env testId captureFileIo (play history) = .ok recording after) :
    ∃ outcome, verify env.verifier (recordRequest testId captureFileIo) (play history) =
        .ok outcome (recordedStore env testId captureFileIo (play history)) ∧
      recording.capabilities.completeness = outcome.capabilities.completeness ∧
      ∃ revision, outcome.capabilities = (evidence (env.verifier.ingestContext revision)
        env.verifier.eventFile).capabilities := by
  obtain ⟨outcome, events, inputs, ran, -, -, rfl⟩ := recordWithOptions_parts returned
  obtain ⟨before, -, -, capabilities⟩ := fresh_answer (full_fresh rfl ran) ran
  refine ⟨outcome, ran, ?_, before.revision, capabilities⟩
  change (recordingCapabilities outcome.capabilities events).completeness = _
  unfold recordingCapabilities
  split
  · rfl
  · rfl

/-- A recording is complete exactly when the stream of its run is covered. -/
theorem recording_complete_iff {history : List Operation} {env : RecordEnv} {testId : String}
    {captureFileIo : Bool} {recording : Recording} {after : EvidenceStore}
    (returned : recordWithOptions env testId captureFileIo (play history) = .ok recording after) :
    recording.capabilities.completeness = .complete ↔ CoveredStream env.verifier.eventFile := by
  obtain ⟨outcome, -, same, revision, capabilities⟩ := recording_completeness returned
  rw [same, capabilities, complete_iff]

/-- Two recorded events, in this order, are stored rows of the test and mark its
start and its end. -/
def TestRan (rows : List EventRow) (recording : Recording) (testId : String) : Prop :=
  ∃ (i j : Nat) (start finish : EventRow), i < j ∧ rows[i]? = some start ∧ rows[j]? = some finish ∧
    start.testId = testId ∧ finish.testId = testId ∧
    recording.events[i]? = some start.payload.content ∧
    recording.events[j]? = some finish.payload.content ∧
    start.payload.content.kind = .testStart ∧ finish.payload.content.kind = .testFinish

/-- The stream starts the test and finishes it later, early enough for the page. -/
def StreamRunsTest (env : VerifierEnv) (revision testId : String) : Prop :=
  ∃ i j start finish, i < j ∧ env.eventFile.at i start ∧ env.eventFile.at j finish ∧
    kindName start = "TEST_START" ∧ kindName finish = "TEST_FINISH" ∧
    publicTestId start = testId ∧ publicTestId finish = testId ∧
    FitsPage ((runRows env revision).take (j + 1))

theorem eventKind_testStart {kind : String} : eventKind kind = .testStart ↔ kind = "TEST_START" := by
  unfold eventKind
  split <;> simp_all

theorem eventKind_testFinish {kind : String} :
    eventKind kind = .testFinish ↔ kind = "TEST_FINISH" := by
  unfold eventKind
  split <;> simp_all

theorem runRows_getElem? (env : VerifierEnv) (revision : String) (i : Nat) :
    (runRows env revision)[i]? =
      (env.eventFile.raws[i]?).map (eventRow (env.ingestContext revision) i) := by
  rw [runRows, eventRows_getElem?, Nat.zero_add]

theorem testRan_runRows_iff {env : VerifierEnv} {revision testId : String} {recording : Recording}
    (events : recording.events =
      (pageRows (runRows env revision)).map fun row => row.payload.content) :
    TestRan (runRows env revision) recording testId ↔ StreamRunsTest env revision testId := by
  have on_page : ∀ {i : Nat} {row : EventRow}, (runRows env revision)[i]? = some row →
      (recording.events[i]? = some row.payload.content ↔
        i < (pageRows (runRows env revision)).length) := by
    intro i row place
    rw [events, List.getElem?_map]
    constructor
    · intro recorded
      obtain ⟨other, found, -⟩ := Option.map_eq_some_iff.mp recorded
      exact (List.getElem?_eq_some_iff.mp found).1
    · intro inside
      obtain ⟨left, split⟩ := pageRows_begins (runRows env revision)
      rw [← split, List.getElem?_append_left inside] at place
      rw [place]
      rfl
  constructor
  · rintro ⟨i, j, start, finish, before, first, last, rfl, same, -, recorded, started, finished⟩
    have inside := (on_page last).mp recorded
    rw [runRows_getElem?] at first last
    obtain ⟨rawStart, startAt, rfl⟩ := Option.map_eq_some_iff.mp first
    obtain ⟨rawFinish, finishAt, rfl⟩ := Option.map_eq_some_iff.mp last
    have bound : j < (runRows env revision).length := by
      rw [runRows, eventRows_length]
      exact (List.getElem?_eq_some_iff.mp finishAt).1
    exact ⟨i, j, rawStart, rawFinish, before, startAt, finishAt, eventKind_testStart.mp started,
      eventKind_testFinish.mp finished, rfl, same, (lt_pageRows_length_iff bound).mp inside⟩
  · rintro ⟨i, j, rawStart, rawFinish, before, startAt, finishAt, started, finished, rfl, same, fits⟩
    have first : (runRows env revision)[i]? =
        some (eventRow (env.ingestContext revision) i rawStart) := by
      rw [runRows_getElem?, startAt]
      rfl
    have last : (runRows env revision)[j]? =
        some (eventRow (env.ingestContext revision) j rawFinish) := by
      rw [runRows_getElem?, finishAt]
      rfl
    have inside := (lt_pageRows_length_iff (List.getElem?_eq_some_iff.mp last).1).mpr fits
    exact ⟨i, j, _, _, before, first, last, rfl, same, (on_page first).mpr (Nat.lt_trans before inside),
      (on_page last).mpr inside, eventKind_testStart.mpr started, eventKind_testFinish.mpr finished⟩

/-- Whatever its manifest says, a recording contains a start and a later finish of
its test exactly when the run was kept and its stream has them within the page. -/
theorem testRan_iff {history : List Operation} {env : RecordEnv} {testId : String}
    {captureFileIo : Bool} {recording : Recording} {after : EvidenceStore}
    (returned : recordWithOptions env testId captureFileIo (play history) = .ok recording after) :
    TestRan (rowsOf (recordedStore env testId captureFileIo (play history)) env.verifier.runId)
        recording testId ↔
      (recordedStore env testId captureFileIo (play history)).hasRun env.verifier.runId ∧
        StreamRunsTest env.verifier recording.revision testId := by
  obtain ⟨events, rows⟩ := recording_events returned
  split at rows
  · rename_i kept
    rw [rows] at events ⊢
    rw [testRan_runRows_iff events]
    simp [kept]
  · rename_i gone
    rw [rows]
    simp [TestRan, gone]

/-- A recording that is complete contains a start and a later finish of its test, exactly
when its stream, if it is covered, has them within the page and the run was kept. -/
theorem recording_ran_test_iff (history : List Operation) (env : RecordEnv) (testId : String)
    (captureFileIo : Bool) (recording : Recording) (after : EvidenceStore)
    (returned : recordWithOptions env testId captureFileIo (play history) = .ok recording after) :
    (recording.capabilities.completeness = .complete →
      TestRan (rowsOf (recordedStore env testId captureFileIo (play history)) env.verifier.runId)
        recording testId) ↔
    (CoveredStream env.verifier.eventFile →
      (recordedStore env testId captureFileIo (play history)).hasRun env.verifier.runId ∧
        StreamRunsTest env.verifier recording.revision testId) := by
  rw [recording_complete_iff returned, testRan_iff returned]

/-- A record request whose verifier is quiet and whose tape is empty. -/
def quietRecordEnv (verifier : VerifierEnv) : RecordEnv where
  verifier := verifier
  inputsTape := .text ""
  createdAt := "2026-01-08T10:00:06+00:00"
  cutoff := "2026-01-01T00:00:00+00:00"

/-- A recording of a test that starts and passes is complete, and shows that it ran. -/
theorem recording_ran_test_iff_demo :
    ∃ recording after, recordWithOptions (quietRecordEnv (demoPass "run-1")) "demo.AppTest#works"
        false (play []) = .ok recording after ∧ recording.capabilities.completeness = .complete ∧
      TestRan (rowsOf (recordedStore (quietRecordEnv (demoPass "run-1")) "demo.AppTest#works" false
        (play [])) "run-1") recording "demo.AppTest#works" := by
  have ran : answers (fun r : Recording => r.revision = "rev-1")
      (recordWithOptions (quietRecordEnv (demoPass "run-1")) "demo.AppTest#works" false
        (play [])) := by decide +kernel
  have kept : (recordedStore (quietRecordEnv (demoPass "run-1")) "demo.AppTest#works" false
      (play [])).hasRun "run-1" = true := by decide +kernel
  have covered : answers (fun o : VerificationOutcome => o.capabilities.completeness = .complete)
      (verify (demoPass "run-1") (recordRequest "demo.AppTest#works" false) (play [])) := by
    decide +kernel
  obtain ⟨recording, after, returned, revision⟩ := exists_of_answers ran
  obtain ⟨outcome, t, verified, whole⟩ := exists_of_answers covered
  obtain ⟨_, again, same, -⟩ := recording_completeness returned
  obtain ⟨rfl, -⟩ := EStateM.Result.ok.inj (verified.symm.trans again)
  have complete : recording.capabilities.completeness = .complete := by
    rw [same]
    exact of_decide_eq_true whole
  refine ⟨recording, after, returned, complete,
    (recording_ran_test_iff [] _ _ _ recording after returned).mpr (fun _ => ⟨kept, ?_⟩) complete⟩
  rw [of_decide_eq_true revision]
  exact ⟨0, 1, rawStart "demo.AppTest#works", rawFinish "demo.AppTest#works" "successful",
    by decide, rfl, rfl, by decide, by decide, by decide, by decide, by decide, .inr (by decide)⟩

/-- A build that fails before any JVM starts: the event file exists and is empty. -/
def failedBuild (runId : String) : VerifierEnv :=
  quietEnv runId (demoSnapshot "rev-1" "d1") false []

/-- The recording of a failed build is Complete and empty. -/
theorem complete_recording_without_test :
    ¬ ∀ (history : List Operation) (env : RecordEnv) (testId : String) (captureFileIo : Bool)
        (recording : Recording) (after : EvidenceStore),
      recordWithOptions env testId captureFileIo (play history) = .ok recording after →
      recording.capabilities.completeness = .complete →
      TestRan (rowsOf (recordedStore env testId captureFileIo (play history)) env.verifier.runId)
        recording testId := by
  intro claim
  have ran : answers (fun r : Recording =>
        r.capabilities.completeness = .complete && r.events = [])
      (recordWithOptions (quietRecordEnv (failedBuild "run-1")) "demo.AppTest#works" false
        (play [])) := by decide +kernel
  obtain ⟨recording, after, returned, seen⟩ := exists_of_answers ran
  simp only [Bool.and_eq_true, decide_eq_true_eq] at seen
  obtain ⟨i, _, _, _, -, -, -, -, -, recorded, -⟩ := claim _ _ _ _ recording after returned seen.1
  simp [seen.2] at recorded

end Walaru
