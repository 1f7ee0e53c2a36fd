import Walaru.Lib.Sha256
import Walaru.Source.Daemon.History

/-!
# What a passing answer rests on

A passing answer is either fresh, and then both snapshots, the worker and the
event stream support it, or it is served from the cache, and then an earlier
default run of the same revision earned it. The statements hold after every
history of requests; the snapshots are independent answers of the environment, so
edits may fall between any two steps.
-/
namespace Walaru
open Lib.StateResult

theorem testStatuses_get (st : IngestState) (testId : String) :
    st.testStatuses[testId]? = st.tests[testId]?.join := by
  rw [IngestState.testStatuses, Std.ExtTreeMap.getElem?_filterMap']
  rfl

theorem status_of_testStatuses {st : IngestState} {testId status : String}
    (recorded : st.testStatuses[testId]? = some status) :
    st.tests[testId]? = some (some status) := by
  rw [testStatuses_get, Option.join_eq_some_iff] at recorded
  exact recorded

/-- No status is missing exactly when the counts agree. -/
theorem all_finished {st : IngestState} (counts : st.testStatuses.size = st.tests.keys.length)
    {testId : String} (known : testId ∈ st.tests) :
    ∃ status, st.testStatuses[testId]? = some status := by
  rw [Std.ExtTreeMap.length_keys, IngestState.testStatuses,
    Std.ExtTreeMap.size_filterMap_eq_size_iff] at counts
  have present := counts testId known
  obtain ⟨status, found⟩ := Option.isSome_iff_exists.mp present
  refine ⟨status, ?_⟩
  rw [testStatuses_get, Std.ExtTreeMap.getElem?_eq_some_getElem known]
  simpa using found

/-- The evidence check lets a verdict pass. -/
structure EvidencePresent (ingested : Ingested) (selectedTests : List String) : Prop where
  somePassed : ∃ testId : String, ingested.testStatuses[testId]? = some "passed"
  counts : ingested.testStatuses.size = ingested.tests.length
  selected : ∀ test ∈ selectedTests, ingested.testStatuses[test]? = some "passed"

theorem desiredStatus_passed {success : Bool} {ingested : Ingested} {selectedTests : List String}
    (passed : desiredStatus success ingested selectedTests = .passed) :
    success = true ∧ EvidencePresent ingested selectedTests := by
  unfold desiredStatus at passed
  split at passed
  · cases passed
  · rename_i complete
    split at passed
    · rename_i exited
      refine ⟨exited, ?_⟩
      simp only [freshEvidenceMissing, exited, Bool.true_and, Bool.or_eq_true, not_or,
        List.all_eq_true, decide_eq_true_eq, not_forall, not_not, List.any_eq_true,
        Std.ExtTreeMap.get?_eq_getElem?, not_exists, not_and, ne_eq] at complete
      obtain ⟨⟨⟨⟨testId, status⟩, member, rfl⟩, counts⟩, selected⟩ := complete
      exact ⟨⟨testId, Std.ExtTreeMap.mem_toList_iff_getElem?_eq_some.mp member⟩, counts, selected⟩
    · cases passed

theorem verdict_passed {plan : RunPlan} {run : RunEvidence} (passed : verdict plan run = .passed) :
    plan.before.revision = run.after.revision ∧ run.success = true ∧
      EvidencePresent run.ingested plan.selectedTests := by
  unfold verdict at passed
  split at passed
  · rename_i same
    exact ⟨same, desiredStatus_passed passed⟩
  · cases passed

/-- Two captures of the request's own execution root carry the outcome's revision. -/
def SameRevision (env : VerifierEnv) (request : VerificationRequest) (second : Moment)
    (outcome : VerificationOutcome) : Prop :=
  ∃ before after, env.capture request.executionRoot .before = .ok before ∧
    env.capture request.executionRoot second = .ok after ∧
    before.revision = outcome.revision ∧ after.revision = outcome.revision

/-- The tests a request runs, given the answer of impact analysis. -/
def effectiveSelection (request : VerificationRequest) (impact : Option (List String)) :
    List String :=
  if impactable request then impact.getD request.selectedTests else request.selectedTests

theorem chooseTests_effective {env : VerifierEnv} {request : VerificationRequest}
    {before : RevisionSnapshot} {plan : RunPlan} {s : EvidenceStore}
    (chosen : chooseTests env request before s = .ok plan s) :
    ∃ impact, (impactable request = true → askImpact env request before s = .ok impact s) ∧
      plan.selectedTests = effectiveSelection request impact := by
  unfold chooseTests at chosen
  unfold effectiveSelection
  split at chosen
  · rename_i allowed
    obtain ⟨impact, t, asked, chosen⟩ := bind_ok.mp chosen
    obtain rfl := (readOnly_askImpact env request before).ok asked
    refine ⟨impact, fun _ => asked, ?_⟩
    rw [if_pos allowed]
    cases impact with
    | none =>
      obtain ⟨rfl, -⟩ := pure_ok.mp chosen
      rfl
    | some tests =>
      obtain ⟨rfl, -⟩ := pure_ok.mp chosen
      rfl
  · rename_i refused
    obtain ⟨rfl, -⟩ := pure_ok.mp chosen
    exact ⟨none, fun allowed => absurd allowed refused, by rw [if_neg refused]; rfl⟩

/-- The support of a passing answer that was executed for this request. -/
structure FreshSuccess (env : VerifierEnv) (request : VerificationRequest) (s : EvidenceStore)
    (outcome : VerificationOutcome) : Prop where
  unchanged : SameRevision env request .after outcome
  exited : env.worker = .ok true
  somePassed : ∃ raw ∈ env.eventFile.raws, kindName raw = "TEST_FINISH" ∧
    finishStatus raw = "passed" ∧ outcome.testStatuses[publicTestId raw]? = some "passed"
  finished : ∀ raw ∈ env.eventFile.raws, kindName raw = "TEST_START" →
    ∃ status, outcome.testStatuses[publicTestId raw]? = some status
  selection : ∃ before impact, env.capture request.executionRoot .before = .ok before ∧
    (impactable request = true → askImpact env request before s = .ok impact s) ∧
    outcome.selectedTests = effectiveSelection request impact
  selected : ∀ test ∈ outcome.selectedTests, outcome.testStatuses[test]? = some "passed"

/-- The support of a passing answer that the cache gave. -/
structure CachedSuccess (history : List Operation) (env : VerifierEnv)
    (request : VerificationRequest) (outcome : VerificationOutcome) : Prop where
  unchanged : SameRevision env request .recheck outcome
  earned : ∃ earlier op later earlierEnv earlierRequest replay stored,
    history = earlier ++ op :: later ∧ op.call = some (earlierEnv, earlierRequest, replay) ∧
      DefaultPass earlierEnv earlierRequest replay (play earlier) stored ∧
      stored.revision = outcome.revision ∧ outcome = servedOutcome request stored

/-- Without a readable stream no test has passed, so the evidence is that of the stream. -/
theorem Observed.streamed {env : VerifierEnv} {request : VerificationRequest} {plan : RunPlan}
    {run : RunEvidence} {s t : EvidenceStore} {selectedTests : List String}
    (observed : Observed env request plan run s t)
    (present : EvidencePresent run.ingested selectedTests) :
    run.ingested = (finalState (env.ingestContext plan.before.revision) env.eventFile).ingested := by
  have found := observed.ingested
  unfold evidence at found
  split at found
  · exact found
  · obtain ⟨testId, absent⟩ := present.somePassed
    simp [found, Ingested.default] at absent

theorem finished_freshSuccess {env : VerifierEnv} {request : VerificationRequest}
    {replay : Option Recording} {s t : EvidenceStore} {plan : RunPlan} {run : RunEvidence}
    (admitted : Admitted env request replay s plan)
    (observed : Observed env request plan run (launched env plan s) t)
    (passed : verdict plan run = .passed) :
    FreshSuccess env request s (finishedOutcome env request plan run) := by
  obtain ⟨same, exited, present⟩ := verdict_passed passed
  have statuses : (finishedOutcome env request plan run).testStatuses = run.ingested.testStatuses := rfl
  have streamed := observed.streamed present
  refine ⟨⟨plan.before, run.after, admitted.captured, observed.recaptured, rfl, same.symm⟩,
    exited ▸ observed.worker, ?_, ?_, ?_, present.selected⟩
  · obtain ⟨testId, status⟩ := present.somePassed
    rw [streamed] at status
    obtain ⟨raw, member, finish, rfl, reported⟩ := finish_of_status (status_of_testStatuses status)
    refine ⟨raw, member, finish, reported, ?_⟩
    rw [statuses, streamed]
    exact status
  · intro raw member start
    rw [statuses, streamed]
    have counts := present.counts
    rw [streamed] at counts
    exact all_finished counts ((mem_tests_iff _ _ _).mpr ⟨raw, member, .inl start, rfl⟩)
  · obtain ⟨impact, asked, tests⟩ := chooseTests_effective admitted.chosen
    exact ⟨plan.before, impact, admitted.captured, asked, tests⟩

/-- No false fresh success: whatever happened before and wherever edits fell, a
passing answer is supported by this request's own run or by an earlier one of
exactly the same revision. -/
theorem passed_is_supported (history : List Operation) (env : VerifierEnv)
    (request : VerificationRequest) (replay : Option Recording) (outcome : VerificationOutcome)
    (after : EvidenceStore)
    (returned : verifyInternal env request replay (play history) = .ok outcome after)
    (passed : outcome.status = .passed) :
    (outcome.cached = false ∧ FreshSuccess env request (play history) outcome) ∨
      (outcome.cached = true ∧ CachedSuccess history env request outcome) := by
  have result := verifyInternal_result env request replay (play history)
  rw [returned] at result
  cases result with
  | @served before stored idle hit =>
    refine .inr ⟨rfl, ?_⟩
    obtain ⟨row, found, content⟩ := Option.map_eq_some_iff.mp hit.row
    have at_before : row.revision = before.revision := by
      simpa using List.find?_some found
    obtain ⟨earlier, op, later, e, r, p, split, call, passes, same⟩ :=
      cache_storedBy history row (List.mem_of_find?_eq_some found)
    rw [content] at passes same
    obtain ⟨second, rechecked, again⟩ := hit.rechecked
    have revision : stored.revision = before.revision := same.trans at_before
    exact ⟨⟨before, second, hit.captured, rechecked, revision.symm, again.trans revision.symm⟩,
      earlier, op, later, e, r, p, stored, split, call, passes, rfl, rfl⟩
  | finished admitted observed =>
    exact .inl ⟨rfl, finished_freshSuccess admitted observed passed⟩

/-- One line of a worker's stream. -/
def rawEvent (kind test : String) (more : List (String × Json)) : Json :=
  .object ([("type", .string kind), ("testName", .string test)] ++ more)

def rawStart (test : String) : Json := rawEvent "TEST_START" test []

def rawFinish (test status : String) : Json :=
  rawEvent "TEST_FINISH" test [("status", .string status)]

def rawLine (test path : String) : Json := rawEvent "LINE" test [("path", .string path)]

/-- Nothing fails, nobody cancels, and no edit falls into the request. -/
def quietEnv (runId : String) (snapshot : RevisionSnapshot) (success : Bool) (stream : List Json) :
    VerifierEnv where
  platform := ⟨Lib.Sha256.sha256, fun _ => 16, fun _ => (512, 256), fun _ => (1024, 512)⟩
  outcomeSizes := fun _ => (1024, 512)
  manifestSizes := fun _ => (1024, 512)
  maxBytes := 1024 * 1024 * 1024
  cutoff := "2026-01-01T00:00:00+00:00"
  stateDir := "/work/.gradle/walaru/ws-1"
  missingArtifact := none
  cancelled := fun _ => false
  overlayFailure := none
  capture := fun _ _ => .ok snapshot
  gitImpact := fun _ _ _ => .ok none
  runId := runId
  io := fun _ => none
  worker := .ok success
  copyFailure := none
  eventFile := .lines (stream.map .event)
  tree := fun _ => ⟨fun _ => true, []⟩
  problems := []
  startedAt := "2026-01-08T10:00:00+00:00"
  finishedAt := "2026-01-08T10:00:05+00:00"
  cachedAt := "2026-01-08T10:00:05+00:00"
  manifestAt := "2026-01-08T10:00:05+00:00"

/-- A snapshot with one main source of the given content digest. -/
def demoSnapshot (revision digest : String) : RevisionSnapshot where
  revision := revision
  fileDigests := (∅ : BTreeMap String String).insert "src/main/java/demo/App.java" digest
  surfaceDigests := (∅ : BTreeMap String String).insert "src/main/java/demo/App.java" "surface"

def demoPass (runId : String) : VerifierEnv :=
  quietEnv runId (demoSnapshot "rev-1" "d1") true
    [rawStart "demo.AppTest#works", rawFinish "demo.AppTest#works" "successful"]

/-- The first request of a store runs afresh, the second is served from the cache. -/
theorem passed_is_supported_demo :
    (∃ outcome after, verifyInternal (demoPass "run-1") .fast none (play []) = .ok outcome after ∧
      outcome.cached = false ∧ FreshSuccess (demoPass "run-1") .fast (play []) outcome) ∧
    ∃ outcome after, verifyInternal (demoPass "run-2") .fast none
        (play [.verify (demoPass "run-1") .fast]) = .ok outcome after ∧
      outcome.cached = true ∧
      CachedSuccess [.verify (demoPass "run-1") .fast] (demoPass "run-2") .fast outcome := by
  constructor
  · have ran : answers (fun o : VerificationOutcome => o.status = .passed && !o.cached)
        (verifyInternal (demoPass "run-1") .fast none (play [])) := by decide +kernel
    obtain ⟨outcome, after, returned, passed⟩ := exists_of_answers ran
    simp only [Bool.and_eq_true, decide_eq_true_eq, Bool.not_eq_true'] at passed
    rcases passed_is_supported [] _ _ _ outcome after returned passed.1 with fresh | cached
    · exact ⟨outcome, after, returned, fresh⟩
    · exact absurd cached.1 (by simp [passed.2])
  · have ran : answers (fun o : VerificationOutcome => o.status = .passed && o.cached)
        (verifyInternal (demoPass "run-2") .fast none
          (play [.verify (demoPass "run-1") .fast])) := by decide +kernel
    obtain ⟨outcome, after, returned, passed⟩ := exists_of_answers ran
    simp only [Bool.and_eq_true, decide_eq_true_eq] at passed
    rcases passed_is_supported _ _ _ _ outcome after returned passed.1 with fresh | cached
    · exact absurd fresh.1 (by simp [passed.2])
    · exact ⟨outcome, after, returned, cached⟩

end Walaru
