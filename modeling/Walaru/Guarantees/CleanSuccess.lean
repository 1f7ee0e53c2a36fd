import Walaru.Guarantees.FreshSuccess

/-!
# Failed tests inside a passing answer

The verdict reads the worker's exit status and the statuses of the effective
selection. It never reads the failures or the statuses of other tests, so a
passing answer is free of failures exactly when the stream it was made from
reports none.
-/
namespace Walaru
open Lib.StateResult

/-- No failed test and no failure. -/
def Clean (outcome : VerificationOutcome) : Prop :=
  (∀ test : String, outcome.testStatuses[test]? ≠ some "failed") ∧ outcome.failures = []

/-- Some test event of the stream reports a failure. -/
def reportsFailure (file : EventFile) : Prop := ∃ raw ∈ file.raws, failedFinish raw = true

/-- The run that an answer was made from: this request's own, or the one that
stored the cached payload. -/
inductive MadeBy (history : List Operation) (env : VerifierEnv) (outcome : VerificationOutcome) :
    VerifierEnv → Prop where
  | own (fresh : outcome.cached = false) : MadeBy history env outcome env
  | earlier {before later : List Operation} {op : Operation} {producer : VerifierEnv}
      {request current : VerificationRequest} {replay : Option Recording}
      {stored : VerificationOutcome} (split : history = before ++ op :: later)
      (call : op.call = some (producer, request, replay))
      (passes : DefaultPass producer request replay (play before) stored)
      (served : outcome = servedOutcome current stored) :
      MadeBy history env outcome producer

theorem clean_ingested_iff (ctx : IngestContext) (file : EventFile) :
    ((∀ test : String, (evidence ctx file).testStatuses[test]? ≠ some "failed") ∧
      (evidence ctx file).failures = []) ↔ ¬ reportsFailure file := by
  unfold evidence reportsFailure
  split
  · simp only [IngestState.ingested, failures_eq_nil_iff, not_exists, not_and, Bool.not_eq_true]
    refine ⟨fun clean => clean.2, fun none_failed => ⟨fun test failed => ?_, none_failed⟩⟩
    obtain ⟨raw, member, finish, -, status⟩ := finish_of_status (status_of_testStatuses failed)
    have reported := none_failed raw member
    simp [failedFinish, finish, status] at reported
  · rename_i unread
    have no_raws : file.raws = [] := by
      cases file with
      | lines stream => exact absurd rfl (unread stream)
      | missing => rfl
      | unreadable message => rfl
    simp [Ingested.default, no_raws]

/-- The answer of a fresh run is clean exactly when its stream reports no failure. -/
theorem fresh_clean_iff {env : VerifierEnv} {request : VerificationRequest}
    {replay : Option Recording} {s t : EvidenceStore} {outcome : VerificationOutcome}
    (returned : verifyInternal env request replay s = .ok outcome t)
    (fresh : outcome.cached = false) : Clean outcome ↔ ¬ reportsFailure env.eventFile := by
  have result := verifyInternal_result env request replay s
  rw [returned] at result
  cases result with
  | served idle hit => cases fresh
  | @finished plan run t admitted observed =>
    have same := clean_ingested_iff (env.ingestContext plan.before.revision) env.eventFile
    rwa [← observed.ingested] at same

theorem DefaultPass.statuses_nonempty {env : VerifierEnv} {request : VerificationRequest}
    {replay : Option Recording} {s : EvidenceStore} {stored : VerificationOutcome}
    (passes : DefaultPass env request replay s stored) : stored.testStatuses.isEmpty = false := by
  obtain ⟨t, answered⟩ := passes.answered
  have result := verifyInternal_result env request replay s
  rw [answered] at result
  cases result with
  | served idle hit => cases passes.fresh
  | @finished plan run t admitted observed =>
    obtain ⟨-, -, present⟩ := verdict_passed passes.passed
    obtain ⟨testId, found⟩ := present.somePassed
    rw [Bool.eq_false_iff]
    intro empty
    change run.ingested.testStatuses.isEmpty = true at empty
    rw [Std.ExtTreeMap.isEmpty_iff.mp empty] at found
    simp at found

theorem served_clean_iff {current : VerificationRequest} {stored : VerificationOutcome}
    (nonempty : stored.testStatuses.isEmpty = false) :
    Clean (servedOutcome current stored) ↔ Clean stored := by
  simp [Clean, servedOutcome, nonempty]

/-- A passing answer, fresh or cached, is clean exactly when the stream of the run
it was made from reports no failed test. -/
theorem passed_clean_iff (history : List Operation) (env : VerifierEnv)
    (request : VerificationRequest) (replay : Option Recording) (outcome : VerificationOutcome)
    (after : EvidenceStore)
    (returned : verifyInternal env request replay (play history) = .ok outcome after)
    (passed : outcome.status = .passed) :
    (∃ producer, MadeBy history env outcome producer) ∧
      ∀ producer, MadeBy history env outcome producer →
        (Clean outcome ↔ ¬ reportsFailure producer.eventFile) := by
  constructor
  · have result := verifyInternal_result env request replay (play history)
    rw [returned] at result
    cases result with
    | @served before stored idle hit =>
      obtain ⟨row, found, content⟩ := Option.map_eq_some_iff.mp hit.row
      obtain ⟨earlier, op, later, e, r, p, split, call, passes, -⟩ :=
        cache_storedBy history row (List.mem_of_find?_eq_some found)
      exact ⟨e, .earlier split call (content ▸ passes) rfl⟩
    | finished admitted observed => exact ⟨env, .own rfl⟩
  · intro producer made
    cases made with
    | own fresh => exact fresh_clean_iff returned fresh
    | earlier split call passes served =>
      obtain ⟨t, answered⟩ := passes.answered
      rw [served, served_clean_iff passes.statuses_nonempty]
      exact fresh_clean_iff answered passes.fresh

/-- The build exits successfully although one of two tests failed. -/
def ignoredFailure (runId : String) : VerifierEnv :=
  quietEnv runId (demoSnapshot "rev-1" "d1") true
    [rawStart "demo.AppTest#works", rawFinish "demo.AppTest#works" "successful",
      rawStart "demo.AppTest#breaks", rawFinish "demo.AppTest#breaks" "failed"]

theorem passed_clean_iff_demo :
    ∃ outcome after, verifyInternal (ignoredFailure "run-1") .fast none (play []) =
        .ok outcome after ∧ outcome.status = .passed ∧ ¬ Clean outcome := by
  have ran : answers (fun o : VerificationOutcome => o.status = .passed && !o.cached)
      (verifyInternal (ignoredFailure "run-1") .fast none (play [])) := by decide +kernel
  obtain ⟨outcome, after, returned, passed⟩ := exists_of_answers ran
  simp only [Bool.and_eq_true, decide_eq_true_eq, Bool.not_eq_true'] at passed
  have exact_ := (passed_clean_iff [] _ _ _ outcome after returned passed.1).2 _ (.own passed.2)
  refine ⟨outcome, after, returned, passed.1, fun clean => exact_.mp clean ?_⟩
  exact ⟨rawFinish "demo.AppTest#breaks" "failed", by decide, by decide⟩

/-- Freshly and from the cache, a passing answer carries the failed test. -/
theorem passed_with_failed_test :
    ¬ ∀ (history : List Operation) (env : VerifierEnv) (request : VerificationRequest)
        (outcome : VerificationOutcome) (after : EvidenceStore),
      verify env request (play history) = .ok outcome after → outcome.status = .passed →
        Clean outcome := by
  intro claim
  have ran : answers (fun o : VerificationOutcome => o.status = .passed && o.cached &&
        o.testStatuses.get? "demo.AppTest#breaks" = some "failed")
      (verify (ignoredFailure "run-2") .fast
        (play [.verify (ignoredFailure "run-1") .fast])) := by decide +kernel
  obtain ⟨outcome, after, returned, seen⟩ := exists_of_answers ran
  simp only [Bool.and_eq_true, decide_eq_true_eq, Std.ExtTreeMap.get?_eq_getElem?] at seen
  exact (claim _ _ _ outcome after returned seen.1.1).1 _ seen.2

end Walaru
