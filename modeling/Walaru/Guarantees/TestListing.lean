import Walaru.Guarantees.CleanSuccess
import Walaru.Source.Core.StorePages
import Walaru.Source.Daemon.TestStatuses

/-!
# The test listing after a passing answer

A passing answer rests on one run: the request's own, or the one that stored the
cached payload. That run may have covered only part of the tests, and the answer
rewrites the last status of exactly the tests its stream reports. A test that failed
in between stays listed as failed until some run reports it again.
-/
namespace Walaru
open Lib.StateResult

/-- The listing holds the test with the last status `failed`. -/
def ListedFailed (s : EvidenceStore) (testId : String) : Prop :=
  ∃ record ∈ (s.testRows "").map s.testRecord, record.id = testId ∧
    record.lastStatus = some "failed"

theorem listedFailed_iff (s : EvidenceStore) (testId : String) :
    ListedFailed s testId ↔ "" < testId ∧ FailedRow s testId := by
  simp only [ListedFailed, FailedRow, List.mem_map, Store.testRows, List.mem_mergeSort,
    List.mem_filter, decide_eq_true_eq]
  constructor
  · rintro ⟨_, ⟨row, ⟨member, named⟩, rfl⟩, rfl, failed⟩
    exact ⟨named, row, member, rfl, failed⟩
  · rintro ⟨named, row, member, rfl, failed⟩
    exact ⟨s.testRecord row, ⟨row, ⟨member, named⟩, rfl⟩, rfl, failed⟩

/-- The run that an answer to the request rests on: its own when the cache does not
answer, else the earlier one that stored the payload. -/
inductive RunBehind (history : List Operation) (env : VerifierEnv) (request : VerificationRequest)
    (replay : Option Recording) : VerifierEnv → Prop where
  | own {plan : RunPlan} (admitted : Admitted env request replay (play history) plan) :
      RunBehind history env request replay env
  | earlier {before : RevisionSnapshot} {past later : List Operation} {op : Operation}
      {producer : VerifierEnv} {asked : VerificationRequest} {again : Option Recording}
      {stored : VerificationOutcome} (split : history = past ++ op :: later)
      (call : op.call = some (producer, asked, again))
      (passes : DefaultPass producer asked again (play past) stored)
      (hit : Served env request replay.isSome (play history) before stored) :
      RunBehind history env request replay producer

theorem Served.not_missed {env : VerifierEnv} {request : VerificationRequest} {replaying : Bool}
    {s t : EvidenceStore} {before : RevisionSnapshot} {stored : VerificationOutcome}
    (hit : Served env request replaying s before stored) :
    serveCached env request replaying before s ≠ .ok none t := by
  intro missed
  obtain ⟨after, rechecked, same⟩ := hit.rechecked
  rw [serveCached, if_pos hit.cacheable] at missed
  obtain ⟨row, _, read, later⟩ := bind_ok.mp missed
  obtain ⟨found, rfl⟩ := reading_ok.mp read
  rw [hit.row] at found
  subst found
  obtain ⟨second, _, recaptured, later⟩ := bind_ok.mp later
  obtain ⟨captured, rfl⟩ := answer_ok.mp recaptured
  rw [rechecked] at captured
  cases captured
  rw [if_pos ⟨same, hit.reusable⟩] at later
  simp only [bind_ok, pure_ok] at later
  obtain ⟨_, _, -, _, _, -, never, -⟩ := later
  cases never

/-- A request reaches its worker only when the cache does not answer it. -/
theorem Served.idle {env : VerifierEnv} {request : VerificationRequest}
    {replay : Option Recording} {s : EvidenceStore} {before : RevisionSnapshot}
    {stored : VerificationOutcome} (hit : Served env request replay.isSome s before stored)
    (plan : RunPlan) : ¬ Admitted env request replay s plan := by
  intro admitted
  have captured := admitted.captured
  rw [hit.captured] at captured
  cases captured
  exact hit.not_missed admitted.missed

/-- Every answer rests on a run. -/
theorem exists_runBehind {history : List Operation} {env : VerifierEnv}
    {request : VerificationRequest} {replay : Option Recording} {outcome : VerificationOutcome}
    {after : EvidenceStore}
    (returned : verifyInternal env request replay (play history) = .ok outcome after) :
    ∃ producer, RunBehind history env request replay producer := by
  have result := verifyInternal_result env request replay (play history)
  rw [returned] at result
  cases result with
  | @served before stored idle hit =>
    obtain ⟨row, found, content⟩ := Option.map_eq_some_iff.mp hit.row
    obtain ⟨past, op, later, producer, asked, again, split, call, passes, -⟩ :=
      cache_storedBy history row (List.mem_of_find?_eq_some found)
    exact ⟨producer, .earlier split call (content ▸ passes) hit⟩
  | finished admitted observed => exact ⟨env, .own admitted⟩

/-- What a payload says about the tests that a stream reports. -/
structure Tells (statuses : BTreeMap String String) (file : EventFile) : Prop where
  failed : ∀ testId : String, statuses[testId]? = some "failed" ↔ reportsFailedTest file testId
  silent : ∀ testId : String, statuses[testId]? = none ↔ ¬ reportsTest file testId

/-- A passed run has a status for every test that its stream reports. -/
theorem DefaultPass.tells {env : VerifierEnv} {request : VerificationRequest}
    {replay : Option Recording} {s : EvidenceStore} {stored : VerificationOutcome}
    (passes : DefaultPass env request replay s stored) :
    Tells stored.testStatuses env.eventFile := by
  obtain ⟨t, answered⟩ := passes.answered
  have result := verifyInternal_result env request replay s
  rw [answered] at result
  cases result with
  | served idle hit => cases passes.fresh
  | @finished plan run t admitted observed =>
    obtain ⟨-, -, present⟩ := verdict_passed passes.passed
    have streamed := observed.streamed present
    have statuses : (finishedOutcome env request plan run).testStatuses =
        (finalState (env.ingestContext plan.before.revision) env.eventFile).testStatuses := by
      rw [finishedOutcome, freshOutcome, streamed]
      rfl
    have counts := present.counts
    rw [streamed] at counts
    constructor
    · intro testId
      rw [statuses, ← finalState_failed_iff (env.ingestContext plan.before.revision),
        testStatuses_get, Option.join_eq_some_iff]
    · intro testId
      rw [statuses, reportsTest, ← mem_tests_iff (env.ingestContext plan.before.revision)]
      constructor
      · intro absent known
        obtain ⟨status, found⟩ := all_finished counts known
        rw [absent] at found
        cases found
      · intro unknown
        rw [testStatuses_get, Std.ExtTreeMap.getElem?_eq_none unknown]
        rfl

theorem servedOutcome_statuses {request : VerificationRequest} {stored : VerificationOutcome}
    (nonempty : stored.testStatuses.isEmpty = false) :
    (servedOutcome request stored).testStatuses = stored.testStatuses := by
  simp [servedOutcome, nonempty]

/-- The tests that the stored payload's run reported are in the table ever since. -/
theorem DefaultPass.known {past later : List Operation} {op : Operation} {producer : VerifierEnv}
    {asked : VerificationRequest} {again : Option Recording} {stored : VerificationOutcome}
    {testId : String} (call : op.call = some (producer, asked, again))
    (passes : DefaultPass producer asked again (play past) stored)
    (reported : reportsTest producer.eventFile testId) :
    (play (past ++ op :: later)).hasTest testId = true := by
  obtain ⟨t, answered⟩ := passes.answered
  have ran : t.hasTest testId = true := by
    have result := verifyInternal_result producer asked again (play past)
    rw [answered] at result
    cases result with
    | served idle hit => cases passes.fresh
    | finished admitted observed =>
      exact ((finished_statuses admitted answered).known testId).mpr (.inl reported)
  have performed : (perform op (play past)).hasTest testId = true := by
    rcases perform_cases op (play past) with ⟨idle, -⟩ | ⟨env, request, replay, called, _, kept⟩
    · rw [call] at idle
      cases idle
    · rw [call] at called
      cases called
      rw [hasTest_of_tests kept.tests, answered]
      exact ran
  rw [← play_snoc] at performed
  rw [List.append_cons]
  exact play_hasTest performed later

/-- An answer rewrites the statuses of exactly the tests that its run reports. -/
theorem failedRow_answer {history : List Operation} {env producer : VerifierEnv}
    {request : VerificationRequest} {replay : Option Recording} {outcome : VerificationOutcome}
    {after : EvidenceStore}
    (returned : verifyInternal env request replay (play history) = .ok outcome after)
    (behind : RunBehind history env request replay producer) (testId : String) :
    FailedRow after testId ↔ reportsFailedTest producer.eventFile testId ∨
      (¬ reportsTest producer.eventFile testId ∧ FailedRow (play history) testId) := by
  cases behind with
  | own admitted => exact (finished_statuses admitted returned).failed testId
  | @earlier before past later op producer asked again stored split call passes hit =>
    have result := verifyInternal_result env request replay (play history)
    rw [returned] at result
    cases result with
    | finished admitted observed => exact absurd admitted (hit.idle _)
    | @served second payload idle other =>
      have same := other.captured
      rw [hit.captured] at same
      cases same
      have row := other.row
      rw [hit.row] at row
      cases row
      rw [servedOutcome_statuses passes.statuses_nonempty, failedRow_updateTestStatuses,
        passes.tells.failed, passes.tells.silent]
      have known : reportsFailedTest producer.eventFile testId →
          (play history).hasTest testId = true := fun failed =>
        split ▸ passes.known call (reportsTest_of_failed failed)
      tauto

section Listing
variable (existsAt : String → String → Prop) (history : List Operation)

/-- A request of the history without an explicit selection that passes. -/
structure PassingStep (earlier : List Operation) (env : VerifierEnv) (request : VerificationRequest)
    (revision : String) (after : EvidenceStore) : Prop where
  split : ∃ later, history = earlier ++ .verify env request :: later
  unselected : request.selectedTests = []
  answered : ∃ outcome, verify env request (play earlier) = .ok outcome after ∧
    outcome.status = .passed ∧ outcome.revision = revision

/-- After every passing request no test of its revision is listed as failed. -/
def ListingAgrees : Prop :=
  ∀ earlier env request revision after, PassingStep history earlier env request revision after →
    ∀ testId, existsAt revision testId → ¬ ListedFailed after testId

/-- The run behind every passing request reports no test of the revision as failed, and
reports each that was listed as failed before the request. -/
def RunsCover : Prop :=
  ∀ earlier env request revision after, PassingStep history earlier env request revision after →
    ∀ producer, RunBehind earlier env request none producer →
      ∀ testId, existsAt revision testId → "" < testId →
        ¬ reportsFailedTest producer.eventFile testId ∧
          (ListedFailed (play earlier) testId → reportsTest producer.eventFile testId)

/-- In every history the listing agrees with the verdicts exactly when the runs behind
them cover what was listed as failed. -/
theorem listingAgrees_iff : ListingAgrees existsAt history ↔ RunsCover existsAt history := by
  have step : ∀ {earlier env request revision after producer},
      PassingStep history earlier env request revision after →
      RunBehind earlier env request none producer → ∀ testId,
        (ListedFailed after testId ↔ "" < testId ∧ (reportsFailedTest producer.eventFile testId ∨
          (¬ reportsTest producer.eventFile testId ∧ FailedRow (play earlier) testId))) := by
    intro earlier env request revision after producer passing behind testId
    obtain ⟨outcome, returned, -⟩ := passing.answered
    rw [listedFailed_iff, failedRow_answer returned behind]
  constructor
  · intro agrees earlier env request revision after passing producer behind testId present named
    have clear := agrees earlier env request revision after passing testId present
    rw [step passing behind] at clear
    rw [listedFailed_iff]
    tauto
  · intro cover earlier env request revision after passing testId present
    obtain ⟨outcome, returned, -⟩ := passing.answered
    obtain ⟨producer, behind⟩ := exists_runBehind returned
    have covered := cover earlier env request revision after passing producer behind testId present
    rw [listedFailed_iff] at covered
    rw [step passing behind]
    tauto

end Listing

def aSource : String := "src/main/java/demo/A.java"
def bSource : String := "src/main/java/demo/B.java"

/-- A workspace of two sources, each with the digest of its content. -/
def twoSources (revision a b : String) : RevisionSnapshot where
  revision := revision
  fileDigests := ((∅ : BTreeMap String String).insert aSource a).insert bSource b
  surfaceDigests := ((∅ : BTreeMap String String).insert aSource "surface").insert bSource "surface"

/-- Each source has its own test; both run and end with this status. -/
def bothTests (status : String) : List Json :=
  [rawStart "demo.A#a", rawLine "demo.A#a" aSource, rawFinish "demo.A#a" status,
    rawStart "demo.B#b", rawLine "demo.B#b" bSource, rawFinish "demo.B#b" status]

/-- Both tests pass; then both sources are broken and both fail. -/
def brokenWorkspace : List Operation :=
  [.verify (quietEnv "run-1" (twoSources "rev-1" "a1" "b1") true (bothTests "successful")) .fast,
    .verify (quietEnv "run-2" (twoSources "rev-2" "a2" "b2") false (bothTests "failed")) .fast]

/-- One source is mended and the other taken back, so only the first is tested. -/
def mendedEnv : VerifierEnv :=
  quietEnv "run-3" (twoSources "rev-3" "a3" "b1") true
    [rawStart "demo.A#a", rawLine "demo.A#a" aSource, rawFinish "demo.A#a" "successful"]

/-- The narrowed request and the rows it leaves. -/
def mendedRun : VerifyM (VerificationOutcome × List TestRow) := do
  let outcome ← verify mendedEnv .fast
  let rows ← reading fun s => s.tests
  pure (outcome, rows)

/-- The narrowed run passes while the other test stays listed as failed. -/
theorem unvisited_test_listed_failed :
    ¬ ∀ (existsAt : String → String → Prop) (history : List Operation),
      ListingAgrees existsAt history := by
  intro claim
  have ran : answers (fun o : VerificationOutcome × List TestRow =>
        (o.1.status = .passed && o.1.revision = "rev-3") &&
          o.2.any fun row => row.id = "demo.B#b" && row.lastStatus = some "failed")
      (mendedRun (play brokenWorkspace)) := by decide +kernel
  obtain ⟨⟨outcome, rows⟩, final, combined, seen⟩ := exists_of_answers ran
  obtain ⟨answered, after, returned, listing⟩ := bind_ok.mp combined
  obtain ⟨_, _, read, paired⟩ := bind_ok.mp listing
  obtain ⟨rfl, rfl⟩ := reading_ok.mp read
  obtain ⟨pair, rfl⟩ := pure_ok.mp paired
  cases pair
  simp only [Bool.and_eq_true, decide_eq_true_eq, List.any_eq_true] at seen
  obtain ⟨seen, row, member, failed⟩ := seen
  have step : PassingStep (brokenWorkspace ++ [.verify mendedEnv .fast]) brokenWorkspace mendedEnv
      .fast "rev-3" after := ⟨⟨[], rfl⟩, rfl, outcome, returned, seen⟩
  exact claim (fun _ testId => testId = "demo.A#a" ∨ testId = "demo.B#b") _ _ _ _ _ _ step
    "demo.B#b" (.inr rfl) ((listedFailed_iff after "demo.B#b").mpr ⟨by decide, row, member, failed⟩)

end Walaru
