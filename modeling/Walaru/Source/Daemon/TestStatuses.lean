import Walaru.Source.Daemon.LearnedEdges

/-!
# The last status of a test

What the procedures leave in the `tests` table. A completed ingestion writes the status
of every test that its stream starts or finishes, a cache hit the statuses of the cached
answer; nothing else changes a status, and no row ever goes.
-/
namespace Walaru
open Lib.StateResult

/-- A row of the table says that the test failed last. -/
def FailedRow (s : EvidenceStore) (testId : String) : Prop :=
  ∃ row ∈ s.tests, row.id = testId ∧ row.lastStatus = some "failed"

theorem hasTest_iff (s : EvidenceStore) (testId : String) :
    s.hasTest testId = true ↔ ∃ row ∈ s.tests, row.id = testId := by
  simp [Store.hasTest]

theorem FailedRow.of_tests {s t : EvidenceStore} (same : t.tests = s.tests) (testId : String) :
    FailedRow t testId ↔ FailedRow s testId := by
  rw [FailedRow, FailedRow, same]

theorem hasTest_of_tests {s t : EvidenceStore} (same : t.tests = s.tests) (testId : String) :
    t.hasTest testId = s.hasTest testId := by
  rw [Store.hasTest, Store.hasTest, same]

theorem mem_upsertTest (s : EvidenceStore) (test row : TestRow) :
    row ∈ (s.upsertTest test).tests ↔ row = test ∨ (row.id ≠ test.id ∧ row ∈ s.tests) := by
  unfold Store.upsertTest
  split
  · rename_i known
    obtain ⟨old, present, named⟩ := (hasTest_iff s test.id).mp known
    simp only [List.mem_map]
    constructor
    · rintro ⟨before, member, rfl⟩
      split
      · exact .inl rfl
      · rename_i other
        exact .inr ⟨other, member⟩
    · rintro (rfl | ⟨other, member⟩)
      · exact ⟨old, present, by simp [named]⟩
      · exact ⟨row, member, by simp [other]⟩
  · rename_i unknown
    have absent : row ∈ s.tests → row.id ≠ test.id := fun member same =>
      unknown ((hasTest_iff s test.id).mpr ⟨row, member, same⟩)
    simp only [List.mem_append, List.mem_singleton]
    tauto

theorem failedRow_upsertTest (s : EvidenceStore) (test : TestRow) (testId : String) :
    FailedRow (s.upsertTest test) testId ↔
      (testId = test.id ∧ test.lastStatus = some "failed") ∨
        (testId ≠ test.id ∧ FailedRow s testId) := by
  simp only [FailedRow, mem_upsertTest]
  constructor
  · rintro ⟨row, rfl | ⟨other, member⟩, rfl, failed⟩
    · exact .inl ⟨rfl, failed⟩
    · exact .inr ⟨other, row, member, rfl, failed⟩
  · rintro (⟨rfl, failed⟩ | ⟨other, row, member, rfl, failed⟩)
    · exact ⟨test, .inl rfl, rfl, failed⟩
    · exact ⟨row, .inr ⟨other, member⟩, rfl, failed⟩

theorem hasTest_upsertTest_iff (s : EvidenceStore) (test : TestRow) (testId : String) :
    (s.upsertTest test).hasTest testId = true ↔ testId = test.id ∨ s.hasTest testId = true := by
  simp only [hasTest_iff, mem_upsertTest]
  constructor
  · rintro ⟨row, rfl | ⟨-, member⟩, rfl⟩
    · exact .inl rfl
    · exact .inr ⟨row, member, rfl⟩
  · rintro (rfl | ⟨row, member, rfl⟩)
    · exact ⟨test, .inl rfl, rfl⟩
    · by_cases same : row.id = test.id
      · exact ⟨test, .inl rfl, same.symm⟩
      · exact ⟨row, .inr ⟨same, member⟩, rfl⟩

theorem failedRow_updateTestStatuses (s : EvidenceStore) (statuses : BTreeMap String String)
    (testId : String) :
    FailedRow (s.updateTestStatuses statuses) testId ↔
      (statuses[testId]? = some "failed" ∧ s.hasTest testId = true) ∨
        (statuses[testId]? = none ∧ FailedRow s testId) := by
  rw [hasTest_iff]
  simp only [FailedRow, Store.updateTestStatuses, List.mem_map, Std.ExtTreeMap.get?_eq_getElem?]
  constructor
  · rintro ⟨_, ⟨row, member, rfl⟩, rfl, failed⟩
    cases known : statuses[row.id]? with
    | none =>
      simp only [known] at failed ⊢
      exact .inr ⟨trivial, row, member, rfl, failed⟩
    | some status =>
      simp only [known, Option.some.injEq] at failed ⊢
      exact .inl ⟨failed, row, member, rfl⟩
  · rintro (⟨failed, row, member, rfl⟩ | ⟨silent, row, member, rfl, failed⟩)
    · exact ⟨_, ⟨row, member, rfl⟩, by simp [failed], by simp [failed]⟩
    · exact ⟨_, ⟨row, member, rfl⟩, by simp [silent], by simpa [silent] using failed⟩

theorem hasTest_updateTestStatuses (s : EvidenceStore) (statuses : BTreeMap String String)
    (testId : String) : (s.updateTestStatuses statuses).hasTest testId = s.hasTest testId := by
  rw [Bool.eq_iff_iff, hasTest_iff, hasTest_iff]
  simp only [Store.updateTestStatuses, List.mem_map]
  constructor
  · rintro ⟨_, ⟨row, member, rfl⟩, rfl⟩
    exact ⟨row, member, by split <;> rfl⟩
  · rintro ⟨row, member, rfl⟩
    exact ⟨_, ⟨row, member, rfl⟩, by split <;> rfl⟩

theorem replaceCoverage_tests {s t : EvidenceStore} {testId : String}
    {coverage : List (String × Nat × String)} (success : s.replaceCoverage testId coverage = .ok t) :
    t.tests = s.tests := by
  simp only [Store.replaceCoverage, bind, Except.bind, pure, Except.pure] at success
  split at success
  · cases success
  · split at success
    · cases success
    · cases success
      rfl

theorem replaceDependencies_tests {s t : EvidenceStore} {testId : String}
    {dependencies : List (String × String)}
    (success : s.replaceDependencies testId dependencies = .ok t) : t.tests = s.tests := by
  simp only [Store.replaceDependencies, bind, Except.bind, pure, Except.pure] at success
  split at success
  · cases success
  · split at success
    · cases success
    · cases success
      rfl

/-- The table after one observed test is that of its row. -/
theorem recordTest_tests {st : IngestState} {test : String × Option String} {s t : EvidenceStore}
    {u : Unit} (success : recordTest st test s = .ok u t) :
    t.tests = (s.upsertTest ⟨test.1, test.1, (st.modules.get? test.1).getD ":", test.2⟩).tests := by
  simp only [recordTest, bind_ok, writing_ok] at success
  obtain ⟨_, first, upserted, _, second, covered, learned⟩ := success
  cases upserted
  rw [replaceDependencies_tests learned, replaceCoverage_tests covered]

theorem failedRow_recordTests {st : IngestState} {tests : List (String × Option String)}
    (distinct : (tests.map Prod.fst).Nodup) {s t : EvidenceStore} {u : Unit}
    (success : recordTests st tests s = .ok u t) (testId : String) :
    FailedRow t testId ↔ (testId, some "failed") ∈ tests ∨
      (testId ∉ tests.map Prod.fst ∧ FailedRow s testId) := by
  induction tests generalizing s with
  | nil =>
    obtain ⟨-, rfl⟩ := pure_ok.mp success
    simp
  | cons test rest ih =>
    obtain ⟨_, mid, first, later⟩ := bind_ok.mp success
    obtain ⟨once, distinct⟩ := List.nodup_cons.mp distinct
    rw [ih distinct later, FailedRow.of_tests (recordTest_tests first), failedRow_upsertTest]
    obtain ⟨name, status⟩ := test
    have only : (testId, some "failed") ∈ rest → testId ≠ name := fun member same =>
      once (List.mem_map.mpr ⟨_, member, same⟩)
    simp only [List.mem_cons, Prod.mk.injEq, List.map_cons, not_or]
    by_cases same : testId = name
    · subst same
      have silent : (testId, some "failed") ∉ rest := fun member => only member rfl
      simp [once, silent, eq_comm]
    · simp [same]

theorem hasTest_recordTests {st : IngestState} {tests : List (String × Option String)}
    {s t : EvidenceStore} {u : Unit} (success : recordTests st tests s = .ok u t) (testId : String) :
    t.hasTest testId = true ↔ testId ∈ tests.map Prod.fst ∨ s.hasTest testId = true := by
  induction tests generalizing s with
  | nil =>
    obtain ⟨-, rfl⟩ := pure_ok.mp success
    simp
  | cons test rest ih =>
    obtain ⟨_, mid, first, later⟩ := bind_ok.mp success
    rw [ih later, hasTest_of_tests (recordTest_tests first), hasTest_upsertTest_iff, List.map_cons,
      List.mem_cons]
    tauto

/-- The stream's events that finish the test. -/
def finishesOf (file : EventFile) (testId : String) : List Json :=
  file.raws.filter fun raw => kindName raw = "TEST_FINISH" && publicTestId raw = testId

/-- The last event that finishes the test reports a failure. -/
def reportsFailedTest (file : EventFile) (testId : String) : Prop :=
  (finishesOf file testId).getLast?.map finishStatus = some "failed"

theorem observeAll_status (ctx : IngestContext) (raws : List Json) (testId : String) :
    (observeAll ctx .start raws).tests[testId]?.join =
      ((raws.filter fun raw => kindName raw = "TEST_FINISH" && publicTestId raw = testId).getLast?).map
        finishStatus := by
  induction raws using List.reverseRecOn with
  | nil => simp [observeAll, IngestState.start]
  | append_singleton raws raw ih =>
    rw [observeAll_append, show observeAll ctx (observeAll ctx .start raws) [raw] =
      (observeAll ctx .start raws).observe ctx raw from rfl, observe_tests]
    split
    · rename_i start
      rw [Std.ExtTreeMap.getElem?_insertIfNew, List.filter_append]
      simp only [start, List.filter_cons, List.filter_nil, String.reduceEq, decide_false,
        Bool.false_and, Bool.false_eq_true, if_false, List.append_nil, ← ih]
      split
      · rename_i first
        have absent := Std.ExtTreeMap.getElem?_eq_none first.2
        rw [Std.LawfulEqCmp.eq_of_compare first.1] at absent
        simp [absent]
      · rfl
    · split
      · rename_i finish
        rw [Std.ExtTreeMap.getElem?_insert, List.filter_append]
        by_cases same : publicTestId raw = testId
        · simp [finish, same]
        · simp [finish, same, ih]
      · rename_i other
        simp [other, ih]

theorem finalState_failed_iff (ctx : IngestContext) (file : EventFile) (testId : String) :
    (finalState ctx file).tests[testId]? = some (some "failed") ↔ reportsFailedTest file testId := by
  rw [reportsFailedTest, finishesOf, ← observeAll_status ctx, Option.join_eq_some_iff]
  rfl

theorem reportsTest_of_failed {file : EventFile} {testId : String}
    (failed : reportsFailedTest file testId) : reportsTest file testId := by
  obtain ⟨raw, last, -⟩ := Option.map_eq_some_iff.mp failed
  have member := List.mem_filter.mp (List.mem_of_getLast? last)
  simp only [Bool.and_eq_true, decide_eq_true_eq] at member
  exact ⟨raw, member.1, .inr member.2.1, member.2.2⟩

/-- What a completed ingestion leaves in the table. -/
structure StatusesIngested (file : EventFile) (s t : EvidenceStore) : Prop where
  failed : ∀ testId, FailedRow t testId ↔
    reportsFailedTest file testId ∨ (¬ reportsTest file testId ∧ FailedRow s testId)
  known : ∀ testId, t.hasTest testId = true ↔ reportsTest file testId ∨ s.hasTest testId = true

theorem ingestEvents_statuses {ctx : IngestContext} {file : EventFile} {ingested : Ingested}
    {s t : EvidenceStore} (success : ingestEvents ctx file s = .ok ingested t) :
    StatusesIngested file s t := by
  cases file with
  | missing =>
    obtain ⟨rfl, rfl⟩ := pure_ok.mp success
    constructor
    · simp [reportsFailedTest, finishesOf, reportsTest, EventFile.raws]
    · simp [reportsTest, EventFile.raws]
  | unreadable message => simp [ingestEvents] at success
  | lines stream =>
    simp only [ingestEvents, bind_ok, pure_ok] at success
    obtain ⟨st, mid, streamed, _, _, recorded, rfl, rfl⟩ := success
    obtain ⟨rfl, wrote⟩ := ingestLines_effects streamed
    have ended : observeAll ctx .start (stream.filterMap StreamLine.raw?) =
        finalState ctx (.lines stream) := rfl
    rw [ended] at recorded
    have keys := Std.ExtTreeMap.map_fst_toList_eq_keys (t := (finalState ctx (.lines stream)).tests)
    constructor
    · intro testId
      rw [failedRow_recordTests (keys ▸ Std.ExtTreeMap.nodup_keys) recorded, keys,
        Std.ExtTreeMap.mem_keys, Std.ExtTreeMap.mem_toList_iff_getElem?_eq_some,
        finalState_failed_iff, mem_tests_iff, FailedRow.of_tests wrote.tests]
      rfl
    · intro testId
      rw [hasTest_recordTests recorded, keys, Std.ExtTreeMap.mem_keys, mem_tests_iff,
        hasTest_of_tests wrote.tests]
      rfl

theorem ingestRun_statuses {env : VerifierEnv} {request : VerificationRequest} {plan : RunPlan}
    {answer : Bool × Ingested} {s t : EvidenceStore}
    (ran : ingestRun env request plan s = .ok answer t) : StatusesIngested env.eventFile s t := by
  simp only [ingestRun, bind_ok, checkCancellation_ok, refuse_ok, answer_ok, pure_ok] at ran
  obtain ⟨_, _, ⟨-, rfl⟩, _, _, ⟨-, rfl⟩, _, _, ⟨-, rfl⟩, found, _, read, -, rfl⟩ := ran
  exact ingestEvents_statuses read

theorem closedRun_tests (runId finishedAt : String) (status : RunStatus) (s : EvidenceStore) :
    (closedRun runId status finishedAt s).tests = s.tests := rfl

theorem abandonRun_tests (runId revision finishedAt : String) (s : EvidenceStore) :
    (abandonRun runId revision finishedAt s).tests = s.tests := by
  rcases abandonRun_cases runId revision finishedAt s with same | ⟨status, closed⟩
  · rw [same]
  · rw [closed, closedRun_tests]

/-- Neither the verdict nor publication nor the prune touches the table. -/
theorem finishedStore_tests (env : VerifierEnv) (request : VerificationRequest) (replaying : Bool)
    (plan : RunPlan) (run : RunEvidence) (t : EvidenceStore) :
    ((finishedStore env request replaying plan run t).prune env.cutoff env.maxBytes).tests =
      t.tests := by
  rw [(Store.pruned_prune _ _ _).tests, finishedStore, published]
  split <;> rfl

/-- A request that finishes its run leaves what its stream reports. -/
theorem finished_statuses {env : VerifierEnv} {request : VerificationRequest}
    {replay : Option Recording} {s after : EvidenceStore} {plan : RunPlan}
    {outcome : VerificationOutcome} (admitted : Admitted env request replay s plan)
    (returned : verifyInternal env request replay s = .ok outcome after) :
    StatusesIngested env.eventFile s after := by
  have result := verifyInternal_result env request replay s
  rw [returned] at result
  cases result with
  | served idle hit => exact absurd admitted (idle plan)
  | @finished plan run t admitted observed =>
    have same := finishedStore_tests env request replay.isSome plan run t
    have ingested := ingestRun_statuses observed.ran
    constructor
    · intro testId
      rw [FailedRow.of_tests same, ingested.failed]
      rfl
    · intro testId
      rw [hasTest_of_tests same, ingested.known]
      rfl

theorem verifyInternal_hasTest {testId : String} {s : EvidenceStore} (known : s.hasTest testId = true)
    (env : VerifierEnv) (request : VerificationRequest) (replay : Option Recording) :
    (storeOf (verifyInternal env request replay s)).hasTest testId = true := by
  have result := verifyInternal_result env request replay s
  generalize verifyInternal env request replay s = r at result
  cases result with
  | refused e idle => exact known
  | served idle hit => rwa [storeOf, hasTest_updateTestStatuses]
  | @abandoned plan e t admitted stopped =>
    rw [storeOf, hasTest_of_tests (abandonRun_tests _ _ _ t)]
    rcases observeRun_error stopped with halted | ⟨answer, ran⟩
    · obtain ⟨rows, wrote, -⟩ := ingestRun_error_rows halted
      rwa [hasTest_of_tests wrote.tests]
    · exact ((ingestRun_statuses ran).known testId).mpr (.inr known)
  | @finished plan run t admitted observed =>
    rw [storeOf, hasTest_of_tests (finishedStore_tests env request _ plan run t)]
    exact ((ingestRun_statuses observed.ran).known testId).mpr (.inr known)

theorem perform_hasTest {testId : String} {s : EvidenceStore} (known : s.hasTest testId = true)
    (op : Operation) : (perform op s).hasTest testId = true := by
  rcases perform_cases op s with ⟨-, _, kept⟩ | ⟨env, request, replay, -, _, kept⟩
  · rwa [hasTest_of_tests kept.tests]
  · rw [hasTest_of_tests kept.tests]
    exact verifyInternal_hasTest known env request replay

/-- No operation removes a test. -/
theorem play_hasTest {testId : String} {history : List Operation}
    (known : (play history).hasTest testId = true) (later : List Operation) :
    (play (history ++ later)).hasTest testId = true := by
  induction later using List.reverseRecOn with
  | nil => simpa using known
  | append_singleton later op ih =>
    rw [← List.append_assoc, play_snoc]
    exact perform_hasTest ih op

end Walaru
