import Walaru.Source.Daemon.History

/-!
# Where a dependency row comes from

The dependency table is global: a run that reports a test replaces all of that
test's rows by the paths of its own covered lines, whether the run passes or not.
So the table holds, for each test, the evidence of the last run that reported it
and finished its ingestion.
-/
namespace Walaru
open Lib.StateResult

/-- The stream starts or finishes the test. -/
def reportsTest (file : EventFile) (testId : String) : Prop :=
  ∃ raw ∈ file.raws, testEvent raw ∧ publicTestId raw = testId

/-- The stream covers a line of the test in the file at this path. -/
def coversLine (env : VerifierEnv) (testId path : String) : Prop :=
  ∃ i raw, env.eventFile.at i raw ∧ kindName raw = "LINE" ∧ publicTestId raw = testId ∧
    sourcePath (env.tree i) raw = some path

/-- The call gets through ingestion with a stream that reports the test. -/
def Reports (env : VerifierEnv) (request : VerificationRequest) (replay : Option Recording)
    (s : EvidenceStore) (testId : String) : Prop :=
  ∃ plan answer t, Admitted env request replay s plan ∧
    ingestRun env request plan (launched env plan s) = .ok answer t ∧
    reportsTest env.eventFile testId

theorem ingestRun_dependencies {env : VerifierEnv} {request : VerificationRequest} {plan : RunPlan}
    {answer : Bool × Ingested} {s t : EvidenceStore}
    (ran : ingestRun env request plan s = .ok answer t) (row : DependencyRow) :
    row ∈ t.dependencies ↔
      (reportsTest env.eventFile row.testId ∧ row.kind = "method" ∧
          coversLine env row.testId row.subject) ∨
        (¬ reportsTest env.eventFile row.testId ∧ row ∈ s.dependencies) := by
  have wrote := (@ingestRun_ok env request plan answer.1 answer.2 s t ran).2.2.2
  rw [wrote.dependencies row, mem_tests_iff, mem_learnedPaths_iff]
  rfl

/-- What a verify call does to the dependency table. -/
theorem verifyInternal_dependencies (env : VerifierEnv) (request : VerificationRequest)
    (replay : Option Recording) (s : EvidenceStore) (row : DependencyRow) :
    row ∈ (storeOf (verifyInternal env request replay s)).dependencies ↔
      (Reports env request replay s row.testId ∧ row.kind = "method" ∧
          coversLine env row.testId row.subject) ∨
        (¬ Reports env request replay s row.testId ∧ row ∈ s.dependencies) := by
  have result := verifyInternal_result env request replay s
  generalize verifyInternal env request replay s = r at result
  have unread : (∀ plan, ¬ Admitted env request replay s plan) →
      ¬ Reports env request replay s row.testId := by
    rintro idle ⟨plan, _, _, admitted, -⟩
    exact idle plan admitted
  have read : ∀ {plan answer t}, Admitted env request replay s plan →
      ingestRun env request plan (launched env plan s) = .ok answer t →
      (Reports env request replay s row.testId ↔ reportsTest env.eventFile row.testId) := by
    intro plan answer t admitted ran
    exact ⟨fun ⟨_, _, _, _, _, reported⟩ => reported,
      fun reported => ⟨plan, answer, t, admitted, ran, reported⟩⟩
  cases result with
  | refused e idle => simp [storeOf, unread idle]
  | served idle hit => simp [storeOf, unread idle, Store.updateTestStatuses]
  | @abandoned plan e t admitted stopped =>
    have closed : (abandonRun env.runId plan.before.revision env.finishedAt t).dependencies =
        t.dependencies := by
      rcases abandonRun_cases env.runId plan.before.revision env.finishedAt t with
        same | ⟨status, same⟩
      · rw [same]
      · rw [same, closedRun]
    rw [storeOf, closed]
    rcases observeRun_error stopped with halted | ⟨answer, ran⟩
    · have silent : ¬ Reports env request replay s row.testId := by
        rintro ⟨other, answer, u, again, ran, -⟩
        rw [← admitted.unique again, halted] at ran
        cases ran
      obtain ⟨rows, wrote, -⟩ := ingestRun_error_rows halted
      simp [silent, wrote.dependencies, launched]
    · rw [ingestRun_dependencies ran, read admitted ran]
      rfl
  | @finished plan run t admitted observed =>
    have kept : ((finishedStore env request replay.isSome plan run t).prune env.cutoff
        env.maxBytes).dependencies = t.dependencies := by
      rw [(Store.pruned_prune _ _ _).dependencies, finishedStore, published]
      split <;> rfl
    rw [storeOf, kept, ingestRun_dependencies observed.ran, read admitted observed.ran]
    rfl

/-- The environment of the last operation that reported the test. -/
inductive LastReport (testId : String) : List Operation → VerifierEnv → Prop where
  | now {history : List Operation} {op : Operation} {env : VerifierEnv}
      {request : VerificationRequest} {replay : Option Recording}
      (call : op.call = some (env, request, replay))
      (reports : Reports env request replay (play history) testId) :
      LastReport testId (history ++ [op]) env
  | before {history : List Operation} {op : Operation} {env : VerifierEnv}
      (last : LastReport testId history env)
      (silent : ∀ later request replay, op.call = some (later, request, replay) →
        ¬ Reports later request replay (play history) testId) :
      LastReport testId (history ++ [op]) env

theorem LastReport.nil {testId : String} {env : VerifierEnv} : ¬ LastReport testId [] env := by
  intro last
  generalize empty : ([] : List Operation) = history at last
  cases last with
  | now call reports => simp at empty
  | before last silent => simp at empty

theorem LastReport.snoc_iff {testId : String} {history : List Operation} {op : Operation}
    {env : VerifierEnv} :
    LastReport testId (history ++ [op]) env ↔
      (∃ request replay, op.call = some (env, request, replay) ∧
        Reports env request replay (play history) testId) ∨
      (LastReport testId history env ∧ ∀ later request replay,
        op.call = some (later, request, replay) →
          ¬ Reports later request replay (play history) testId) := by
  constructor
  · intro last
    generalize extended : history ++ [op] = whole at last
    cases last with
    | now call reports =>
      obtain ⟨rfl, same⟩ := List.append_inj' extended rfl
      cases same
      exact .inl ⟨_, _, call, reports⟩
    | before last silent =>
      obtain ⟨rfl, same⟩ := List.append_inj' extended rfl
      cases same
      exact .inr ⟨last, silent⟩
  · rintro (⟨request, replay, call, reports⟩ | ⟨last, silent⟩)
    · exact .now call reports
    · exact .before last silent

/-- After every history the table holds what the last report of each test covers. -/
theorem mem_dependencies_iff (history : List Operation) :
    ∀ row, row ∈ (play history).dependencies ↔
      row.kind = "method" ∧ ∃ env, LastReport row.testId history env ∧
        coversLine env row.testId row.subject := by
  refine play_induction (P := fun history s => ∀ row, row ∈ s.dependencies ↔
    row.kind = "method" ∧ ∃ env, LastReport row.testId history env ∧
      coversLine env row.testId row.subject) ?_ ?_ history
  · intro row
    simp [Store.empty, LastReport.nil]
  · intro history op ih row
    simp only [LastReport.snoc_iff]
    rcases perform_cases op (play history) with ⟨idle, _, kept⟩ | ⟨env, request, replay, call, _, kept⟩
    · simp [kept.dependencies, ih row, idle]
    · rw [kept.dependencies]
      simp only [verifyInternal_dependencies, ih row, call, Option.some.injEq, Prod.mk.injEq]
      constructor
      · rintro (⟨reports, kind, covers⟩ | ⟨silent, kind, last, found, covers⟩)
        · exact ⟨kind, env, .inl ⟨request, replay, ⟨rfl, rfl, rfl⟩, reports⟩, covers⟩
        · refine ⟨kind, last, .inr ⟨found, ?_⟩, covers⟩
          rintro _ _ _ ⟨rfl, rfl, rfl⟩
          exact silent
      · rintro ⟨kind, last, ⟨_, _, ⟨rfl, rfl, rfl⟩, reports⟩ | ⟨found, silent⟩, covers⟩
        · exact .inl ⟨reports, kind, covers⟩
        · exact .inr ⟨silent env request replay ⟨rfl, rfl, rfl⟩, kind, last, found, covers⟩

end Walaru
