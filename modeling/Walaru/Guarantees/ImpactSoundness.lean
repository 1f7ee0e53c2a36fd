import Walaru.Guarantees.FreshSuccess
import Walaru.Source.Daemon.LearnedEdges

/-!
# Narrowing against the stored baseline

The baseline revision moves only when a default run passes, but every run that
reports a test replaces that test's learned paths. A narrowed selection therefore
keeps a test of the baseline exactly when the test's last report, from whatever
run, still covers one of the differing paths.
-/
namespace Walaru
open Lib.StateResult

/-- A run that verified the revision reported the test and covered a line of it in
the file at this path. -/
def BaselineEvidence (history : List Operation) (revision test path : String) : Prop :=
  ∃ earlier op later env request replay outcome after,
    history = earlier ++ op :: later ∧ op.call = some (env, request, replay) ∧
      verifyInternal env request replay (play earlier) = .ok outcome after ∧
      outcome.cached = false ∧ outcome.status = .passed ∧ outcome.revision = revision ∧
      reportsTest env.eventFile test ∧ coversLine env test path

/-- The path has another content than in the baseline. -/
def Differs (baseline : RevisionManifest) (current : RevisionSnapshot) (path : String) : Prop :=
  baseline.fileDigests.get? path ≠ current.fileDigests.get? path

instance (baseline : RevisionManifest) (current : RevisionSnapshot) (path : String) :
    Decidable (Differs baseline current path) := by
  unfold Differs
  infer_instance

/-- The last run that reported the test still covers a differing path. -/
def StillLearned (history : List Operation) (baseline : RevisionManifest)
    (current : RevisionSnapshot) (test : String) : Prop :=
  ∃ env path, LastReport test history env ∧ coversLine env test path ∧ Differs baseline current path

/-- A default request that names no baseline. -/
structure Unselected (request : VerificationRequest) : Prop where
  fast : request.mode = .fast
  tests : request.selectedTests = []
  narrow : request.full = false
  since : request.since = none

theorem requestedPlan_selection (request : VerificationRequest) (before : RevisionSnapshot) :
    (requestedPlan request before).selection ≠ "impact" := by
  unfold requestedPlan
  dsimp only
  split
  · decide
  · split <;> decide

/-- A narrowed plan is the answer of `impacted_tests`. -/
theorem chooseTests_narrowed {env : VerifierEnv} {request : VerificationRequest}
    {before : RevisionSnapshot} {plan : RunPlan} {s t : EvidenceStore}
    (unselected : Unselected request) (chosen : chooseTests env request before s = .ok plan t)
    (narrowed : plan.selection = "impact") :
    impactedTests s before none = some plan.selectedTests := by
  have allowed : impactable request = true := by
    simp [impactable, unselected.fast, unselected.tests, unselected.narrow]
  have asks : askImpact env request before = reading fun s => impactedTests s before none := by
    simp [askImpact, unselected.since]
  unfold chooseTests at chosen
  rw [if_pos allowed, asks] at chosen
  obtain ⟨impact, u, asked, chosen⟩ := bind_ok.mp chosen
  obtain ⟨found, rfl⟩ := reading_ok.mp asked
  cases impact with
  | none =>
    obtain ⟨rfl, -⟩ := pure_ok.mp chosen
    exact absurd narrowed (requestedPlan_selection request before)
  | some tests =>
    obtain ⟨rfl, -⟩ := pure_ok.mp chosen
    exact found

theorem selected_iff_stillLearned {history : List Operation} {current : RevisionSnapshot}
    {revision : String} {baseline : RevisionManifest} {tests : List String}
    (narrowing : Narrowing (play history) current revision baseline tests) (test : String) :
    test ∈ tests ↔ StillLearned history baseline current test := by
  rw [narrowing.selected]
  constructor
  · rintro ⟨row, member, differs, rfl⟩
    obtain ⟨-, env, last, covers⟩ := (mem_dependencies_iff history row).mp member
    exact ⟨env, row.subject, last, covers, differs⟩
  · rintro ⟨env, path, last, covers, differs⟩
    exact ⟨⟨test, path, "method"⟩,
      (mem_dependencies_iff history ⟨test, path, "method"⟩).mpr ⟨rfl, env, last, covers⟩,
      differs, rfl⟩

/-- After every history, a narrowed default request keeps the tests that the
verified baseline relates to the edit exactly when the last report of each of
them covers a differing path. -/
theorem narrowed_covers_baseline_iff (history : List Operation) (env : VerifierEnv)
    (request : VerificationRequest) (before : RevisionSnapshot) (plan : RunPlan)
    (after : EvidenceStore) (unselected : Unselected request)
    (chosen : chooseTests env request before (play history) = .ok plan after)
    (narrowed : plan.selection = "impact") :
    ∃ revision baseline, (play history).latestCachedRevision = some revision ∧
      (play history).revisionManifest revision = some baseline ∧
      ((∀ test path, BaselineEvidence history revision test path → Differs baseline before path →
          test ∈ plan.selectedTests) ↔
        (∀ test path, BaselineEvidence history revision test path → Differs baseline before path →
          StillLearned history baseline before test)) := by
  obtain ⟨revision, baseline, found, narrowing⟩ :=
    impactedTests_narrowing (chooseTests_narrowed unselected chosen narrowed)
  refine ⟨revision, baseline, by simpa using found, narrowing.stored, ?_⟩
  simp only [selected_iff_stillLearned narrowing]

def appSource : String := "src/main/java/demo/App.java"

/-- Both tests run through the source and pass. -/
def baselineEnv : VerifierEnv :=
  quietEnv "run-1" (demoSnapshot "rev-1" "d1") true
    [rawStart "demo.A#a", rawLine "demo.A#a" appSource, rawFinish "demo.A#a" "successful",
      rawStart "demo.B#b", rawLine "demo.B#b" appSource, rawFinish "demo.B#b" "successful"]

def baselineRun : Operation := .verify baselineEnv .fast

/-- After an edit one test fails before it reaches the source, and the build stops. -/
def failingRun : Operation :=
  .verify (quietEnv "run-2" (demoSnapshot "rev-2" "d2") false
    [rawStart "demo.A#a", rawFinish "demo.A#a" "failed"]) .fast

theorem unselected_fast : Unselected .fast := ⟨rfl, rfl, rfl, rfl⟩

theorem narrowed_covers_baseline_iff_demo :
    ∃ plan after, chooseTests (quietEnv "run-2" (demoSnapshot "rev-2" "d2") true []) .fast
        (demoSnapshot "rev-2" "d2") (play [baselineRun]) = .ok plan after ∧
      ∃ revision baseline, (play [baselineRun]).latestCachedRevision = some revision ∧
        (play [baselineRun]).revisionManifest revision = some baseline ∧
        ((∀ test path, BaselineEvidence [baselineRun] revision test path →
            Differs baseline (demoSnapshot "rev-2" "d2") path → test ∈ plan.selectedTests) ↔
          (∀ test path, BaselineEvidence [baselineRun] revision test path →
            Differs baseline (demoSnapshot "rev-2" "d2") path →
              StillLearned [baselineRun] baseline (demoSnapshot "rev-2" "d2") test)) := by
  have ran : answers (fun plan : RunPlan => plan.selection = "impact")
      (chooseTests (quietEnv "run-2" (demoSnapshot "rev-2" "d2") true []) .fast
        (demoSnapshot "rev-2" "d2") (play [baselineRun])) := by decide +kernel
  obtain ⟨plan, after, chosen, narrowed⟩ := exists_of_answers ran
  exact ⟨plan, after, chosen, narrowed_covers_baseline_iff _ _ _ _ plan after unselected_fast chosen
    (by simpa using narrowed)⟩

/-- The next edit of the source no longer selects the test that failed, although
the verified baseline relates it to the source. -/
theorem narrowed_drops_failed_test :
    ¬ ∀ (history : List Operation) (env : VerifierEnv) (request : VerificationRequest)
        (before : RevisionSnapshot) (plan : RunPlan) (after : EvidenceStore) (revision : String)
        (baseline : RevisionManifest) (test path : String), Unselected request →
      chooseTests env request before (play history) = .ok plan after → plan.selection = "impact" →
      (play history).latestCachedRevision = some revision →
      (play history).revisionManifest revision = some baseline →
      BaselineEvidence history revision test path → Differs baseline before path →
      test ∈ plan.selectedTests := by
  intro claim
  have ran : (answers (fun plan : RunPlan =>
        plan.selection = "impact" && plan.selectedTests = ["demo.B#b"])
      (chooseTests (quietEnv "run-3" (demoSnapshot "rev-3" "d3") true []) .fast
        (demoSnapshot "rev-3" "d3") (play [baselineRun, failingRun])) = true) ∧
      (play [baselineRun, failingRun]).latestCachedRevision = some "rev-1" ∧
      (play [baselineRun, failingRun]).revisionManifest "rev-1" =
        some (manifestOf (demoSnapshot "rev-1" "d1")) := by decide +kernel
  obtain ⟨chosen, latest, manifest⟩ := ran
  obtain ⟨plan, after, chosen, narrowed⟩ := exists_of_answers chosen
  simp only [Bool.and_eq_true, decide_eq_true_eq] at narrowed
  have passed : answers (fun o : VerificationOutcome =>
        !o.cached && o.status = .passed && o.revision = "rev-1")
      (verifyInternal baselineEnv .fast none (play [])) := by decide +kernel
  obtain ⟨outcome, stored, returned, verified⟩ := exists_of_answers passed
  simp only [Bool.and_eq_true, decide_eq_true_eq, Bool.not_eq_true'] at verified
  have evidence : BaselineEvidence [baselineRun, failingRun] "rev-1" "demo.A#a" appSource :=
    ⟨[], baselineRun, [failingRun], _, _, _, outcome, stored, rfl, rfl, returned, verified.1.1,
      verified.1.2, verified.2, ⟨rawStart "demo.A#a", by decide, by decide, by decide⟩,
      1, rawLine "demo.A#a" appSource, rfl, by decide, by decide, by decide⟩
  have selected := claim [baselineRun, failingRun] _ .fast (demoSnapshot "rev-3" "d3") plan after
    "rev-1" (manifestOf (demoSnapshot "rev-1" "d1")) "demo.A#a" appSource unselected_fast chosen
    narrowed.1 latest manifest evidence (by decide)
  rw [narrowed.2] at selected
  exact absurd selected (by decide)

end Walaru
