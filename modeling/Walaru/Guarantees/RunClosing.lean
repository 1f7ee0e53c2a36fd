import Walaru.Guarantees.FreshSuccess
import Walaru.Source.Daemon.RunFailures

/-!
# No run is left running

Whatever fails after the launch, outside the store or in it, the row that the
launch opened is closed: as an error on every path that stops before the answer is
built, and with the status of the answer from then on. Retention runs last and
may delete the row with the run.
-/
namespace Walaru
open Lib.StateResult

/-- The rows that a store holds for a run. -/
def runRowsOf (s : EvidenceStore) (runId : String) : List RunRow :=
  s.runs.filter fun row => row.id = runId

/-- The launched row, closed under a status. -/
def closedRow (env : VerifierEnv) (plan : RunPlan) (status : RunStatus) : RunRow :=
  { launchedRow env plan with status := status, finishedAt := some env.finishedAt }

theorem runRowsOf_launched {env : VerifierEnv} {plan : RunPlan} {s t : EvidenceStore}
    (fresh : s.hasRun env.runId = false) (same : t.runs = (launched env plan s).runs) :
    runRowsOf t env.runId = [launchedRow env plan] := by
  have absent : s.runs.filter (fun row => row.id = env.runId) = [] := by
    simpa [Store.hasRun] using fresh
  rw [runRowsOf, same, launched, List.filter_append, absent]
  simp [launchedRow]

theorem runRowsOf_closedRun {env : VerifierEnv} {plan : RunPlan} {s t : EvidenceStore}
    (fresh : s.hasRun env.runId = false) (same : t.runs = (launched env plan s).runs)
    (status : RunStatus) :
    runRowsOf (closedRun env.runId status env.finishedAt t) env.runId = [closedRow env plan status] := by
  have opened := runRowsOf_launched fresh same
  have ids : (fun row : RunRow => decide (row.id = env.runId)) ∘ (fun row =>
      if row.id = env.runId then { row with status := status, finishedAt := some env.finishedAt }
      else row) = fun row => decide (row.id = env.runId) := by
    funext row
    simp only [Function.comp_apply]
    split <;> rfl
  rw [runRowsOf, closedRun, List.filter_map, ids, ← runRowsOf, opened]
  simp [launchedRow, closedRow]

/-- A run that stops before its verdict is closed as an error. -/
theorem abandonRun_launched {env : VerifierEnv} {plan : RunPlan} {s t : EvidenceStore}
    (fresh : s.hasRun env.runId = false) (same : t.runs = (launched env plan s).runs) :
    abandonRun env.runId plan.before.revision env.finishedAt t =
      closedRun env.runId .error env.finishedAt t := by
  unfold abandonRun
  rw [finishRun_launched fresh same .error plan.before.revision env.finishedAt, if_pos rfl]

theorem desiredStatus_ne_running (success : Bool) (ingested : Ingested) (tests : List String) :
    desiredStatus success ingested tests ≠ .running := by
  unfold desiredStatus
  split
  · simp
  · split <;> simp

theorem verdict_ne_running (plan : RunPlan) (run : RunEvidence) : verdict plan run ≠ .running := by
  unfold verdict
  split
  · exact desiredStatus_ne_running _ _ _
  · simp

section Steps
variable {failures : StoreFailures} {env : VerifierEnv} {request : VerificationRequest}
  {plan : RunPlan} {s t : EvidenceStore}

/-- Until the answer is built: an error closes the row as an error, and a built
answer carries the status of the row. -/
theorem buildOutcome_closes (fresh : s.hasRun env.runId = false) :
    (∀ e, buildOutcome failures env request plan (launched env plan s) = .error e t →
      runRowsOf t env.runId = [closedRow env plan .error]) ∧
    ∀ outcome, buildOutcome failures env request plan (launched env plan s) = .ok outcome t →
      outcome.runId = env.runId ∧ outcome.status ≠ .running ∧
        runRowsOf t env.runId = [closedRow env plan outcome.status] := by
  have keeps : Preserves (fun u : EvidenceStore => u.runs = (launched env plan s).runs)
      (observeFailing failures env request plan) := observeFailing_runs plan _
  constructor
  · intro e failed
    rcases bind_error.mp failed with stopped | ⟨run, u, observed, concluding⟩
    · obtain ⟨u, observed, rfl⟩ := closing_error.mp stopped
      have same := keeps.error rfl observed
      rw [abandonRun_launched fresh same]
      exact runRowsOf_closedRun fresh same .error
    · have same := keeps.ok rfl (closing_ok.mp observed)
      rw [conclude_launched request fresh same run] at concluding
      cases concluding
  · intro outcome built
    obtain ⟨run, u, observed, concluding⟩ := bind_ok.mp built
    have same := keeps.ok rfl (closing_ok.mp observed)
    rw [conclude_launched request fresh same run] at concluding
    cases concluding
    exact ⟨rfl, verdict_ne_running plan run, runRowsOf_closedRun fresh same _⟩

/-- Publication writes the cache and the manifests only, however it ends. -/
theorem publishFailing_runs (replaying : Bool) (outcome : VerificationOutcome)
    (rows : List RunRow) : Preserves (fun s : EvidenceStore => s.runs = rows)
      (publishFailing failures env request replaying plan outcome) := by
  have cacheRow : Preserves (fun s : EvidenceStore => s.runs = rows)
      (writing fun s => s.saveVerificationCache outcome.revision outcome.runId
        (outcomeBlob env outcome) env.cachedAt) := by
    intro s same
    cases saved : writing (fun s => s.saveVerificationCache outcome.revision outcome.runId
        (outcomeBlob env outcome) env.cachedAt) s with
    | ok u t =>
      have wrote := writing_ok.mp saved
      unfold Store.saveVerificationCache at wrote
      split at wrote
      · cases wrote
      · cases wrote
        exact same
    | error e t =>
      obtain ⟨-, -, -, rfl⟩ := writing_error.mp saved
      exact same
  unfold publishFailing
  split
  · exact .bind (ReadOnly.refuse _).preserves fun _ => .bind cacheRow fun _ =>
      .bind (ReadOnly.refuse _).preserves fun _ s same => same
  · exact (ReadOnly.pure _).preserves

theorem retainFailing_runs (s : EvidenceStore) :
    (storeOf (retainFailing failures env s)).runs.Sublist s.runs := by
  unfold retainFailing stoppedBy
  cases failures.prune with
  | none => exact (Store.pruned_prune s env.cutoff env.maxBytes).runs
  | some failure => exact List.filter_sublist

/-- Retention keeps the rows of a run or deletes them. -/
theorem runRowsOf_retained {row : RunRow} {runId : String} (held : runRowsOf s runId = [row]) :
    runRowsOf (storeOf (retainFailing failures env s)) runId = [row] ∨
      runRowsOf (storeOf (retainFailing failures env s)) runId = [] := by
  have kept : (runRowsOf (storeOf (retainFailing failures env s)) runId).Sublist [row] := by
    rw [← held]
    exact (retainFailing_runs s).filter _
  rcases List.sublist_singleton.mp kept with gone | stays
  · exact .inr gone
  · exact .inl stays

end Steps

/-- After the launch, whatever fails in the worker, in its evidence or in the store,
the run is closed: as an error when no answer was built, and otherwise with the
status of the answer, unless retention, which then runs last, deletes the row. -/
theorem launched_run_closes (failures : StoreFailures) (env : VerifierEnv)
    (request : VerificationRequest) (replay : Option Recording) (s : EvidenceStore) (plan : RunPlan)
    (admitted : Admitted env request replay s plan) :
    match buildOutcome failures env request plan (launched env plan s) with
    | .error e t => verifyFailing failures env request replay s = .error e t ∧
        runRowsOf t env.runId = [closedRow env plan .error]
    | .ok outcome t => outcome.status ≠ .running ∧
        runRowsOf t env.runId = [closedRow env plan outcome.status] ∧
        match publishFailing failures env request replay.isSome plan outcome t with
        | .error e u => verifyFailing failures env request replay s = .error e u ∧
            runRowsOf u env.runId = [closedRow env plan outcome.status]
        | .ok _ u => storeOf (verifyFailing failures env request replay s) =
              storeOf (retainFailing failures env u) ∧
            (runRowsOf (storeOf (retainFailing failures env u)) env.runId =
                [closedRow env plan outcome.status] ∨
              runRowsOf (storeOf (retainFailing failures env u)) env.runId = []) := by
  rw [verifyFailing_admitted admitted]
  unfold superviseFailing
  cases built : buildOutcome failures env request plan (launched env plan s) with
  | error e t =>
    exact ⟨bind_of_error built, (buildOutcome_closes admitted.fresh).1 e built⟩
  | ok outcome t =>
    obtain ⟨-, ended, row⟩ := (buildOutcome_closes admitted.fresh).2 outcome built
    have keeps : Preserves (fun v : EvidenceStore => v.runs = t.runs)
        (publishFailing failures env request replay.isSome plan outcome) := publishFailing_runs _ _ _
    rw [bind_of_ok built]
    refine ⟨ended, row, ?_⟩
    cases wrote : publishFailing failures env request replay.isSome plan outcome t with
    | error e u =>
      have same := keeps.error rfl wrote
      exact ⟨bind_of_error wrote, by rw [runRowsOf, same, ← runRowsOf, row]⟩
    | ok _ u =>
      have same := keeps.ok rfl wrote
      have held : runRowsOf u env.runId = [closedRow env plan outcome.status] := by
        rw [runRowsOf, same, ← runRowsOf, row]
      refine ⟨?_, runRowsOf_retained held⟩
      rw [bind_of_ok wrote]
      cases retained : retainFailing failures env u with
      | ok _ v => rw [bind_of_ok retained]; rfl
      | error e v => rw [bind_of_error retained]; rfl

/-- The worker of a first default request runs out of time. -/
def timedOut : VerifierEnv := { demoPass "run-1" with worker := .error .timeout }

def firstPlan : RunPlan := requestedPlan .fast (demoSnapshot "rev-1" "d1")

theorem launched_run_closes_demo :
    verifyFailing .none timedOut .fast none .empty =
        .error .timeout (closedRun "run-1" .error timedOut.finishedAt (launched timedOut firstPlan .empty)) ∧
      runRowsOf (closedRun "run-1" .error timedOut.finishedAt (launched timedOut firstPlan .empty))
        "run-1" = [closedRow timedOut firstPlan .error] := by
  have admitted : Admitted timedOut .fast none .empty firstPlan := by
    refine ⟨?_, ?_, ?_, ?_⟩
    · rfl
    · rfl
    · rfl
    · rfl
  have built : buildOutcome .none timedOut .fast firstPlan (launched timedOut firstPlan .empty) =
      .error .timeout (abandonRun "run-1" "rev-1" timedOut.finishedAt
        (launched timedOut firstPlan .empty)) :=
    bind_of_error (closing_error.mpr ⟨_, rfl, rfl⟩)
  have closes := launched_run_closes .none timedOut .fast none .empty firstPlan admitted
  rw [built] at closes
  exact closes

/-- The clock moves past the age limit while the run is under way. -/
def lateClock : VerifierEnv := { demoPass "run-1" with cutoff := "2026-02-01T00:00:00+00:00" }

/-- The final prune of a passing run can delete the run's own row. -/
theorem retention_deletes_own_run :
    ¬ ∀ (failures : StoreFailures) (env : VerifierEnv) (request : VerificationRequest)
        (replay : Option Recording) (s : EvidenceStore) (plan : RunPlan),
      Admitted env request replay s plan →
        ∃ row ∈ (storeOf (verifyFailing failures env request replay s)).runs,
          row.id = env.runId ∧ row.status ≠ .running := by
  intro claim
  have admitted : Admitted lateClock .fast none .empty firstPlan := ⟨rfl, rfl, rfl, rfl⟩
  obtain ⟨row, member, -⟩ := claim .none lateClock .fast none .empty firstPlan admitted
  have gone : (storeOf (verifyFailing .none lateClock .fast none .empty)).runs.isEmpty := by
    decide +kernel
  rw [List.isEmpty_iff.mp gone] at member
  cases member

end Walaru
