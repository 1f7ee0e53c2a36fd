import Walaru.Source.Daemon.VerifierEffects

/-!
# The verify procedure over a failing store

`VerifierEnv` answers for everything outside the store; a statement of the store
itself fails there only on the schema. Here it may also fail as a full disk or a
locked database makes it fail: inside ingestion, at either statement of
publication, inside the final prune. Opening and closing the run's row succeed.
-/
namespace Walaru
open Lib.StateResult

/-- Ingestion cut short by the store: the error, and what its statements left of the
tables they name. None of them names the table of runs. -/
structure IngestFailure where
  error : VerifierError
  tests : List TestRow
  dependencies : List DependencyRow
  events : List EventRow
  failures : List FailureRecord
  coverage : List CoverageRow

/-- Retention cut short by the store: the error, and the items deleted until then. -/
structure PruneFailure where
  error : VerifierError
  runs : List String
  recordings : List String
  manifests : List String

structure StoreFailures where
  ingest : Option IngestFailure
  cacheRow : Option VerifierError
  manifestRow : Option VerifierError
  prune : Option PruneFailure

def StoreFailures.none : StoreFailures := ⟨.none, .none, .none, .none⟩

def IngestFailure.left (failure : IngestFailure) (s : EvidenceStore) : EvidenceStore :=
  { s with
    tests := failure.tests
    dependencies := failure.dependencies
    events := failure.events
    failures := failure.failures
    coverage := failure.coverage }

def PruneFailure.left (failure : PruneFailure) (s : EvidenceStore) : EvidenceStore :=
  ((s.deleteRuns failure.runs).deleteRecordings fun row => row.id ∈ failure.recordings).deleteManifests
    fun row => row.revision ∈ failure.manifests

/-- `x`, or the error and the store that a failing statement leaves in its place. -/
def stoppedBy {α : Type} (stop : Option (VerifierError × (EvidenceStore → EvidenceStore)))
    (x : VerifyM α) : VerifyM α := fun s =>
  match stop with
  | none => x s
  | some (e, left) => .error e (left s)

variable (failures : StoreFailures) (env : VerifierEnv) (request : VerificationRequest)

def observeFailing (plan : RunPlan) : VerifyM RunEvidence := do
  let success ← answer env.worker
  checkCancellation (env.cancelled .worked)
  refuse (if request.overlay.isSome then env.copyFailure.map VerifierError.io else none)
  let ingested ← stoppedBy (failures.ingest.map fun failure => (failure.error, failure.left))
    (ingestEvents (env.ingestContext plan.before.revision) env.eventFile)
  let after ← answer (env.capture request.executionRoot .after)
  pure ⟨success, ingested, after⟩

/-- Everything between the launch and the built outcome. -/
def buildOutcome (plan : RunPlan) : VerifyM VerificationOutcome := do
  let run ← closing env.runId plan.before.revision env.finishedAt
    (observeFailing failures env request plan)
  conclude env request plan run

def publishFailing (replaying : Bool) (plan : RunPlan) (outcome : VerificationOutcome) :
    VerifyM Unit :=
  if cacheable request replaying ∧ outcome.status = .passed then do
    refuse failures.cacheRow
    writing fun s => s.saveVerificationCache outcome.revision outcome.runId
      (outcomeBlob env outcome) env.cachedAt
    refuse failures.manifestRow
    writing fun s => .ok (s.saveRevisionManifest outcome.revision
      (manifestBlob env (manifestOf plan.before)) env.manifestAt)
  else pure ()

def retainFailing : VerifyM Unit :=
  stoppedBy (failures.prune.map fun failure => (failure.error, failure.left))
    (pruning env.cutoff env.maxBytes)

def superviseFailing (replaying : Bool) (plan : RunPlan) : VerifyM VerificationOutcome := do
  let outcome ← buildOutcome failures env request plan
  publishFailing failures env request replaying plan outcome
  retainFailing failures env
  pure outcome

/-- `verify_internal` over a failing store. -/
def verifyFailing (replay : Option Recording) : VerifyM VerificationOutcome := do
  let before ← openRequest env request
  match ← serveCached env request replay.isSome before with
  | some outcome => pure outcome
  | none => do
    let plan ← chooseTests env request before
    launch env request replay plan
    superviseFailing failures env request replay.isSome plan

variable {failures env request}

theorem stoppedBy_none {α : Type} (x : VerifyM α) : stoppedBy none x = x := rfl

theorem observeFailing_none (plan : RunPlan) :
    observeFailing .none env request plan = observeRun env request plan := by
  simp only [observeFailing, observeRun, ingestRun, StoreFailures.none, Option.map_none,
    stoppedBy_none, bind_assoc, pure_bind]

theorem publishFailing_none (replaying : Bool) (plan : RunPlan) (outcome : VerificationOutcome) :
    publishFailing .none env request replaying plan outcome =
      publish env request replaying plan outcome := by
  unfold publishFailing publish
  simp only [StoreFailures.none, refuse, pure_bind]

theorem superviseFailing_none (replaying : Bool) (plan : RunPlan) :
    superviseFailing .none env request replaying plan = superviseRun env request replaying plan := by
  simp only [superviseFailing, superviseRun, buildOutcome, observeFailing_none, bind_assoc,
    publishFailing_none]
  rfl

/-- With a store that does not fail this is the procedure itself. -/
theorem verifyFailing_none (replay : Option Recording) :
    verifyFailing .none env request replay = verifyInternal env request replay := by
  unfold verifyFailing verifyInternal
  refine bind_congr fun before => bind_congr fun served => ?_
  cases served with
  | some outcome => rfl
  | none => exact bind_congr fun plan => bind_congr fun _ => superviseFailing_none _ plan

/-- An admitted request ends as its supervised run does. -/
theorem verifyFailing_admitted {replay : Option Recording} {s : EvidenceStore} {plan : RunPlan}
    (admitted : Admitted env request replay s plan) :
    verifyFailing failures env request replay s =
      superviseFailing failures env request replay.isSome plan (launched env plan s) := by
  unfold verifyFailing
  rw [bind_of_ok admitted.opened, bind_of_ok admitted.missed]
  change (chooseTests env request plan.before >>= _) s = _
  rw [bind_of_ok admitted.chosen, bind_of_ok admitted.begun]

/-- Until the evidence is in, nothing touches the table of runs. -/
theorem observeFailing_runs (plan : RunPlan) (rows : List RunRow) :
    Preserves (fun s : EvidenceStore => s.runs = rows) (observeFailing failures env request plan) := by
  refine .bind (ReadOnly.answer _).preserves fun _ => .bind
    (readOnly_checkCancellation _).preserves fun _ => .bind (ReadOnly.refuse _).preserves fun _ =>
      .bind ?_ fun _ => .bind (ReadOnly.answer _).preserves fun _ => (ReadOnly.pure _).preserves
  intro s same
  cases failures.ingest with
  | some failure => exact same
  | none =>
    rw [Option.map_none, stoppedBy_none]
    cases read : ingestEvents (env.ingestContext plan.before.revision) env.eventFile s with
    | ok ingested t => exact (ingestEvents_effects read).2.runs.trans same
    | error e t =>
      obtain ⟨raws, -, wrote⟩ := ingestEvents_error read
      exact wrote.runs.trans same

end Walaru
