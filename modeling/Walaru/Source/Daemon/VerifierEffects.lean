import Walaru.Source.Daemon.IngestObservations
import Walaru.Source.Daemon.Verifier

/-!
# What one verify request can do to the store

`VerifyResult` lists the four ways a request ends: it is refused and writes
nothing, it is served from the cache, its run is abandoned, or its run is
finished and published. Every property of a whole history is derived from this
list, so no later proof unfolds the procedure.
-/
namespace Walaru
open Lib.StateResult

theorem readOnly_checkCancellation (c : Bool) : ReadOnly (checkCancellation c) := .refuse _

theorem readOnly_reading {α : Type} (f : EvidenceStore → α) : ReadOnly (reading f) := fun _ => rfl

theorem readOnly_openRequest (env : VerifierEnv) (request : VerificationRequest) :
    ReadOnly (openRequest env request) :=
  .bind (readOnly_checkCancellation _) fun _ => .bind (.refuse _) fun _ => .bind (.refuse _) fun _ =>
    .bind (readOnly_checkCancellation _) fun _ => .bind (.answer _) fun _ =>
      .bind (readOnly_checkCancellation _) fun _ => .pure _

/-- An admitted request has captured its execution root. -/
theorem openRequest_captured {env : VerifierEnv} {request : VerificationRequest}
    {before : RevisionSnapshot} {s t : EvidenceStore}
    (success : openRequest env request s = .ok before t) :
    env.capture request.executionRoot .before = .ok before := by
  simp only [openRequest, bind_ok, checkCancellation_ok, refuse_ok, answer_ok, pure_ok] at success
  obtain ⟨_, _, -, _, _, -, _, _, -, _, _, -, _, _, ⟨captured, rfl⟩, _, _, -, rfl, -⟩ := success
  exact captured

theorem readOnly_askImpact (env : VerifierEnv) (request : VerificationRequest)
    (before : RevisionSnapshot) : ReadOnly (askImpact env request before) := by
  unfold askImpact
  split
  · split
    · exact readOnly_reading _
    · exact .bind (readOnly_reading _) fun _ => .answer _
  · exact readOnly_reading _

theorem readOnly_chooseTests (env : VerifierEnv) (request : VerificationRequest)
    (before : RevisionSnapshot) : ReadOnly (chooseTests env request before) := by
  unfold chooseTests
  split
  · refine .bind (readOnly_askImpact env request before) fun impacted => ?_
    cases impacted with
    | none => exact .pure _
    | some tests => exact .pure _
  · exact .pure _

theorem readOnly_prepareInputs (env : VerifierEnv) (replay : Option Recording) :
    ReadOnly (prepareInputs env replay) := by
  cases replay with
  | none => exact .refuse _
  | some recording => exact .bind (.answer _) fun _ => .bind (.refuse _) fun _ => .refuse _

theorem readOnly_prepareRun (env : VerifierEnv) (request : VerificationRequest)
    (replay : Option Recording) : ReadOnly (prepareRun env request replay) :=
  .bind (readOnly_checkCancellation _) fun _ => .bind (.refuse _) fun _ => .bind (.refuse _) fun _ =>
    .bind (.refuse _) fun _ => readOnly_prepareInputs env replay

/-- A cached payload that passes the guard is the answer. -/
structure Served (env : VerifierEnv) (request : VerificationRequest) (replaying : Bool)
    (s : EvidenceStore) (before : RevisionSnapshot) (stored : VerificationOutcome) : Prop where
  cacheable : cacheable request replaying = true
  captured : env.capture request.executionRoot .before = .ok before
  rechecked : ∃ after, env.capture request.executionRoot .recheck = .ok after ∧
    after.revision = before.revision
  row : s.cached before.revision = some stored
  reusable : reusable before stored = true

theorem reuse_error {env : VerifierEnv} {request : VerificationRequest} {before : RevisionSnapshot}
    {stored : VerificationOutcome} {s t : EvidenceStore} {e : VerifierError}
    (failure : reuse env request before stored s = .error e t) : t = s := by
  rcases bind_error.mp failure with refused | ⟨after, _, rechecked, later⟩
  · exact (ReadOnly.answer _).error refused
  · obtain rfl := (ReadOnly.answer _).ok rechecked
    split at later
    · rcases bind_error.mp later with stopped | ⟨_, _, passed, written⟩
      · exact (readOnly_checkCancellation _).error stopped
      · rcases bind_error.mp written with never | ⟨_, _, -, never⟩
        · simp at never
        · simp at never
    · simp at later

theorem reuse_ok {env : VerifierEnv} {request : VerificationRequest} {before : RevisionSnapshot}
    {stored : VerificationOutcome} {s t : EvidenceStore} {served : Option VerificationOutcome}
    (success : reuse env request before stored s = .ok served t) :
    (served = none ∧ t = s) ∨
      (served = some (servedOutcome request stored) ∧
        t = s.updateTestStatuses (servedOutcome request stored).testStatuses ∧
        (∃ after, env.capture request.executionRoot .recheck = .ok after ∧
          after.revision = before.revision) ∧
        reusable before stored = true) := by
  obtain ⟨after, _, rechecked, later⟩ := bind_ok.mp success
  obtain ⟨captured, rfl⟩ := answer_ok.mp rechecked
  split at later
  · rename_i guard
    simp only [bind_ok, checkCancellation_ok, writing_ok, pure_ok] at later
    obtain ⟨_, _, ⟨-, rfl⟩, _, _, wrote, rfl, rfl⟩ := later
    cases wrote
    exact .inr ⟨rfl, rfl, ⟨after, captured, guard.1⟩, guard.2⟩
  · obtain ⟨rfl, rfl⟩ := pure_ok.mp later
    exact .inl ⟨rfl, rfl⟩

theorem serveCached_error {env : VerifierEnv} {request : VerificationRequest} {replaying : Bool}
    {before : RevisionSnapshot} {s t : EvidenceStore} {e : VerifierError}
    (failure : serveCached env request replaying before s = .error e t) : t = s := by
  unfold serveCached at failure
  split at failure
  · rcases bind_error.mp failure with never | ⟨row, _, read, later⟩
    · simp at never
    · obtain ⟨-, rfl⟩ := reading_ok.mp read
      cases row with
      | none => simp at later
      | some stored => exact reuse_error later
  · simp at failure

theorem serveCached_ok {env : VerifierEnv} {request : VerificationRequest} {replaying : Bool}
    {before : RevisionSnapshot} {s t : EvidenceStore} {served : Option VerificationOutcome}
    (captured : env.capture request.executionRoot .before = .ok before)
    (success : serveCached env request replaying before s = .ok served t) :
    (served = none ∧ t = s) ∨
      ∃ stored, Served env request replaying s before stored ∧
        served = some (servedOutcome request stored) ∧
        t = s.updateTestStatuses (servedOutcome request stored).testStatuses := by
  unfold serveCached at success
  split at success
  · rename_i allowed
    obtain ⟨row, _, read, later⟩ := bind_ok.mp success
    obtain ⟨found, rfl⟩ := reading_ok.mp read
    cases row with
    | none =>
      obtain ⟨rfl, rfl⟩ := pure_ok.mp later
      exact .inl ⟨rfl, rfl⟩
    | some stored =>
      rcases reuse_ok later with none_ | ⟨rfl, rfl, rechecked, guard⟩
      · exact .inl none_
      · exact .inr ⟨stored, ⟨allowed, captured, rechecked, found, guard⟩, rfl, rfl⟩
  · obtain ⟨rfl, rfl⟩ := pure_ok.mp success
    exact .inl ⟨rfl, rfl⟩

/-- The row that a launch opens. -/
def launchedRow (env : VerifierEnv) (plan : RunPlan) : RunRow :=
  ⟨env.runId, plan.before.revision, plan.before.revision, .running, env.startedAt, none⟩

/-- The store with the run's row open. -/
def launched (env : VerifierEnv) (plan : RunPlan) (s : EvidenceStore) : EvidenceStore :=
  { s with runs := s.runs ++ [launchedRow env plan] }

theorem launch_error {env : VerifierEnv} {request : VerificationRequest} {replay : Option Recording}
    {plan : RunPlan} {s t : EvidenceStore} {e : VerifierError}
    (failure : launch env request replay plan s = .error e t) : t = s := by
  rcases bind_error.mp failure with stopped | ⟨_, _, prepared, begun⟩
  · exact (readOnly_prepareRun env request replay).error stopped
  · obtain rfl := (readOnly_prepareRun env request replay).ok prepared
    obtain ⟨-, -, -, rfl⟩ := writing_error.mp begun
    rfl

theorem launch_ok {env : VerifierEnv} {request : VerificationRequest} {replay : Option Recording}
    {plan : RunPlan} {s t : EvidenceStore} {u : Unit}
    (success : launch env request replay plan s = .ok u t) :
    s.hasRun env.runId = false ∧ t = launched env plan s := by
  obtain ⟨_, _, prepared, wrote⟩ := bind_ok.mp success
  obtain rfl := (readOnly_prepareRun env request replay).ok prepared
  have begun := writing_ok.mp wrote
  simp only [Store.beginRun] at begun
  split at begun
  · cases begun
  · rename_i fresh
    cases begun
    exact ⟨by simpa using fresh, rfl⟩

theorem launched_hasRun (env : VerifierEnv) (plan : RunPlan) (s : EvidenceStore) (runId : String) :
    (launched env plan s).hasRun runId ↔ s.hasRun runId ∨ runId = env.runId := by
  simp [launched, launchedRow, Store.hasRun, @eq_comm _ env.runId runId]

/-- The worker's part got as far as the event file. -/
structure ReachesEvents (env : VerifierEnv) (request : VerificationRequest) : Prop where
  exited : ∃ success, env.worker = .ok success
  alive : env.cancelled .worked = false
  copied : request.overlay.isSome = true → env.copyFailure = none

/-- What the worker's part leaves when the second snapshot was taken. -/
structure Observed (env : VerifierEnv) (request : VerificationRequest) (plan : RunPlan)
    (run : RunEvidence) (s t : EvidenceStore) : Prop where
  ran : ingestRun env request plan s = .ok (run.success, run.ingested) t
  worker : env.worker = .ok run.success
  ingested : run.ingested = evidence (env.ingestContext plan.before.revision) env.eventFile
  wrote : Ingesting (env.ingestContext plan.before.revision) env.eventFile s t
  recaptured : env.capture request.executionRoot .after = .ok run.after

theorem ingestRun_ok {env : VerifierEnv} {request : VerificationRequest} {plan : RunPlan}
    {success : Bool} {ingested : Ingested} {s t : EvidenceStore}
    (ran : ingestRun env request plan s = .ok (success, ingested) t) :
    ReachesEvents env request ∧ env.worker = .ok success ∧
      ingested = evidence (env.ingestContext plan.before.revision) env.eventFile ∧
      Ingesting (env.ingestContext plan.before.revision) env.eventFile s t := by
  simp only [ingestRun, bind_ok, checkCancellation_ok, refuse_ok, answer_ok, pure_ok,
    Prod.mk.injEq] at ran
  obtain ⟨_, _, ⟨exited, rfl⟩, _, _, ⟨alive, rfl⟩, _, _, ⟨copied, rfl⟩, found, _, read, ⟨rfl, rfl⟩,
    rfl⟩ := ran
  exact ⟨⟨⟨_, exited⟩, alive, fun live => by simpa [live] using copied⟩, exited,
    ingestEvents_effects read⟩

theorem ingestRun_error {env : VerifierEnv} {request : VerificationRequest} {plan : RunPlan}
    {s t : EvidenceStore} {e : VerifierError} (failure : ingestRun env request plan s = .error e t) :
    t = s ∨ ReachesEvents env request ∧ ∃ raws, raws <+: env.eventFile.raws ∧
      EventsAppended (eventRows (env.ingestContext plan.before.revision) 0 raws) s t := by
  rcases bind_error.mp failure with stopped | ⟨success, _, awaited, checked⟩
  · exact .inl ((ReadOnly.answer _).error stopped)
  obtain ⟨exited, rfl⟩ := answer_ok.mp awaited
  rcases bind_error.mp checked with stopped | ⟨_, _, looked, copying⟩
  · exact .inl ((readOnly_checkCancellation _).error stopped)
  obtain ⟨alive, rfl⟩ := checkCancellation_ok.mp looked
  rcases bind_error.mp copying with stopped | ⟨_, _, copies, reading_⟩
  · exact .inl ((ReadOnly.refuse _).error stopped)
  obtain ⟨copied, rfl⟩ := refuse_ok.mp copies
  refine .inr ⟨⟨⟨success, exited⟩, alive, fun live => by simpa [live] using copied⟩, ?_⟩
  rcases bind_error.mp reading_ with stopped | ⟨_, _, -, never⟩
  · exact ingestEvents_error stopped
  · simp at never

theorem ingestRun_error_rows {env : VerifierEnv} {request : VerificationRequest} {plan : RunPlan}
    {s t : EvidenceStore} {e : VerifierError} (failure : ingestRun env request plan s = .error e t) :
    ∃ rows, EventsAppended rows s t ∧ ∀ row ∈ rows, row.runId = env.runId := by
  rcases ingestRun_error failure with rfl | ⟨-, raws, -, wrote⟩
  · exact ⟨[], .refl _, by simp⟩
  · exact ⟨_, wrote, fun _ => runId_of_mem_eventRows⟩

theorem observeRun_ok {env : VerifierEnv} {request : VerificationRequest} {plan : RunPlan}
    {run : RunEvidence} {s t : EvidenceStore}
    (success : observeRun env request plan s = .ok run t) : Observed env request plan run s t := by
  obtain ⟨⟨exited, found⟩, _, ran, later⟩ := bind_ok.mp success
  obtain ⟨after, _, captured, finished⟩ := bind_ok.mp later
  obtain ⟨recaptured, rfl⟩ := answer_ok.mp captured
  obtain ⟨rfl, rfl⟩ := pure_ok.mp finished
  obtain ⟨-, worker, ingested, wrote⟩ := ingestRun_ok ran
  exact ⟨ran, worker, ingested, wrote, recaptured⟩

/-- A run that stops before its verdict stopped in ingestion, or finished it and
lost the second snapshot. -/
theorem observeRun_error {env : VerifierEnv} {request : VerificationRequest} {plan : RunPlan}
    {s t : EvidenceStore} {e : VerifierError}
    (failure : observeRun env request plan s = .error e t) :
    ingestRun env request plan s = .error e t ∨
      ∃ answer, ingestRun env request plan s = .ok answer t := by
  rcases bind_error.mp failure with stopped | ⟨⟨exited, found⟩, _, ran, later⟩
  · exact .inl stopped
  · rcases bind_error.mp later with lost | ⟨_, _, -, never⟩
    · obtain rfl := (ReadOnly.answer _).error lost
      exact .inr ⟨_, ran⟩
    · simp at never

/-- The store with the run's row closed under a status. -/
def closedRun (runId : String) (status : RunStatus) (finishedAt : String) (s : EvidenceStore) :
    EvidenceStore :=
  { s with
    runs := s.runs.map fun row =>
      if row.id = runId then { row with status := status, finishedAt := some finishedAt } else row }

theorem hasRun_closedRun (runId finishedAt : String) (status : RunStatus) (s : EvidenceStore)
    (id : String) : (closedRun runId status finishedAt s).hasRun id = s.hasRun id := by
  simp only [Store.hasRun, closedRun, List.any_map]
  congr 1
  funext row
  simp only [Function.comp_apply]
  split <;> rfl

theorem abandonRun_cases (runId revision finishedAt : String) (s : EvidenceStore) :
    abandonRun runId revision finishedAt s = s ∨
      ∃ status, abandonRun runId revision finishedAt s = closedRun runId status finishedAt s := by
  unfold abandonRun Store.finishRun
  split
  · rename_i answer t closed
    split at closed
    · cases closed
    · cases closed
      exact .inr ⟨_, rfl⟩
  · exact .inl rfl

/-- The verdict compares the second snapshot with the revision on the row. -/
def verdict (plan : RunPlan) (run : RunEvidence) : RunStatus :=
  if plan.before.revision = run.after.revision then
    desiredStatus run.success run.ingested plan.selectedTests
  else .stale

theorem finishRun_launched {env : VerifierEnv} {plan : RunPlan} {s t : EvidenceStore}
    (fresh : s.hasRun env.runId = false) (same : t.runs = (launched env plan s).runs)
    (desired : RunStatus) (revision finishedAt : String) :
    t.finishRun env.runId desired revision finishedAt =
      .ok (if plan.before.revision = revision then desired else .stale,
        closedRun env.runId (if plan.before.revision = revision then desired else .stale)
          finishedAt t) := by
  have absent : s.runs.find? (fun row => row.id = env.runId) = none := by
    simpa [Store.hasRun] using fresh
  have found : t.runs.find? (fun row => row.id = env.runId) = some (launchedRow env plan) := by
    rw [same, launched, List.find?_append, absent]
    simp [launchedRow]
  unfold Store.finishRun
  rw [found]
  rfl

/-- The store after publication. -/
def published (env : VerifierEnv) (request : VerificationRequest) (replaying : Bool)
    (plan : RunPlan) (outcome : VerificationOutcome) (s : EvidenceStore) : EvidenceStore :=
  if cacheable request replaying ∧ outcome.status = .passed then
    { s with
      verificationCache := (s.verificationCache.filter fun row => row.revision ≠ outcome.revision) ++
        [⟨outcome.revision, outcome.runId, env.cachedAt, outcomeBlob env outcome⟩]
      revisionManifests := (s.revisionManifests.filter fun row => row.revision ≠ outcome.revision) ++
        [⟨outcome.revision, env.manifestAt, manifestBlob env (manifestOf plan.before)⟩] }
  else s

theorem publish_eq {env : VerifierEnv} {request : VerificationRequest} {replaying : Bool}
    {plan : RunPlan} {outcome : VerificationOutcome} {s : EvidenceStore}
    (known : s.hasRun outcome.runId) :
    publish env request replaying plan outcome s =
      .ok () (published env request replaying plan outcome s) := by
  unfold publish published
  split
  · have saved : s.saveVerificationCache outcome.revision outcome.runId (outcomeBlob env outcome)
        env.cachedAt = .ok { s with verificationCache :=
          (s.verificationCache.filter fun row => row.revision ≠ outcome.revision) ++
            [⟨outcome.revision, outcome.runId, env.cachedAt, outcomeBlob env outcome⟩] } := by
      simp [Store.saveVerificationCache, known]
    exact bind_ok.mpr ⟨(), _, writing_ok.mpr saved, writing_ok.mpr rfl⟩
  · rfl

theorem chooseTests_before {env : VerifierEnv} {request : VerificationRequest}
    {before : RevisionSnapshot} {plan : RunPlan} {s t : EvidenceStore}
    (success : chooseTests env request before s = .ok plan t) : plan.before = before := by
  unfold chooseTests at success
  split at success
  · obtain ⟨impacted, _, -, chosen⟩ := bind_ok.mp success
    cases impacted with
    | none =>
      obtain ⟨rfl, -⟩ := pure_ok.mp chosen
      rfl
    | some tests =>
      obtain ⟨rfl, -⟩ := pure_ok.mp chosen
      rfl
  · obtain ⟨rfl, -⟩ := pure_ok.mp success
    rfl

/-- The request got as far as its worker: it was admitted, the cache did not answer
it, its tests were chosen and its row was opened. -/
structure Admitted (env : VerifierEnv) (request : VerificationRequest) (replay : Option Recording)
    (s : EvidenceStore) (plan : RunPlan) : Prop where
  opened : openRequest env request s = .ok plan.before s
  missed : serveCached env request replay.isSome plan.before s = .ok none s
  chosen : chooseTests env request plan.before s = .ok plan s
  begun : launch env request replay plan s = .ok () (launched env plan s)

theorem Admitted.captured {env : VerifierEnv} {request : VerificationRequest}
    {replay : Option Recording} {s : EvidenceStore} {plan : RunPlan}
    (admitted : Admitted env request replay s plan) :
    env.capture request.executionRoot .before = .ok plan.before :=
  openRequest_captured admitted.opened

theorem Admitted.fresh {env : VerifierEnv} {request : VerificationRequest}
    {replay : Option Recording} {s : EvidenceStore} {plan : RunPlan}
    (admitted : Admitted env request replay s plan) : s.hasRun env.runId = false :=
  (launch_ok admitted.begun).1

/-- The procedure is deterministic. -/
theorem Admitted.unique {env : VerifierEnv} {request : VerificationRequest}
    {replay : Option Recording} {s : EvidenceStore} {plan other : RunPlan}
    (admitted : Admitted env request replay s plan) (again : Admitted env request replay s other) :
    plan = other := by
  have before := admitted.opened.symm.trans again.opened
  simp only [EStateM.Result.ok.injEq, and_true] at before
  have chosen := admitted.chosen
  rw [before, again.chosen] at chosen
  simp only [EStateM.Result.ok.injEq, and_true] at chosen
  exact chosen.symm

/-- The answer of a run that reached its verdict. -/
def finishedOutcome (env : VerifierEnv) (request : VerificationRequest) (plan : RunPlan)
    (run : RunEvidence) : VerificationOutcome :=
  freshOutcome env request plan run (verdict plan run)

/-- Once the evidence of a launched run is in, its verdict cannot fail. -/
theorem conclude_launched {env : VerifierEnv} (request : VerificationRequest) {plan : RunPlan}
    {s t : EvidenceStore} (fresh : s.hasRun env.runId = false)
    (same : t.runs = (launched env plan s).runs) (run : RunEvidence) :
    conclude env request plan run t = .ok (finishedOutcome env request plan run)
      (closedRun env.runId (verdict plan run) env.finishedAt t) :=
  bind_ok.mpr ⟨_, _, storing_ok.mpr (finishRun_launched fresh same
    (desiredStatus run.success run.ingested plan.selectedTests) run.after.revision env.finishedAt),
    rfl⟩

/-- The store before the final prune of a run that reached its verdict. -/
def finishedStore (env : VerifierEnv) (request : VerificationRequest) (replaying : Bool)
    (plan : RunPlan) (run : RunEvidence) (t : EvidenceStore) : EvidenceStore :=
  published env request replaying plan (finishedOutcome env request plan run)
    (closedRun env.runId (verdict plan run) env.finishedAt t)

/-- The ways in which a request ends, and the store each leaves. -/
inductive VerifyResult (env : VerifierEnv) (request : VerificationRequest)
    (replay : Option Recording) (s : EvidenceStore) :
    EStateM.Result VerifierError EvidenceStore VerificationOutcome → Prop where
  | refused (e : VerifierError) (idle : ∀ plan, ¬ Admitted env request replay s plan) :
      VerifyResult env request replay s (.error e s)
  | served {before : RevisionSnapshot} {stored : VerificationOutcome}
      (idle : ∀ plan, ¬ Admitted env request replay s plan)
      (hit : Served env request replay.isSome s before stored) :
      VerifyResult env request replay s (.ok (servedOutcome request stored)
        (s.updateTestStatuses (servedOutcome request stored).testStatuses))
  | abandoned {plan : RunPlan} {e : VerifierError} {t : EvidenceStore}
      (admitted : Admitted env request replay s plan)
      (stopped : observeRun env request plan (launched env plan s) = .error e t) :
      VerifyResult env request replay s
        (.error e (abandonRun env.runId plan.before.revision env.finishedAt t))
  | finished {plan : RunPlan} {run : RunEvidence} {t : EvidenceStore}
      (admitted : Admitted env request replay s plan)
      (observed : Observed env request plan run (launched env plan s) t) :
      VerifyResult env request replay s (.ok (finishedOutcome env request plan run)
        ((finishedStore env request replay.isSome plan run t).prune env.cutoff env.maxBytes))

theorem closing_ok {α : Type} {runId revision finishedAt : String} {x : VerifyM α}
    {s t : EvidenceStore} {a : α} :
    closing runId revision finishedAt x s = .ok a t ↔ x s = .ok a t := by
  unfold closing
  cases x s <;> simp

theorem closing_error {α : Type} {runId revision finishedAt : String} {x : VerifyM α}
    {s t : EvidenceStore} {e : VerifierError} :
    closing runId revision finishedAt x s = .error e t ↔
      ∃ u, x s = .error e u ∧ t = abandonRun runId revision finishedAt u := by
  unfold closing
  cases x s with
  | ok a u => simp
  | error e' u => simp [eq_comm]

/-- The ways in which a launched run ends: it is abandoned, or it is finished and
published; once its evidence is in, its verdict and publication cannot fail. -/
inductive SuperviseResult (env : VerifierEnv) (request : VerificationRequest) (replaying : Bool)
    (plan : RunPlan) (s : EvidenceStore) :
    EStateM.Result VerifierError EvidenceStore VerificationOutcome → Prop where
  | abandoned {e : VerifierError} {t : EvidenceStore}
      (stopped : observeRun env request plan (launched env plan s) = .error e t) :
      SuperviseResult env request replaying plan s
        (.error e (abandonRun env.runId plan.before.revision env.finishedAt t))
  | finished {run : RunEvidence} {t : EvidenceStore}
      (observed : Observed env request plan run (launched env plan s) t) :
      SuperviseResult env request replaying plan s (.ok (finishedOutcome env request plan run)
        ((finishedStore env request replaying plan run t).prune env.cutoff env.maxBytes))

theorem superviseRun_result (env : VerifierEnv) (request : VerificationRequest) (replaying : Bool)
    (plan : RunPlan) {s : EvidenceStore} (fresh : s.hasRun env.runId = false) :
    SuperviseResult env request replaying plan s
      (superviseRun env request replaying plan (launched env plan s)) := by
  unfold superviseRun
  cases observed : observeRun env request plan (launched env plan s) with
  | error e t =>
    rw [bind_of_error (closing_error.mpr ⟨t, observed, rfl⟩)]
    exact .abandoned observed
  | ok run t =>
    have seen := observeRun_ok observed
    have concluded := conclude_launched request fresh seen.wrote.runs run
    have known : (closedRun env.runId (verdict plan run) env.finishedAt t).hasRun
        (finishedOutcome env request plan run).runId := by
      rw [hasRun_closedRun, Store.hasRun, seen.wrote.runs]
      exact (launched_hasRun env plan s env.runId).mpr (.inr rfl)
    rw [bind_of_ok (closing_ok.mpr observed), bind_of_ok concluded, bind_of_ok (publish_eq known)]
    exact .finished seen

theorem runPlan_result {env : VerifierEnv} {request : VerificationRequest}
    {replay : Option Recording} {plan : RunPlan} {s : EvidenceStore}
    (opened : openRequest env request s = .ok plan.before s)
    (missed : serveCached env request replay.isSome plan.before s = .ok none s)
    (chosen : chooseTests env request plan.before s = .ok plan s) :
    VerifyResult env request replay s (runPlan env request replay plan s) := by
  unfold runPlan
  cases begun : launch env request replay plan s with
  | error e t =>
    obtain rfl := launch_error begun
    rw [bind_of_error begun]
    refine .refused e fun other admitted => ?_
    have chosen_again := chosen
    rw [EStateM.Result.ok.inj (opened.symm.trans admitted.opened) |>.1, admitted.chosen] at chosen_again
    obtain ⟨rfl, -⟩ := EStateM.Result.ok.inj chosen_again
    exact absurd (begun.symm.trans admitted.begun) (by simp)
  | ok _ t =>
    obtain ⟨fresh, rfl⟩ := launch_ok begun
    rw [bind_of_ok begun]
    have admitted : Admitted env request replay s plan := ⟨opened, missed, chosen, begun⟩
    have result := superviseRun_result env request replay.isSome plan fresh
    generalize superviseRun env request replay.isSome plan (launched env plan s) = r at result
    cases result with
    | abandoned stopped => exact .abandoned admitted stopped
    | finished observed => exact .finished admitted observed

theorem executeRequest_result {env : VerifierEnv} {request : VerificationRequest}
    {replay : Option Recording} {before : RevisionSnapshot} {s : EvidenceStore}
    (opened : openRequest env request s = .ok before s)
    (missed : serveCached env request replay.isSome before s = .ok none s) :
    VerifyResult env request replay s (executeRequest env request replay before s) := by
  unfold executeRequest
  cases chosen : chooseTests env request before s with
  | error e t =>
    obtain rfl := (readOnly_chooseTests env request before).error chosen
    rw [bind_of_error chosen]
    refine .refused e fun plan admitted => ?_
    obtain ⟨rfl, -⟩ := EStateM.Result.ok.inj (opened.symm.trans admitted.opened)
    exact absurd (chosen.symm.trans admitted.chosen) (by simp)
  | ok plan t =>
    obtain rfl := (readOnly_chooseTests env request before).ok chosen
    obtain rfl := chooseTests_before chosen
    rw [bind_of_ok chosen]
    exact runPlan_result opened missed chosen

/-- Every request ends in one of the listed ways. -/
theorem verifyInternal_result (env : VerifierEnv) (request : VerificationRequest)
    (replay : Option Recording) (s : EvidenceStore) :
    VerifyResult env request replay s (verifyInternal env request replay s) := by
  unfold verifyInternal
  cases opened : openRequest env request s with
  | error e t =>
    obtain rfl := (readOnly_openRequest env request).error opened
    rw [bind_of_error opened]
    exact .refused e fun plan admitted => absurd (opened.symm.trans admitted.opened) (by simp)
  | ok before t =>
    obtain rfl := (readOnly_openRequest env request).ok opened
    rw [bind_of_ok opened]
    have same : ∀ plan, Admitted env request replay t plan → before = plan.before :=
      fun plan admitted => (EStateM.Result.ok.inj (opened.symm.trans admitted.opened)).1
    cases asked : serveCached env request replay.isSome before t with
    | error e u =>
      obtain rfl := serveCached_error asked
      rw [bind_of_error asked]
      refine .refused e fun plan admitted => ?_
      rw [same plan admitted, admitted.missed] at asked
      cases asked
    | ok answer u =>
      rw [bind_of_ok asked]
      rcases serveCached_ok (openRequest_captured opened) asked with
        ⟨rfl, rfl⟩ | ⟨stored, hit, rfl, rfl⟩
      · exact executeRequest_result opened asked
      · refine .served (fun plan admitted => ?_) hit
        rw [same plan admitted, admitted.missed] at asked
        cases asked

/-- The snapshot and the manifest behind an answer that was not cached. -/
theorem fresh_answer {env : VerifierEnv} {request : VerificationRequest} {replay : Option Recording}
    {s t : EvidenceStore} {outcome : VerificationOutcome} (fresh : outcome.cached = false)
    (returned : verifyInternal env request replay s = .ok outcome t) :
    ∃ before, env.capture request.executionRoot .before = .ok before ∧
      outcome.revision = before.revision ∧ outcome.capabilities =
        (evidence (env.ingestContext before.revision) env.eventFile).capabilities := by
  have result := verifyInternal_result env request replay s
  rw [returned] at result
  cases result with
  | served idle hit => cases fresh
  | @finished plan run u admitted observed =>
    exact ⟨plan.before, admitted.captured, rfl, congrArg Ingested.capabilities observed.ingested⟩

end Walaru
