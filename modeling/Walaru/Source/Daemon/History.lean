import Walaru.Source.Daemon.Record

/-!
# Invariants of every history

Which operation a row of the store comes from. A cached result is the answer of
an earlier default run that passed at the row's revision; an event belongs to a
run that is still in the store.
-/
namespace Walaru
open Lib.StateResult

/-- The tables that only publication and retention write. -/
structure SameResults (s t : EvidenceStore) : Prop where
  recordings : t.recordings = s.recordings
  verificationCache : t.verificationCache = s.verificationCache
  revisionManifests : t.revisionManifests = s.revisionManifests

theorem SameResults.trans {s t u : EvidenceStore} (first : SameResults s t)
    (second : SameResults t u) : SameResults s u :=
  ⟨second.recordings.trans first.recordings,
    second.verificationCache.trans first.verificationCache,
    second.revisionManifests.trans first.revisionManifests⟩

theorem sameResults_abandonRun (runId revision finishedAt : String) (s : EvidenceStore) :
    SameResults s (abandonRun runId revision finishedAt s) := by
  rcases abandonRun_cases runId revision finishedAt s with same | ⟨status, closed⟩
  · rw [same]
    exact ⟨rfl, rfl, rfl⟩
  · rw [closed]
    exact ⟨rfl, rfl, rfl⟩

theorem sameResults_observeRun_error {env : VerifierEnv} {request : VerificationRequest}
    {plan : RunPlan} {s t : EvidenceStore} {e : VerifierError}
    (stopped : observeRun env request plan s = .error e t) : SameResults s t ∧ t.runs = s.runs := by
  rcases observeRun_error stopped with halted | ⟨⟨exited, found⟩, ran⟩
  · obtain ⟨rows, wrote, -⟩ := ingestRun_error_rows halted
    exact ⟨⟨wrote.recordings, wrote.verificationCache, wrote.revisionManifests⟩, wrote.runs⟩
  · have wrote := (ingestRun_ok ran).2.2.2
    exact ⟨⟨wrote.recordings, wrote.verificationCache, wrote.revisionManifests⟩, wrote.runs⟩

/-- The call answered `outcome`, and it is a default run that passed afresh. -/
structure DefaultPass (env : VerifierEnv) (request : VerificationRequest)
    (replay : Option Recording) (s : EvidenceStore) (outcome : VerificationOutcome) : Prop where
  answered : ∃ t, verifyInternal env request replay s = .ok outcome t
  cacheable : cacheable request replay.isSome = true
  fresh : outcome.cached = false
  passed : outcome.status = .passed
  version : outcome.evidenceFormatVersion = verificationEvidenceFormatVersion

/-- Some operation of the history answered the row's payload at the row's revision. -/
def StoredBy (history : List Operation) (row : CacheRow VerificationOutcome) : Prop :=
  ∃ earlier op later env request replay,
    history = earlier ++ op :: later ∧ op.call = some (env, request, replay) ∧
      DefaultPass env request replay (play earlier) row.payload.content ∧
      row.payload.content.revision = row.revision

theorem StoredBy.snoc {history : List Operation} {row : CacheRow VerificationOutcome}
    (stored : StoredBy history row) (op : Operation) : StoredBy (history ++ [op]) row := by
  obtain ⟨earlier, first, later, env, request, replay, rfl, rest⟩ := stored
  exact ⟨earlier, first, later ++ [op], env, request, replay, by simp, rest⟩

/-- A verify call adds at most its own answer to the cache. -/
theorem verifyInternal_cache {env : VerifierEnv} {request : VerificationRequest}
    {replay : Option Recording} {s : EvidenceStore} {row : CacheRow VerificationOutcome}
    (member : row ∈ (storeOf (verifyInternal env request replay s)).verificationCache) :
    row ∈ s.verificationCache ∨
      (DefaultPass env request replay s row.payload.content ∧
        row.payload.content.revision = row.revision) := by
  have result := verifyInternal_result env request replay s
  generalize answer : verifyInternal env request replay s = r at result member
  cases result with
  | refused e idle => exact .inl member
  | served idle hit => exact .inl member
  | @abandoned plan e t admitted stopped =>
    have same := (sameResults_observeRun_error stopped).1.trans
      (sameResults_abandonRun env.runId plan.before.revision env.finishedAt t)
    refine .inl ?_
    rwa [storeOf, same.verificationCache] at member
  | @finished plan run t admitted observed =>
    have kept := (Store.pruned_prune _ env.cutoff env.maxBytes).verificationCache.subset member
    simp only [finishedStore, published] at kept
    split at kept
    · rename_i allowed
      rcases List.mem_append.mp kept with old | new
      · refine .inl ?_
        have before := (List.mem_filter.mp old).1
        rwa [closedRun, observed.wrote.verificationCache] at before
      · obtain rfl := List.mem_singleton.mp new
        exact .inr ⟨⟨⟨_, answer⟩, allowed.1, rfl, allowed.2, rfl⟩, rfl⟩
    · refine .inl ?_
      rwa [closedRun, observed.wrote.verificationCache] at kept

/-- Every cached result was stored by an earlier default run that passed. -/
theorem cache_storedBy (history : List Operation) :
    ∀ row ∈ (play history).verificationCache, StoredBy history row := by
  refine play_induction (P := fun history s => ∀ row ∈ s.verificationCache, StoredBy history row)
    (by simp [Store.empty]) (fun history op ih row member => ?_) history
  rcases perform_cases op (play history) with ⟨-, _, kept⟩ | ⟨env, request, replay, call, _, kept⟩
  · exact (ih row (kept.verificationCache.subset member)).snoc op
  · rcases verifyInternal_cache (kept.verificationCache.subset member) with old | ⟨passed, same⟩
    · exact (ih row old).snoc op
    · exact ⟨history, op, [], env, request, replay, rfl, call, passed, same⟩

/-- The foreign key of the event table. -/
def EventsOwned (s : EvidenceStore) : Prop := ∀ row ∈ s.events, s.hasRun row.runId

theorem EventsOwned.abandonRun {s : EvidenceStore} (owned : EventsOwned s)
    (runId revision finishedAt : String) : EventsOwned (abandonRun runId revision finishedAt s) := by
  rcases abandonRun_cases runId revision finishedAt s with same | ⟨status, closed⟩
  · rwa [same]
  · rw [closed]
    exact fun row member =>
      (hasRun_closedRun runId finishedAt status s row.runId).trans (owned row member)

/-- New rows of a run that is in the store keep the foreign key. -/
theorem EventsOwned.append {s t : EvidenceStore} (owned : EventsOwned s) {rows : List EventRow}
    (runs : t.runs = s.runs) (events : t.events = s.events ++ rows) {runId : String}
    (known : s.hasRun runId) (mine : ∀ row ∈ rows, row.runId = runId) : EventsOwned t := by
  intro row member
  have same : t.hasRun row.runId = s.hasRun row.runId := by rw [Store.hasRun, Store.hasRun, runs]
  rw [events] at member
  rw [same]
  rcases List.mem_append.mp member with old | new
  · exact owned row old
  · exact mine row new ▸ known

theorem EventsOwned.launched {s : EvidenceStore} (owned : EventsOwned s) (env : VerifierEnv)
    (plan : RunPlan) : EventsOwned (launched env plan s) := fun row member =>
  (launched_hasRun env plan s row.runId).mpr (.inl (owned row member))

theorem EventsOwned.ingesting {s t : EvidenceStore} (owned : EventsOwned s) {ctx : IngestContext}
    {file : EventFile} (wrote : Ingesting ctx file s t) (known : s.hasRun ctx.runId) :
    EventsOwned t :=
  owned.append wrote.runs wrote.events known fun _ => runId_of_mem_eventRows

theorem EventsOwned.supervised {s : EvidenceStore} (owned : EventsOwned s) {env : VerifierEnv}
    {request : VerificationRequest} {replaying : Bool} {plan : RunPlan}
    {r : EStateM.Result VerifierError EvidenceStore VerificationOutcome}
    (result : SuperviseResult env request replaying plan s r) : EventsOwned (storeOf r) := by
  have opened := owned.launched env plan
  have known : (Walaru.launched env plan s).hasRun env.runId :=
    (launched_hasRun env plan s env.runId).mpr (.inr rfl)
  cases result with
  | abandoned stopped =>
    apply EventsOwned.abandonRun
    rcases observeRun_error stopped with halted | ⟨⟨exited, found⟩, ran⟩
    · obtain ⟨rows, wrote, mine⟩ := ingestRun_error_rows halted
      exact opened.append wrote.runs wrote.events known mine
    · exact opened.ingesting (ingestRun_ok ran).2.2.2 known
  | @finished run t observed =>
    have closed : EventsOwned (closedRun env.runId (verdict plan run) env.finishedAt t) :=
      fun row member => (hasRun_closedRun _ _ _ t row.runId).trans
        (opened.ingesting observed.wrote known row member)
    refine (Store.pruned_prune _ env.cutoff env.maxBytes).ownedEvents ?_
    unfold finishedStore published
    split
    · exact closed
    · exact closed

theorem verifyInternal_eventsOwned {s : EvidenceStore} (owned : EventsOwned s) (env : VerifierEnv)
    (request : VerificationRequest) (replay : Option Recording) :
    EventsOwned (storeOf (verifyInternal env request replay s)) := by
  have result := verifyInternal_result env request replay s
  generalize verifyInternal env request replay s = r at result
  cases result with
  | refused e idle => exact owned
  | served idle hit => exact owned
  | abandoned admitted stopped =>
    exact owned.supervised (SuperviseResult.abandoned stopped : SuperviseResult _ _ replay.isSome _ _ _)
  | finished admitted observed => exact owned.supervised (.finished observed)

theorem play_eventsOwned (history : List Operation) : EventsOwned (play history) := by
  refine play_induction (P := fun _ s => EventsOwned s) (by simp [EventsOwned, Store.empty])
    (fun history op ih => ?_) history
  rcases perform_cases op (play history) with ⟨-, _, kept⟩ | ⟨env, request, replay, -, _, kept⟩
  · exact kept.ownedEvents ih
  · exact kept.ownedEvents (verifyInternal_eventsOwned ih env request replay)

end Walaru
