import Mathlib.Algebra.Order.Ring.Nat
import Walaru.Source.Core.Store

/-!
# Retention

`Store::prune`: rows older than the cutoff go first, then the oldest run,
recording or manifest, one at a time, while the compressed payload exceeds the
limit. Deleting a run cascades to its events, failures and cached result. The
cutoff is `now - max_age` as the RFC 3339 text that the statements compare.
-/
namespace Walaru

/-- One row of the retention query; `kind` orders as its SQL text. -/
inductive RetentionKind where
  | manifest | recording | run
  deriving DecidableEq, Repr

def RetentionKind.rank : RetentionKind → Nat
  | .manifest => 0
  | .recording => 1
  | .run => 2

structure RetentionItem where
  createdAt : String
  kind : RetentionKind
  id : String
  deriving DecidableEq, Repr

/-- `ORDER BY created_at, kind, id`. -/
def RetentionItem.before (a b : RetentionItem) : Bool :=
  ((compare a.createdAt b.createdAt).then
    ((compare a.kind.rank b.kind.rank).then (compare a.id b.id))) = .lt

namespace Store
variable {Payload : Type}

/-- `DELETE FROM runs` for these identifiers, with its cascades. -/
def deleteRuns (s : Store Payload) (doomed : List String) : Store Payload :=
  { s with
    runs := s.runs.filter fun row => row.id ∉ doomed
    events := s.events.filter fun row => row.runId ∉ doomed
    failures := s.failures.filter fun row => row.runId ∉ doomed
    verificationCache := s.verificationCache.filter fun row => row.runId ∉ doomed }

def deleteRecordings (s : Store Payload) (doomed : RecordingRow → Bool) : Store Payload :=
  { s with recordings := s.recordings.filter fun row => !doomed row }

def deleteManifests (s : Store Payload) (doomed : ManifestRow → Bool) : Store Payload :=
  { s with revisionManifests := s.revisionManifests.filter fun row => !doomed row }

/-- The total compressed payload size. -/
def payloadBytes (s : Store Payload) : Nat :=
  (s.events.map fun row => row.payload.zstdLength).sum +
    (s.recordings.map fun row => row.payload.zstdLength).sum +
    (s.verificationCache.map fun row => row.payload.zstdLength).sum +
    (s.revisionManifests.map fun row => row.payload.zstdLength).sum

def retentionItems (s : Store Payload) : List RetentionItem :=
  (s.runs.map fun row => ⟨row.startedAt, .run, row.id⟩) ++
    (s.recordings.map fun row => ⟨row.createdAt, .recording, row.id⟩) ++
    (s.revisionManifests.map fun row => ⟨row.createdAt, .manifest, row.revision⟩)

def oldest (items : List RetentionItem) : Option RetentionItem :=
  items.foldl (fun best item =>
    match best with
    | none => some item
    | some first => if item.before first then some item else some first) none

def deleteItem (s : Store Payload) (item : RetentionItem) : Store Payload :=
  match item.kind with
  | .run => s.deleteRuns [item.id]
  | .recording => s.deleteRecordings fun row => row.id = item.id
  | .manifest => s.deleteManifests fun row => row.revision = item.id

/-- The size loop, for at most `fuel` deletions. -/
def evict (maxBytes : Nat) : Nat → Store Payload → Store Payload
  | 0, s => s
  | fuel + 1, s =>
    if s.payloadBytes ≤ maxBytes then s
    else
      match oldest s.retentionItems with
      | none => s
      | some item => evict maxBytes fuel (s.deleteItem item)

/-- The age bound. -/
def expire (s : Store Payload) (cutoff : String) : Store Payload :=
  let older (time : String) : Bool := compare time cutoff = .lt
  ((s.deleteRuns ((s.runs.filter fun row => older row.startedAt).map fun row => row.id)).deleteRecordings
    fun row => older row.createdAt).deleteManifests fun row => older row.createdAt

/-- Applies age and compressed-size retention bounds. -/
def prune (s : Store Payload) (cutoff : String) (maxBytes : Nat) : Store Payload :=
  let fresh := s.expire cutoff
  evict maxBytes fresh.retentionItems.length fresh

/-- What any number of retention deletes leaves: tests, coverage and dependencies
are untouched, the other tables only lose rows, a run that stays keeps its events
and its cached result, and an event stays only with its run. -/
structure Pruned (s t : Store Payload) : Prop where
  tests : t.tests = s.tests
  dependencies : t.dependencies = s.dependencies
  coverage : t.coverage = s.coverage
  runs : t.runs.Sublist s.runs
  events : t.events.Sublist s.events
  recordings : t.recordings.Sublist s.recordings
  verificationCache : t.verificationCache.Sublist s.verificationCache
  revisionManifests : t.revisionManifests.Sublist s.revisionManifests
  keptEvents : ∀ runId, t.hasRun runId →
    (t.events.filter fun row => row.runId = runId) = s.events.filter fun row => row.runId = runId
  keptCache : ∀ row ∈ s.verificationCache, t.hasRun row.runId → row ∈ t.verificationCache
  ownedEvents : (∀ row ∈ s.events, s.hasRun row.runId) → ∀ row ∈ t.events, t.hasRun row.runId

namespace Pruned

theorem refl (s : Store Payload) : Pruned s s where
  tests := rfl
  dependencies := rfl
  coverage := rfl
  runs := .refl _
  events := .refl _
  recordings := .refl _
  verificationCache := .refl _
  revisionManifests := .refl _
  keptEvents _ _ := rfl
  keptCache _ member _ := member
  ownedEvents owned := owned

theorem hasRun {s t : Store Payload} (h : Pruned s t) {runId : String} (kept : t.hasRun runId) :
    s.hasRun runId := by
  simp only [Store.hasRun, List.any_eq_true] at kept ⊢
  obtain ⟨row, member, same⟩ := kept
  exact ⟨row, h.runs.subset member, same⟩

theorem trans {s t u : Store Payload} (first : Pruned s t) (second : Pruned t u) : Pruned s u where
  tests := second.tests.trans first.tests
  dependencies := second.dependencies.trans first.dependencies
  coverage := second.coverage.trans first.coverage
  runs := second.runs.trans first.runs
  events := second.events.trans first.events
  recordings := second.recordings.trans first.recordings
  verificationCache := second.verificationCache.trans first.verificationCache
  revisionManifests := second.revisionManifests.trans first.revisionManifests
  keptEvents runId kept :=
    (second.keptEvents runId kept).trans (first.keptEvents runId (second.hasRun kept))
  keptCache row member kept :=
    second.keptCache row (first.keptCache row member (second.hasRun kept)) kept
  ownedEvents owned := second.ownedEvents (first.ownedEvents owned)

end Pruned

theorem hasRun_deleteRuns (s : Store Payload) (doomed : List String) (runId : String) :
    (s.deleteRuns doomed).hasRun runId ↔ s.hasRun runId ∧ runId ∉ doomed := by
  simp only [hasRun, deleteRuns, List.any_eq_true, List.mem_filter, decide_eq_true_eq]
  constructor
  · rintro ⟨row, ⟨member, stays⟩, rfl⟩
    exact ⟨⟨row, member, rfl⟩, stays⟩
  · rintro ⟨⟨row, member, rfl⟩, stays⟩
    exact ⟨row, ⟨member, stays⟩, rfl⟩

theorem pruned_deleteRuns (s : Store Payload) (doomed : List String) :
    Pruned s (s.deleteRuns doomed) where
  tests := rfl
  dependencies := rfl
  coverage := rfl
  runs := List.filter_sublist
  events := List.filter_sublist
  recordings := .refl _
  verificationCache := List.filter_sublist
  revisionManifests := .refl _
  keptEvents runId kept := by
    have stays := ((s.hasRun_deleteRuns doomed runId).mp kept).2
    simp only [deleteRuns, List.filter_filter]
    refine List.filter_congr fun row _ => ?_
    by_cases same : row.runId = runId
    · simp [same, stays]
    · simp [same]
  keptCache row member kept := by
    have stays := ((s.hasRun_deleteRuns doomed row.runId).mp kept).2
    simp [deleteRuns, member, stays]
  ownedEvents owned row member := by
    simp only [deleteRuns, List.mem_filter, decide_eq_true_eq] at member
    exact (s.hasRun_deleteRuns doomed row.runId).mpr ⟨owned row member.1, member.2⟩

theorem pruned_deleteRecordings (s : Store Payload) (doomed : RecordingRow → Bool) :
    Pruned s (s.deleteRecordings doomed) :=
  { Pruned.refl s with
    recordings := List.filter_sublist
    keptEvents := fun _ _ => rfl
    keptCache := fun _ member _ => member
    ownedEvents := fun owned => owned }

theorem pruned_deleteManifests (s : Store Payload) (doomed : ManifestRow → Bool) :
    Pruned s (s.deleteManifests doomed) :=
  { Pruned.refl s with
    revisionManifests := List.filter_sublist
    keptEvents := fun _ _ => rfl
    keptCache := fun _ member _ => member
    ownedEvents := fun owned => owned }

theorem pruned_deleteItem (s : Store Payload) (item : RetentionItem) :
    Pruned s (s.deleteItem item) := by
  unfold deleteItem
  split
  · exact s.pruned_deleteRuns _
  · exact s.pruned_deleteRecordings _
  · exact s.pruned_deleteManifests _

theorem pruned_evict (maxBytes fuel : Nat) (s : Store Payload) : Pruned s (evict maxBytes fuel s) := by
  induction fuel generalizing s with
  | zero => exact Pruned.refl s
  | succ fuel ih =>
    simp only [evict]
    split
    · exact Pruned.refl s
    · split
      · exact Pruned.refl s
      · exact (s.pruned_deleteItem _).trans (ih _)

theorem pruned_expire (s : Store Payload) (cutoff : String) : Pruned s (s.expire cutoff) :=
  ((s.pruned_deleteRuns _).trans (pruned_deleteRecordings _ _)).trans (pruned_deleteManifests _ _)

theorem pruned_prune (s : Store Payload) (cutoff : String) (maxBytes : Nat) :
    Pruned s (s.prune cutoff maxBytes) :=
  (s.pruned_expire cutoff).trans (pruned_evict _ _ _)

end Store

end Walaru
