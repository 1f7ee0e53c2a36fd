import Walaru.Lib.BoundedPage
import Walaru.Source.Core.Replay

/-!
# The revision-bound SQLite store

One list for each table of `MIGRATION_V1`, in rowid order, and one function for
each operation the daemon runs on it. A statement fails only on a constraint of
the schema: a primary key, a unique index or a foreign key. Text columns compare
as SQLite's binary collation does. A compressed column keeps what it decodes to,
the length of its JSON text and the length of the zstd frame; the cached payload
is opaque to the store, so its type is a parameter.
-/
namespace Walaru

/-- `usize::MAX`. -/
def usizeMax : Nat := 2 ^ 64 - 1

/-- A compressed column. -/
structure Blob (α : Type) where
  content : α
  jsonLength : Nat
  zstdLength : Nat
  deriving DecidableEq

inductive StoreError where
  | constraint (table : String)
  | noRow (table : String)
  | integerRange (value : Nat)
  deriving DecidableEq, Repr

/-- Persisted run state. -/
inductive RunStatus where
  | running | passed | failed | stale | error
  deriving DecidableEq, Repr

structure NewRun where
  id : String
  revision : String
  sourceDigest : String
  startedAt : String
  deriving DecidableEq, Repr

structure RunRow where
  id : String
  revision : String
  sourceDigest : String
  status : RunStatus
  startedAt : String
  finishedAt : Option String
  deriving DecidableEq, Repr

/-- Discovered test metadata. -/
structure TestRow where
  id : String
  displayName : String
  module : String
  lastStatus : Option String
  deriving DecidableEq, Repr

/-- One observed test-to-production dependency. -/
structure DependencyRow where
  testId : String
  subject : String
  kind : String
  deriving DecidableEq, Repr

structure EventRow where
  eventId : String
  runId : String
  testId : String
  sequence : Nat
  payload : Blob Event
  deriving DecidableEq

structure FailureRecord where
  id : String
  runId : String
  testId : String
  exceptionType : String
  message : String
  eventId : Option String
  frames : List String
  deriving DecidableEq, Repr

structure CoverageRow where
  rowid : Nat
  testId : String
  path : String
  line : Nat
  symbol : String
  deriving DecidableEq, Repr

structure RecordingRow where
  id : String
  revision : String
  testId : String
  backend : String
  createdAt : String
  payload : Blob Recording
  deriving DecidableEq

structure CacheRow (Payload : Type) where
  revision : String
  runId : String
  createdAt : String
  payload : Blob Payload

/-- Content and conservative source-surface digests for one successful revision. -/
structure RevisionManifest where
  fileDigests : BTreeMap String String
  surfaceDigests : BTreeMap String String
  deriving DecidableEq

structure ManifestRow where
  revision : String
  createdAt : String
  payload : Blob RevisionManifest
  deriving DecidableEq

/-- Safe impact decision. -/
inductive ImpactSelection where
  | exact (tests : List String)
  | moduleAll (tests : List String) (reason : String)
  deriving DecidableEq, Repr

structure EventPage where
  items : List Event
  nextCursor : Option String
  deriving DecidableEq

structure Store (Payload : Type) where
  runs : List RunRow
  tests : List TestRow
  dependencies : List DependencyRow
  events : List EventRow
  failures : List FailureRecord
  coverage : List CoverageRow
  recordings : List RecordingRow
  verificationCache : List (CacheRow Payload)
  revisionManifests : List ManifestRow

namespace Store
variable {Payload : Type}

/-- A freshly migrated database. -/
def empty : Store Payload := ⟨[], [], [], [], [], [], [], [], []⟩

def hasRun (s : Store Payload) (runId : String) : Bool := s.runs.any fun row => row.id = runId

def hasTest (s : Store Payload) (testId : String) : Bool := s.tests.any fun row => row.id = testId

/-- Inserts an active run. -/
def beginRun (s : Store Payload) (run : NewRun) : Except StoreError (Store Payload) :=
  if s.hasRun run.id then .error (.constraint "runs")
  else .ok { s with
    runs := s.runs ++ [⟨run.id, run.revision, run.sourceDigest, .running, run.startedAt, none⟩] }

/-- Finishes a run, overriding the result with `stale` when revisions differ. -/
def finishRun (s : Store Payload) (runId : String) (desired : RunStatus)
    (currentRevision finishedAt : String) : Except StoreError (RunStatus × Store Payload) :=
  match s.runs.find? fun row => row.id = runId with
  | none => .error (.noRow "runs")
  | some run =>
    let actual := if run.revision = currentRevision then desired else .stale
    .ok (actual, { s with
      runs := s.runs.map fun row =>
        if row.id = runId then { row with status := actual, finishedAt := some finishedAt } else row })

/-- Inserts one compressed event. -/
def appendEvent (s : Store Payload) (runId testId : String) (event : Blob Event) :
    Except StoreError (Store Payload) :=
  let row : EventRow :=
    ⟨event.content.id, runId, testId, event.content.sequence, event⟩
  if 2 ^ 63 ≤ row.sequence then .error (.integerRange row.sequence)
  else if s.events.any fun old =>
      old.eventId = row.eventId || (old.runId = runId && old.sequence = row.sequence) then
    .error (.constraint "events")
  else if !s.hasRun runId then .error (.constraint "events")
  else .ok { s with events := s.events ++ [row] }

/-- The rows of a run, one test's only when asked, after a cursor, in sequence order. -/
def eventRows (s : Store Payload) (runId : String) (testId : Option String) (after : Int) :
    List EventRow :=
  (s.events.filter fun row =>
    row.runId = runId && (testId.all fun t => row.testId = t) && after < (row.sequence : Int)).mergeSort
      fun a b => a.sequence ≤ b.sequence

/-- Reads an ordered, byte-bounded page of events. -/
def eventsMatching (s : Store Payload) (runId : String) (testId : Option String) (after : Int)
    (limit maxBytes : Nat) : Except StoreError EventPage :=
  let fetchLimit := max (min (limit + 1) usizeMax) 1
  if 2 ^ 63 ≤ fetchLimit then .error (.integerRange (2 ^ 64 - 1))
  else
    let page := Lib.BoundedPage.fill usizeMax (fun row : EventRow => row.payload.jsonLength)
      limit maxBytes 0 0 ((s.eventRows runId testId after).take fetchLimit)
    let items := page.1.map fun row => row.payload.content
    .ok ⟨items, if page.2 then items.getLast?.map fun event => toString event.sequence else none⟩

/-- The page of a whole run; a missing cursor reads from the start. -/
def eventsPage (s : Store Payload) (runId : String) (limit maxBytes : Nat) :
    Except StoreError EventPage :=
  s.eventsMatching runId none (-1) limit maxBytes

/-- Inserts or updates test metadata. -/
def upsertTest (s : Store Payload) (test : TestRow) : Store Payload :=
  if s.hasTest test.id then
    { s with tests := s.tests.map fun row => if row.id = test.id then test else row }
  else { s with tests := s.tests ++ [test] }

/-- Updates terminal statuses while preserving discovered test metadata. -/
def updateTestStatuses (s : Store Payload) (statuses : BTreeMap String String) : Store Payload :=
  { s with tests := s.tests.map fun row =>
      match statuses.get? row.id with
      | some status => { row with lastStatus := some status }
      | none => row }

/-- Inserts or replaces one failure. -/
def saveFailure (s : Store Payload) (failure : FailureRecord) : Except StoreError (Store Payload) :=
  if !s.hasRun failure.runId then .error (.constraint "failures")
  else .ok { s with
    failures := (s.failures.filter fun row => row.id ≠ failure.id) ++ [failure] }

def nextRowid (rows : List CoverageRow) : Nat := rows.foldl (fun n row => max n row.rowid) 0 + 1

def insertCoverage (rows : List CoverageRow) (testId path : String) (line : Nat) (symbol : String) :
    Except StoreError (List CoverageRow) :=
  if rows.any fun row =>
      row.testId = testId && row.path = path && row.line = line && row.symbol = symbol then
    .error (.constraint "coverage")
  else .ok (rows ++ [⟨nextRowid rows, testId, path, line, symbol⟩])

/-- Replaces source coverage for one test in one transaction. -/
def replaceCoverage (s : Store Payload) (testId : String)
    (coverage : List (String × Nat × String)) : Except StoreError (Store Payload) := do
  if coverage ≠ [] ∧ !s.hasTest testId then throw (.constraint "coverage")
  let rows ← coverage.foldlM
    (fun rows point => insertCoverage rows testId point.1 point.2.1 point.2.2)
    (s.coverage.filter fun row => row.testId ≠ testId)
  pure { s with coverage := rows }

def insertDependency (rows : List DependencyRow) (row : DependencyRow) :
    Except StoreError (List DependencyRow) :=
  if row ∈ rows then .error (.constraint "dependencies") else .ok (rows ++ [row])

/-- Replaces dependencies for one test in one transaction. -/
def replaceDependencies (s : Store Payload) (testId : String)
    (dependencies : List (String × String)) : Except StoreError (Store Payload) := do
  if dependencies ≠ [] ∧ !s.hasTest testId then throw (.constraint "dependencies")
  let rows ← dependencies.foldlM
    (fun rows dependency => insertDependency rows ⟨testId, dependency.1, dependency.2⟩)
    (s.dependencies.filter fun row => row.testId ≠ testId)
  pure { s with dependencies := rows }

/-- Saves a successful default verification result under its content revision. -/
def saveVerificationCache (s : Store Payload) (revision runId : String) (payload : Blob Payload)
    (createdAt : String) : Except StoreError (Store Payload) :=
  if !s.hasRun runId then .error (.constraint "verification_cache")
  else .ok { s with
    verificationCache := (s.verificationCache.filter fun row => row.revision ≠ revision) ++
      [⟨revision, runId, createdAt, payload⟩] }

/-- The cached payload of an exact content revision. -/
def cached (s : Store Payload) (revision : String) : Option Payload :=
  (s.verificationCache.find? fun row => row.revision = revision).map fun row => row.payload.content

/-- The first row with the greatest creation time. -/
def newest (rows : List (CacheRow Payload)) : Option (CacheRow Payload) :=
  rows.foldl (fun best row =>
    match best with
    | none => some row
    | some old => if compare old.createdAt row.createdAt = .lt then some row else some old) none

/-- The most recently cached successful default verification revision. -/
def latestCachedRevision (s : Store Payload) : Option String :=
  (newest s.verificationCache).map fun row => row.revision

/-- Saves the manifest used by conservative impact selection. -/
def saveRevisionManifest (s : Store Payload) (revision : String) (manifest : Blob RevisionManifest)
    (createdAt : String) : Store Payload :=
  { s with
    revisionManifests := (s.revisionManifests.filter fun row => row.revision ≠ revision) ++
      [⟨revision, createdAt, manifest⟩] }

def revisionManifest (s : Store Payload) (revision : String) : Option RevisionManifest :=
  (s.revisionManifests.find? fun row => row.revision = revision).map fun row => row.payload.content

/-- Test identifiers without repetition, in key order. -/
def distinctSorted (ids : List String) : List String :=
  (ids.foldl (fun set id => set.insert id) (∅ : BTreeSet String)).toList

/-- Selects exact impacted tests, widening unknown inputs to the module. -/
def selectImpact (s : Store Payload) (subject module : String) : ImpactSelection :=
  let known := distinctSorted
    ((s.dependencies.filter fun row => row.subject = subject).map fun row => row.testId)
  if known ≠ [] then .exact known
  else .moduleAll
    (distinctSorted ((s.tests.filter fun row => row.module = module).map fun row => row.id))
    "unknown dependency or build/resource/global change"

/-- Saves a compressed recording; an equal identifier is replaced. -/
def saveRecording (s : Store Payload) (recording : Blob Recording) (createdAt : String) :
    Store Payload :=
  let content := recording.content
  { s with
    recordings := (s.recordings.filter fun row => row.id ≠ content.id) ++
      [⟨content.id, content.revision, content.testId, content.backend, createdAt, recording⟩] }

def recording (s : Store Payload) (id : String) : Option Recording :=
  (s.recordings.find? fun row => row.id = id).map fun row => row.payload.content

end Store

end Walaru
