import Walaru.Source.Daemon.Impact
import Walaru.Source.Daemon.Ingest
import Walaru.Source.Daemon.Tape

/-!
# The verify procedure

`Verifier::verify_internal`, cut at its own seams: admission with the first
snapshot, the exact-revision cache, the choice of tests, the launch that opens
the run's row, the supervised worker with ingestion and the second snapshot, the
verdict, and publication. Everything outside the store that the procedure reads
is a field of `VerifierEnv`: the snapshots, the worker's exit and its event file,
cancellation at each check, I/O failures. A snapshot is an independent answer at
each moment, so edits may fall anywhere. A statement of the store fails only on
the schema's constraints.
-/
namespace Walaru
open Lib.Text Lib.StateResult

/-- The places where the procedure looks at the cancellation token. -/
inductive CancelPoint where
  | entry | prepared | captured | cacheHit | selected | worked
  | line (index : Nat)
  deriving DecidableEq, Repr

/-- The moments at which an execution root is captured. -/
inductive Moment where
  | before | recheck | after
  deriving DecidableEq, Repr

/-- File operations of the launch that can fail. -/
inductive IoPoint where
  | runDirectory | liveDirectory | eventFile | inputFile | scheduleFile
  deriving DecidableEq, Repr

structure VerifierEnv where
  platform : Platform
  outcomeSizes : VerificationOutcome → Nat × Nat
  manifestSizes : RevisionManifest → Nat × Nat
  /-- The retention ceiling and the age cutoff when the request ends. -/
  maxBytes : Nat
  cutoff : String
  stateDir : String
  missingArtifact : Option String
  cancelled : CancelPoint → Bool
  overlayFailure : Option VerifierError
  capture : ExecutionRoot → Moment → Except VerifierError RevisionSnapshot
  /-- `impacted_tests_since_git`, which asks the `git` program. -/
  gitImpact : EvidenceStore → RevisionSnapshot → String → Except VerifierError (Option (List String))
  runId : String
  io : IoPoint → Option String
  /-- Whether the build process exited successfully, or why it was not awaited. -/
  worker : Except VerifierError Bool
  copyFailure : Option String
  eventFile : EventFile
  tree : Nat → SourceTree
  problems : List WorkerProblem
  startedAt : String
  finishedAt : String
  cachedAt : String
  manifestAt : String

namespace VerifierEnv

def failIo (env : VerifierEnv) (point : IoPoint) : VerifyM Unit :=
  refuse ((env.io point).map VerifierError.io)

def ingestContext (env : VerifierEnv) (revision : String) : IngestContext where
  platform := env.platform
  runId := env.runId
  revision := revision
  tree := env.tree
  cancelled := fun index => env.cancelled (.line index)

end VerifierEnv

def openRequest (env : VerifierEnv) (request : VerificationRequest) : VerifyM RevisionSnapshot := do
  checkCancellation (env.cancelled .entry)
  refuse (env.missingArtifact.map VerifierError.missingArtifact)
  refuse (if request.overlay.isSome then env.overlayFailure else none)
  checkCancellation (env.cancelled .prepared)
  let before ← answer (env.capture request.executionRoot .before)
  checkCancellation (env.cancelled .captured)
  pure before

def cacheable (request : VerificationRequest) (replaying : Bool) : Bool :=
  !replaying && request.mode = .fast && request.selectedTests = [] && !request.full &&
    request.since = none

def impactable (request : VerificationRequest) : Bool :=
  request.mode = .fast && request.selectedTests = [] && !request.full

/-- The guard on a cached payload. -/
def reusable (before : RevisionSnapshot) (outcome : VerificationOutcome) : Bool :=
  outcome.status = .passed && outcome.exitCode = 0 &&
    outcome.evidenceFormatVersion = verificationEvidenceFormatVersion &&
    outcome.revision = before.revision && outcome.events > 0 && outcome.tests ≠ []

def overlayVersions (request : VerificationRequest) : BTreeMap String Int :=
  match request.overlay with
  | none => ∅
  | some overlay =>
    overlay.documents.foldl (fun versions document => versions.insert document.path document.version) ∅

/-- The answer built from a cached payload. -/
def servedOutcome (request : VerificationRequest) (outcome : VerificationOutcome) :
    VerificationOutcome :=
  { outcome with
    cached := true
    selection := "cached"
    overlayVersions := overlayVersions request
    testStatuses :=
      if outcome.testStatuses.isEmpty then
        outcome.tests.foldl (fun statuses test => statuses.insert test "passed") ∅
      else outcome.testStatuses }

def reuse (env : VerifierEnv) (request : VerificationRequest) (before : RevisionSnapshot)
    (outcome : VerificationOutcome) : VerifyM (Option VerificationOutcome) := do
  let after ← answer (env.capture request.executionRoot .recheck)
  if after.revision = before.revision ∧ reusable before outcome then
    checkCancellation (env.cancelled .cacheHit)
    writing fun s => .ok (s.updateTestStatuses (servedOutcome request outcome).testStatuses)
    pure (some (servedOutcome request outcome))
  else pure none

def serveCached (env : VerifierEnv) (request : VerificationRequest) (replaying : Bool)
    (before : RevisionSnapshot) : VerifyM (Option VerificationOutcome) := do
  if cacheable request replaying then
    match ← reading fun s => s.cached before.revision with
    | none => pure none
    | some outcome => reuse env request before outcome
  else pure none

/-- What a request that was not served from the cache will run. -/
structure RunPlan where
  before : RevisionSnapshot
  selectedTests : List String
  selection : String

def requestedPlan (request : VerificationRequest) (before : RevisionSnapshot) : RunPlan where
  before := before
  selectedTests := request.selectedTests
  selection :=
    if request.selectedTests ≠ [] then "explicit"
    else if request.full then "full"
    else "moduleAll"

/-- The impact answer, by a git reference or by a stored revision. -/
def askImpact (env : VerifierEnv) (request : VerificationRequest) (before : RevisionSnapshot) :
    VerifyM (Option (List String)) :=
  match request.since with
  | some since =>
    if startsWith "rev-" since then reading fun s => impactedTests s before (some since)
    else do
      let s ← reading id
      answer (env.gitImpact s before since)
  | none => reading fun s => impactedTests s before none

def chooseTests (env : VerifierEnv) (request : VerificationRequest) (before : RevisionSnapshot) :
    VerifyM RunPlan := do
  if impactable request then
    match ← askImpact env request before with
    | some tests => pure ⟨before, tests, "impact"⟩
    | none => pure (requestedPlan request before)
  else pure (requestedPlan request before)

/-- Writes the input and schedule files of a replay; an ordinary run starts with
an empty tape. -/
def prepareInputs (env : VerifierEnv) (replay : Option Recording) : VerifyM Unit :=
  match replay with
  | none => env.failIo .inputFile
  | some recording => do
    let _ ← answer (writeReplayInputs recording)
    env.failIo .inputFile
    env.failIo .scheduleFile

/-- The directories and files of a run. -/
def prepareRun (env : VerifierEnv) (request : VerificationRequest) (replay : Option Recording) :
    VerifyM Unit := do
  checkCancellation (env.cancelled .selected)
  env.failIo .runDirectory
  refuse (if request.overlay.isSome then (env.io .liveDirectory).map VerifierError.io else none)
  env.failIo .eventFile
  prepareInputs env replay

def launch (env : VerifierEnv) (request : VerificationRequest) (replay : Option Recording)
    (plan : RunPlan) : VerifyM Unit := do
  prepareRun env request replay
  writing fun s => s.beginRun ⟨env.runId, plan.before.revision, plan.before.revision, env.startedAt⟩

/-- The worker and the ingestion of its event file. -/
def ingestRun (env : VerifierEnv) (request : VerificationRequest) (plan : RunPlan) :
    VerifyM (Bool × Ingested) := do
  let success ← answer env.worker
  checkCancellation (env.cancelled .worked)
  refuse (if request.overlay.isSome then env.copyFailure.map VerifierError.io else none)
  let ingested ← ingestEvents (env.ingestContext plan.before.revision) env.eventFile
  pure (success, ingested)

structure RunEvidence where
  success : Bool
  ingested : Ingested
  after : RevisionSnapshot

def observeRun (env : VerifierEnv) (request : VerificationRequest) (plan : RunPlan) :
    VerifyM RunEvidence := do
  let (success, ingested) ← ingestRun env request plan
  let after ← answer (env.capture request.executionRoot .after)
  pure ⟨success, ingested, after⟩

/-- Close the run's row as an error; a failure to do so is ignored. -/
def abandonRun (runId revision finishedAt : String) (s : EvidenceStore) : EvidenceStore :=
  match s.finishRun runId .error revision finishedAt with
  | .ok (_, t) => t
  | .error _ => s

/-- Run `x`; when it stops, close the run's row first. -/
def closing {α : Type} (runId revision finishedAt : String) (x : VerifyM α) : VerifyM α := fun s =>
  match x s with
  | .ok a t => .ok a t
  | .error e t => .error e (abandonRun runId revision finishedAt t)

/-- A successful exit without the evidence that the selection passed. -/
def freshEvidenceMissing (success : Bool) (ingested : Ingested) (selectedTests : List String) : Bool :=
  success &&
    (ingested.testStatuses.toList.all (fun entry => entry.2 ≠ "passed") ||
      ingested.testStatuses.size ≠ ingested.tests.length ||
      selectedTests.any fun test => ingested.testStatuses.get? test ≠ some "passed")

def desiredStatus (success : Bool) (ingested : Ingested) (selectedTests : List String) : RunStatus :=
  if freshEvidenceMissing success ingested selectedTests then .error
  else if success then .passed
  else .failed

def exitCode : RunStatus → Nat
  | .passed => 0
  | .failed => 1
  | .stale => 4
  | .error | .running => 3

def logFile (env : VerifierEnv) : String := env.stateDir ++ "/runs/" ++ env.runId ++ "/worker.log"

def freshOutcome (env : VerifierEnv) (request : VerificationRequest) (plan : RunPlan)
    (run : RunEvidence) (status : RunStatus) : VerificationOutcome where
  evidenceFormatVersion := verificationEvidenceFormatVersion
  runId := env.runId
  revision := plan.before.revision
  status := status
  exitCode := exitCode status
  tests := run.ingested.tests
  testStatuses := run.ingested.testStatuses
  failures := run.ingested.failures
  events := run.ingested.eventCount
  capabilities := run.ingested.capabilities
  logFile := logFile env
  cached := false
  selection := plan.selection
  selectedTests := plan.selectedTests
  overlayVersions := overlayVersions request
  problems := env.problems
  valueHints := run.ingested.valueHints

def conclude (env : VerifierEnv) (request : VerificationRequest) (plan : RunPlan)
    (run : RunEvidence) : VerifyM VerificationOutcome := do
  let status ← storing fun s => s.finishRun env.runId
    (desiredStatus run.success run.ingested plan.selectedTests) run.after.revision env.finishedAt
  pure (freshOutcome env request plan run status)

def outcomeBlob (env : VerifierEnv) (outcome : VerificationOutcome) : Blob VerificationOutcome :=
  ⟨outcome, (env.outcomeSizes outcome).1, (env.outcomeSizes outcome).2⟩

def manifestOf (snapshot : RevisionSnapshot) : RevisionManifest :=
  ⟨snapshot.fileDigests, snapshot.surfaceDigests⟩

def manifestBlob (env : VerifierEnv) (manifest : RevisionManifest) : Blob RevisionManifest :=
  ⟨manifest, (env.manifestSizes manifest).1, (env.manifestSizes manifest).2⟩

/-- A default passing result becomes the cache row and the baseline of its revision. -/
def publish (env : VerifierEnv) (request : VerificationRequest) (replaying : Bool) (plan : RunPlan)
    (outcome : VerificationOutcome) : VerifyM Unit :=
  if cacheable request replaying ∧ outcome.status = .passed then do
    writing fun s => s.saveVerificationCache outcome.revision outcome.runId
      (outcomeBlob env outcome) env.cachedAt
    writing fun s => .ok (s.saveRevisionManifest outcome.revision
      (manifestBlob env (manifestOf plan.before)) env.manifestAt)
  else pure ()

/-- `store.prune(Utc::now())`. -/
def pruning (cutoff : String) (maxBytes : Nat) : VerifyM Unit :=
  writing fun s => .ok (s.prune cutoff maxBytes)

/-- Everything after the launch: the worker, its evidence, the verdict. -/
def superviseRun (env : VerifierEnv) (request : VerificationRequest) (replaying : Bool)
    (plan : RunPlan) : VerifyM VerificationOutcome := do
  let run ← closing env.runId plan.before.revision env.finishedAt (observeRun env request plan)
  let outcome ← conclude env request plan run
  publish env request replaying plan outcome
  pruning env.cutoff env.maxBytes
  pure outcome

def runPlan (env : VerifierEnv) (request : VerificationRequest) (replay : Option Recording)
    (plan : RunPlan) : VerifyM VerificationOutcome := do
  launch env request replay plan
  superviseRun env request replay.isSome plan

/-- A request that the cache did not answer. -/
def executeRequest (env : VerifierEnv) (request : VerificationRequest) (replay : Option Recording)
    (before : RevisionSnapshot) : VerifyM VerificationOutcome := do
  let plan ← chooseTests env request before
  runPlan env request replay plan

def verifyInternal (env : VerifierEnv) (request : VerificationRequest) (replay : Option Recording) :
    VerifyM VerificationOutcome := do
  let before ← openRequest env request
  match ← serveCached env request replay.isSome before with
  | some outcome => pure outcome
  | none => executeRequest env request replay before

/-- Runs the build and ingests whatever structured evidence the worker emitted. -/
def verify (env : VerifierEnv) (request : VerificationRequest) : VerifyM VerificationOutcome :=
  verifyInternal env request none

end Walaru
