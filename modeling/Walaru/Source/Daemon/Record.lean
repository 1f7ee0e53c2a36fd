import Mathlib.Data.List.Induction
import Walaru.Source.Daemon.VerifierEffects

/-!
# Recordings, replays and the life of a store

`Verifier::record_with_options`, `Verifier::verify_replay_event` and the prune of
`Daemon::open`. A history is any sequence of these operations and of ordinary
verify requests, each with its own environment, on a store that starts empty.
-/
namespace Walaru
open Lib.Text Lib.StateResult

/-- Bounds of the page that a recording and a replay read. -/
def recordingPageLimit : Nat := 100000

def recordingPageBytes : Nat := 64 * 1024 * 1024

/-- The request that re-runs one test in full mode. -/
def recordRequest (testId : String) (captureFileIo : Bool) : VerificationRequest :=
  ⟨.full, [testId], false, none, captureFileIo, none⟩

structure RecordEnv where
  verifier : VerifierEnv
  inputsTape : InputFile
  createdAt : String
  /-- The cutoff of the prune after the save. -/
  cutoff : String

def readRun (runId : String) : VerifyM (List Event) := do
  let page ← storing fun s =>
    (s.eventsPage runId recordingPageLimit recordingPageBytes).map fun page => (page, s)
  pure page.items

/-- The identifier hashes the revision, the test and the last state. -/
def recordingId (platform : Platform) (revision testId : String) (events : List Event) : String :=
  "rec-" ++ shortHash platform ("recording-v1\x00" ++ revision ++ "\x00" ++ testId ++ "\x00" ++
    match events.getLast? with
    | none => "none"
    | some event => event.stateHash)

def recordingCapabilities (capabilities : CapabilityManifest) (events : List Event) :
    CapabilityManifest :=
  if replayCheckpoints events ≠ [] then
    { capabilities with supported := capabilities.supported ++ ["replayCheckpoints"] }
  else capabilities

def assembleRecording (platform : Platform) (outcome : VerificationOutcome) (testId : String)
    (events : List Event) (inputs : List RecordedInput) : Recording where
  id := recordingId platform outcome.revision testId events
  revision := outcome.revision
  testId := testId
  backend := "jvm"
  capabilities := recordingCapabilities outcome.capabilities events
  inputs := inputs
  linuxProcess := none
  events := events
  checkpoints := replayCheckpoints events

def recordingBlob (platform : Platform) (recording : Recording) : Blob Recording :=
  ⟨recording, (platform.recordingSizes recording).1, (platform.recordingSizes recording).2⟩

def refuseStale (outcome : VerificationOutcome) : VerifyM Unit :=
  refuse (if outcome.status = .stale then some .staleRecording else none)

/-- The recording of a run, from its persisted events and its tape. -/
def composeRecording (env : RecordEnv) (testId : String) (outcome : VerificationOutcome) :
    VerifyM Recording := do
  refuseStale outcome
  let events ← readRun outcome.runId
  let inputs ← answer (recordedInputs env.inputsTape)
  pure (assembleRecording env.verifier.platform outcome testId events inputs)

/-- Re-runs one test and saves its recording. -/
def recordWithOptions (env : RecordEnv) (testId : String) (captureFileIo : Bool) :
    VerifyM Recording := do
  let outcome ← verify env.verifier (recordRequest testId captureFileIo)
  let recording ← composeRecording env testId outcome
  writing fun s => .ok (s.saveRecording (recordingBlob env.verifier.platform recording) env.createdAt)
  pruning env.cutoff env.verifier.maxBytes
  pure recording

structure ReplayEnv where
  verifier : VerifierEnv
  /-- The workspace captured before the replay. -/
  current : Except VerifierError RevisionSnapshot

def replayRequest (recording : Recording) : VerificationRequest :=
  recordRequest recording.testId (recording.inputs.any fun input => startsWith "io.file." input.kind)

def checkReplayRevision (env : ReplayEnv) (recording : Recording) : VerifyM Unit := do
  let current ← answer env.current
  refuse (if current.revision ≠ recording.revision then
    some (.replayRevision recording.revision current.revision) else none)

/-- Compare a replay run's events with the recording. -/
def compareReplay (recording : Recording) (eventId : String) (outcome : VerificationOutcome) :
    VerifyM String := do
  refuseStale outcome
  let replayed ← readRun outcome.runId
  answer ((verifyReplayedPrefix recording replayed eventId).mapError VerifierError.replay)
  pure outcome.runId

/-- Re-runs a recorded test and verifies its prefix through an event. -/
def verifyReplayEvent (env : ReplayEnv) (recording : Recording) (eventId : String) :
    VerifyM String := do
  checkReplayRevision env recording
  let outcome ← verifyInternal env.verifier (replayRequest recording) (some recording)
  compareReplay recording eventId outcome

inductive Operation where
  | verify (env : VerifierEnv) (request : VerificationRequest)
  | record (env : RecordEnv) (testId : String) (captureFileIo : Bool)
  | replayEvent (env : ReplayEnv) (recording : Recording) (eventId : String)
  /-- A daemon that opens the store prunes it. -/
  | reopen (cutoff : String) (maxBytes : Nat)

def perform (op : Operation) (s : EvidenceStore) : EvidenceStore :=
  match op with
  | .verify env request => storeOf (verify env request s)
  | .record env testId captureFileIo => storeOf (recordWithOptions env testId captureFileIo s)
  | .replayEvent env recording eventId => storeOf (verifyReplayEvent env recording eventId s)
  | .reopen cutoff maxBytes => s.prune cutoff maxBytes

/-- The store after a history. -/
def play (history : List Operation) : EvidenceStore :=
  history.foldl (fun s op => perform op s) Store.empty

@[simp] theorem play_nil : play [] = Store.empty := rfl

theorem play_snoc (history : List Operation) (op : Operation) :
    play (history ++ [op]) = perform op (play history) := by
  simp [play]

/-- The induction of every history: what the empty store satisfies and each
operation carries on. -/
theorem play_induction {P : List Operation → EvidenceStore → Prop} (empty : P [] Store.empty)
    (step : ∀ history op, P history (play history) → P (history ++ [op]) (perform op (play history)))
    (history : List Operation) : P history (play history) := by
  induction history using List.reverseRecOn with
  | nil => exact empty
  | append_singleton history op ih =>
    rw [play_snoc]
    exact step history op ih

/-- The call of `verify_internal` that a replay makes, on the recorded revision only. -/
def replayCall (env : ReplayEnv) (recording : Recording) :
    Option (VerifierEnv × VerificationRequest × Option Recording) :=
  match env.current with
  | .ok current =>
    if current.revision = recording.revision then
      some (env.verifier, replayRequest recording, some recording)
    else none
  | .error _ => none

/-- The call of `verify_internal` that an operation makes. -/
def Operation.call : Operation → Option (VerifierEnv × VerificationRequest × Option Recording)
  | .verify env request => some (env, request, none)
  | .record env testId captureFileIo =>
    some (env.verifier, recordRequest testId captureFileIo, none)
  | .replayEvent env recording _ => replayCall env recording
  | .reopen _ _ => none

/-- An operation leaves the store as its call did, up to recordings and retention. -/
def Retained (s t : EvidenceStore) : Prop :=
  ∃ recordings, Store.Pruned { s with recordings := recordings } t

theorem Retained.refl (s : EvidenceStore) : Retained s s := ⟨s.recordings, .refl s⟩

theorem readOnly_readRun (runId : String) : ReadOnly (readRun runId) := by
  refine .bind (fun s => ?_) fun _ => .pure _
  unfold storing
  cases s.eventsPage runId recordingPageLimit recordingPageBytes <;> rfl

theorem readOnly_composeRecording (env : RecordEnv) (testId : String)
    (outcome : VerificationOutcome) : ReadOnly (composeRecording env testId outcome) :=
  .bind (.refuse _) fun _ => .bind (readOnly_readRun _) fun _ => .bind (.answer _) fun _ => .pure _

theorem readOnly_compareReplay (recording : Recording) (eventId : String)
    (outcome : VerificationOutcome) : ReadOnly (compareReplay recording eventId outcome) :=
  .bind (.refuse _) fun _ => .bind (readOnly_readRun _) fun _ => .bind (.answer _) fun _ => .pure _

/-- The two ends of a record request. -/
theorem recordWithOptions_result (env : RecordEnv) (testId : String) (captureFileIo : Bool)
    (s : EvidenceStore) :
    (∃ e, recordWithOptions env testId captureFileIo s =
      .error e (storeOf (verify env.verifier (recordRequest testId captureFileIo) s))) ∨
    ∃ outcome t recording,
      verify env.verifier (recordRequest testId captureFileIo) s = .ok outcome t ∧
      composeRecording env testId outcome t = .ok recording t ∧
      recordWithOptions env testId captureFileIo s = .ok recording
        ((t.saveRecording (recordingBlob env.verifier.platform recording) env.createdAt).prune
          env.cutoff env.verifier.maxBytes) := by
  unfold recordWithOptions
  cases ran : verify env.verifier (recordRequest testId captureFileIo) s with
  | error e t =>
    exact .inl ⟨e, bind_of_error ran⟩
  | ok outcome t =>
    rw [bind_of_ok ran]
    cases composed : composeRecording env testId outcome t with
    | error e u =>
      obtain rfl := (readOnly_composeRecording env testId outcome).error composed
      exact .inl ⟨e, bind_of_error composed⟩
    | ok recording u =>
      obtain rfl := (readOnly_composeRecording env testId outcome).ok composed
      rw [bind_of_ok composed]
      exact .inr ⟨outcome, u, recording, rfl, composed, rfl⟩

theorem verifyReplayEvent_store (env : ReplayEnv) (recording : Recording) (eventId : String)
    (s : EvidenceStore) :
    storeOf (verifyReplayEvent env recording eventId s) =
      match replayCall env recording with
      | none => s
      | some (verifier, request, replay) => storeOf (verifyInternal verifier request replay s) := by
  unfold verifyReplayEvent
  cases captured : env.current with
  | error e =>
    have call : replayCall env recording = none := by simp [replayCall, captured]
    have stopped : checkReplayRevision env recording s = .error e s := by
      simp [checkReplayRevision, captured, bind_error]
    rw [bind_of_error stopped, call]
    rfl
  | ok current =>
    by_cases same : current.revision = recording.revision
    · have call : replayCall env recording =
          some (env.verifier, replayRequest recording, some recording) := by
        simp [replayCall, captured, same]
      have checked : checkReplayRevision env recording s = .ok () s := by
        simp [checkReplayRevision, captured, bind_ok, same]
      rw [bind_of_ok checked, call]
      cases ran : verifyInternal env.verifier (replayRequest recording) (some recording) s with
      | error e u =>
        rw [bind_of_error ran]
        simp only [ran]
        rfl
      | ok outcome u =>
        rw [bind_of_ok ran]
        simp only [ran]
        exact readOnly_compareReplay recording eventId outcome u
    · have call : replayCall env recording = none := by simp [replayCall, captured, same]
      have stopped : checkReplayRevision env recording s =
          .error (.replayRevision recording.revision current.revision) s := by
        simp [checkReplayRevision, captured, bind_error, same]
      rw [bind_of_error stopped, call]
      rfl

/-- What an operation does to the tables: what its verify call does, then at most a
saved recording and a prune. -/
theorem perform_retained (op : Operation) (s : EvidenceStore) :
    Retained (match op.call with
      | none => s
      | some (env, request, replay) => storeOf (verifyInternal env request replay s))
      (perform op s) := by
  cases op with
  | verify env request => exact .refl _
  | record env testId captureFileIo =>
    change Retained (storeOf (verify _ _ s)) (storeOf (recordWithOptions env testId captureFileIo s))
    rcases recordWithOptions_result env testId captureFileIo s with
      ⟨e, failed⟩ | ⟨outcome, t, recording, ran, -, saved⟩
    · rw [failed]
      exact .refl _
    · rw [saved, ran]
      exact ⟨_, Store.pruned_prune _ _ _⟩
  | replayEvent env recording eventId =>
    rw [perform, verifyReplayEvent_store]
    exact .refl _
  | reopen cutoff maxBytes => exact ⟨s.recordings, Store.pruned_prune s cutoff maxBytes⟩

theorem perform_cases (op : Operation) (s : EvidenceStore) :
    (op.call = none ∧ Retained s (perform op s)) ∨
      ∃ env request replay, op.call = some (env, request, replay) ∧
        Retained (storeOf (verifyInternal env request replay s)) (perform op s) := by
  have retained := perform_retained op s
  split at retained
  · rename_i idle
    exact .inl ⟨idle, retained⟩
  · rename_i call
    exact .inr ⟨_, _, _, call, retained⟩

end Walaru
