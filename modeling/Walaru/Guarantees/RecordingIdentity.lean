import Walaru.Guarantees.RecordingEvidence

/-!
# Recordings under one identifier

A recording's identifier hashes the revision, the test and the last state hash;
its content also has the run's events, the tape and the manifest. Saving replaces
the row of an equal identifier, so a stored recording keeps its content as long as
no two runs of a test at one revision end in the same state.
-/
namespace Walaru
open Lib.StateResult

/-- What a recording is made from besides the test and the platform. -/
structure RunMaterial where
  revision : String
  /-- The page of the run's events, empty when retention removed the run. -/
  events : List Event
  inputs : List RecordedInput
  capabilities : CapabilityManifest

/-- The material of a record request: its snapshot, its stream and its tape. -/
def runMaterial (env : RecordEnv) (testId : String) (captureFileIo : Bool) (s : EvidenceStore) :
    Except VerifierError RunMaterial := do
  let before ← env.verifier.capture (recordRequest testId captureFileIo).executionRoot .before
  let inputs ← recordedInputs env.inputsTape
  pure {
    revision := before.revision
    events :=
      if (recordedStore env testId captureFileIo s).hasRun env.verifier.runId then
        (pageRows (runRows env.verifier before.revision)).map fun row => row.payload.content
      else []
    inputs := inputs
    capabilities := (evidence (env.verifier.ingestContext before.revision)
      env.verifier.eventFile).capabilities }

namespace RunMaterial

def recordingId (material : RunMaterial) (platform : Platform) (testId : String) : String :=
  Walaru.recordingId platform material.revision testId material.events

/-- The state hash of the last event on the page. -/
def lastState (material : RunMaterial) : String :=
  match material.events.getLast? with
  | none => "none"
  | some event => event.stateHash

def recording (material : RunMaterial) (platform : Platform) (testId : String) : Recording where
  id := material.recordingId platform testId
  revision := material.revision
  testId := testId
  backend := "jvm"
  capabilities := recordingCapabilities material.capabilities material.events
  inputs := material.inputs
  linuxProcess := none
  events := material.events
  checkpoints := replayCheckpoints material.events

end RunMaterial

/-- An answered recording is assembled from the request's material. -/
theorem recordWithOptions_material {history : List Operation} {env : RecordEnv} {testId : String}
    {captureFileIo : Bool} {recording : Recording} {after : EvidenceStore}
    (returned : recordWithOptions env testId captureFileIo (play history) = .ok recording after) :
    ∃ material, runMaterial env testId captureFileIo (play history) = .ok material ∧
      recording = material.recording env.verifier.platform testId := by
  obtain ⟨outcome, events, inputs, ran, read, taped, rfl⟩ := recordWithOptions_parts returned
  obtain ⟨page, rows⟩ := recording_events returned
  obtain ⟨before, captured, revision, capabilities⟩ := fresh_answer (full_fresh rfl ran) ran
  have paged : events = if (recordedStore env testId captureFileIo (play history)).hasRun
      env.verifier.runId then
        (pageRows (runRows env.verifier before.revision)).map fun row => row.payload.content
      else [] := by
    refine page.trans ?_
    rw [rows]
    split
    · exact congrArg (fun r => (pageRows (runRows env.verifier r)).map _) revision
    · rfl
  refine ⟨⟨outcome.revision, events, inputs, outcome.capabilities⟩, ?_, rfl⟩
  rw [paged, revision, capabilities]
  simp [runMaterial, captured, taped, bind, Except.bind, pure, Except.pure]

/-- A record request of a history, with everything that came before it. -/
structure RecordCall (history : List Operation) where
  earlier : List Operation
  env : RecordEnv
  testId : String
  captureFileIo : Bool
  later : List Operation
  split : history = earlier ++ .record env testId captureFileIo :: later

namespace RecordCall
variable {history : List Operation}

def Answers (call : RecordCall history) (recording : Recording) : Prop :=
  ∃ after, recordWithOptions call.env call.testId call.captureFileIo (play call.earlier) =
    .ok recording after

def material (call : RecordCall history) : Except VerifierError RunMaterial :=
  runMaterial call.env call.testId call.captureFileIo (play call.earlier)

/-- The same request in a longer history. -/
def extend (call : RecordCall history) (op : Operation) : RecordCall (history ++ [op]) :=
  { call with
    later := call.later ++ [op]
    split := by simp [call.split] }

theorem Answers.material {call : RecordCall history} {recording : Recording}
    (answered : call.Answers recording) :
    ∃ material, call.material = .ok material ∧
      recording = material.recording call.env.verifier.platform call.testId := by
  obtain ⟨after, returned⟩ := answered
  exact recordWithOptions_material returned

end RecordCall

/-- Some record request of the history answered the row's content under the row's identifier. -/
def AnsweredBy (history : List Operation) (row : RecordingRow) : Prop :=
  ∃ call : RecordCall history, call.Answers row.payload.content ∧ row.payload.content.id = row.id

theorem AnsweredBy.snoc {history : List Operation} {row : RecordingRow}
    (answered : AnsweredBy history row) (op : Operation) : AnsweredBy (history ++ [op]) row := by
  obtain ⟨call, answers, same⟩ := answered
  exact ⟨call.extend op, answers, same⟩

/-- Two runs of one test at one revision whose pages end in the same state. -/
structure SameEnd (testId other : String) (m n : RunMaterial) : Prop where
  revision : m.revision = n.revision
  test : testId = other
  state : m.lastState = n.lastState

/-- Two runs without an event that agree in their tapes and manifests. -/
structure SameBareRun (m n : RunMaterial) : Prop where
  bare : m.events = [] ∧ n.events = []
  inputs : m.inputs = n.inputs
  capabilities : m.capabilities = n.capabilities

theorem SameBareRun.recording {platform platform' : Platform} {testId other : String}
    {m n : RunMaterial} (agree : SameBareRun m n) (ends : SameEnd testId other m n)
    (ids : m.recordingId platform testId = n.recordingId platform' other) :
    m.recording platform testId = n.recording platform' other := by
  obtain ⟨⟨bare, bare'⟩, inputs, capabilities⟩ := agree
  obtain ⟨revision, rfl, -⟩ := ends
  simp only [RunMaterial.recording, ids, revision, bare, bare', inputs, capabilities]

end Walaru
