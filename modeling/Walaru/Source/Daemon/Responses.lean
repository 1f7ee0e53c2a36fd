import Walaru.Source.Core.Envelope
import Walaru.Source.Core.StorePages
import Walaru.Source.Daemon.Request

/-!
# Responses of the daemon

How `server.rs` bounds a query, builds the answers of `tests`, `coverage`, `trace` and
`verify`, projects their data on the requested fields and reduces what exceeds the byte
limit.
-/
namespace Walaru
open Lib.Text

structure QueryOptions where
  fields : List String
  limit : Nat
  cursor : Option String
  maxBytes : Nat
  deriving DecidableEq, Repr

def QueryOptions.default : QueryOptions := ⟨[], 100, none, 65536⟩

def QueryOptions.bounded (q : QueryOptions) : QueryOptions :=
  { q with limit := min (max q.limit 1) 1000, maxBytes := min (max q.maxBytes 4096) (1024 * 1024) }

/-- What every envelope names: the worktree, the session and the revision that was
captured for the answer. -/
structure ResponseOrigin where
  workspaceId : String
  sessionId : String
  revision : String
  deriving DecidableEq, Repr

def diagnostic (code severity message : String) : Diagnostic := ⟨code, severity, message, ∅⟩

/-- `JvmReplayBackend.capabilities()`. -/
def jvmReplayCapabilities : CapabilityManifest where
  backend := "jvm"
  completeness := .complete
  supported := ["singleThread", "singleTest", "pureJvm", "line", "call", "write", "threads",
    "threadSchedule", "virtualThreads", "deterministicInputs", "fieldReads", "arrayWrites",
    "monitorOrder", "volatileAccess", "writeWatchpoints", "reverseContinue", "replayCheckpoints",
    "boundedFileInputsOptIn"]
  unavailable := (((∅ : BTreeMap String String).insert "native" "JNI inputs are not recorded").insert
    "io" ("network and unbounded file I/O are not recorded; " ++
      "bounded Files reads require explicit opt-in")).insert
    "subprocess" "child processes are not recorded"

/-- `Daemon::envelope`. -/
def ResponseOrigin.envelope (origin : ResponseOrigin) (status : Status) (runId : Option String)
    (data : Json) (diagnostics : List Diagnostic) : Envelope where
  schemaVersion := schemaVersion
  workspaceId := origin.workspaceId
  revision := origin.revision
  sessionId := origin.sessionId
  runId := runId
  status := status
  data := data
  diagnostics := diagnostics
  capabilities := jvmReplayCapabilities
  nextActions := []
  page := none

/-- The data of a reduced answer. -/
def truncatedData (originalBytes maxBytes : Nat) (diagnosticCodes : List String) : Json :=
  .ofMembers [("truncated", .bool true), ("originalBytes", .ofNat originalBytes),
    ("maxBytes", .ofNat maxBytes), ("diagnosticCodes", .ofStrings diagnosticCodes)]

def responseLimitDiagnostic : Diagnostic :=
  diagnostic "WALARU_RESPONSE_LIMIT" "warning"
    "the structured result exceeded --max-bytes; narrow --fields, --limit, or use pagination"

def Envelope.truncated (e : Envelope) (originalBytes maxBytes : Nat) : Envelope :=
  { e with
    status := .partial_
    data := truncatedData originalBytes maxBytes ((e.diagnostics.take 8).map Diagnostic.code)
    diagnostics := [responseLimitDiagnostic]
    nextActions := []
    page := none }

/-- The envelope that is sent, and whether it was reduced. -/
def enforceResponseLimit (floats : FloatWriter) (e : Envelope) (maxBytes : Nat) : Envelope × Bool :=
  if e.bytes floats ≤ maxBytes then (e, false)
  else (e.truncated (e.bytes floats) maxBytes, true)

/-- What the paths that start with a name ask below it. -/
def tailsBelow (name : String) (paths : List (List String)) : List (List String) :=
  paths.filterMap fun path =>
    match path with
    | head :: tail => if head = name then some tail else none
    | [] => none

mutual
/-- The members of an object are in name order, as those of the grouped paths are. -/
def projectFields (paths : List (List String)) : Json → Json
  | .object fields => .object (projectMembers paths fields)
  | .array items => .array (projectItems paths items)
  | .null => .null
  | .bool value => .bool value
  | .number value => .number value
  | .string value => .string value

def projectMembers (paths : List (List String)) : List (String × Json) → List (String × Json)
  | [] => []
  | (name, value) :: rest =>
    let tails := tailsBelow name paths
    if tails.isEmpty then projectMembers paths rest
    else (name, if tails.any List.isEmpty then value else projectFields tails value) ::
      projectMembers paths rest

def projectItems (paths : List (List String)) : List Json → List Json
  | [] => []
  | item :: rest => projectFields paths item :: projectItems paths rest
end

def fieldPaths (fields : List String) : List (List String) :=
  (fields.map fun field => (splitChar '.' field).filter (· ≠ "")).filter (· ≠ [])

def applyFieldMask (fields : List String) (data : Json) : Json :=
  if fields.isEmpty then data else projectFields (fieldPaths fields) data

/-- What `dispatch` does with an answer: project, then bound. -/
def finishResponse (floats : FloatWriter) (query : QueryOptions) (exitCode : Nat) (e : Envelope) :
    Nat × Envelope :=
  let sent := enforceResponseLimit floats { e with data := applyFieldMask query.fields e.data }
    query.maxBytes
  (if sent.2 then 4 else exitCode, sent.1)

def TestRecord.json (t : TestRecord) : Json :=
  .ofMembers [("id", .string t.id), ("displayName", .string t.displayName),
    ("module", .string t.module), ("lastStatus", .ofOption .string t.lastStatus),
    ("lastFailureId", .ofOption .string t.lastFailureId)]

def CoverageRecord.json (c : CoverageRecord) : Json :=
  .ofMembers [("testId", .string c.testId), ("path", .string c.path), ("line", .ofNat c.line),
    ("symbol", .string c.symbol)]

def EventKind.text : EventKind → String
  | .testStart => "testStart"
  | .line => "line"
  | .call => "call"
  | .write => "write"
  | .read => "read"
  | .monitor => "monitor"
  | .testFinish => "testFinish"
  | .output => "output"
  | .input => "input"
  | .checkpoint => "checkpoint"
  | .capture => "capture"
  | .note => "note"
  | .spanStart => "spanStart"
  | .spanValue => "spanValue"
  | .spanEnd => "spanEnd"

def SourceLocation.json (l : SourceLocation) : Json :=
  .ofMembers [("path", .string l.path), ("line", .ofNat l.line), ("column", .ofNat l.column),
    ("symbol", .string l.symbol)]

def LogicalFrame.json (f : LogicalFrame) : Json :=
  .ofMembers [("className", .string f.className), ("method", .string f.method),
    ("path", .string f.path), ("line", .ofNat f.line)]

/-- An empty thread key, stack or measurement is left out. -/
def Event.json (e : Event) : Json :=
  .ofMembers ([("id", .string e.id), ("sequence", .ofNat e.sequence), ("threadId", .ofNat e.threadId)] ++
    (if e.threadKey = "" then [] else [("threadKey", .string e.threadKey)]) ++
    [("virtualThread", .bool e.virtualThread), ("coroutine", .bool e.coroutine)] ++
    (if e.logicalStack = [] then [] else
      [("logicalStack", .array (e.logicalStack.map LogicalFrame.json))]) ++
    [("kind", .string e.kind.text), ("location", .ofOption SourceLocation.json e.location),
      ("values", e.values)] ++
    (if e.observations = .object [] then [] else [("observations", e.observations)]) ++
    [("stateHash", .string e.stateHash), ("outputIndex", .ofNat e.outputIndex)])

/-- The commands that answer a page of a listing. -/
inductive PagedCommand where
  | tests
  | coverage (subject : String)
  | trace (subject : String)
  deriving DecidableEq, Repr

/-- The member of `data` that holds the items. -/
def PagedCommand.name : PagedCommand → String
  | .tests => "tests"
  | .coverage _ => "coverage"
  | .trace _ => "events"

/-- The items of a page and the cursor behind them, as the store cuts it. The trace is
cut by the size of the stored events only when no fields are requested. -/
def storePage (s : EvidenceStore) (query : QueryOptions) (cursor : Option String) :
    PagedCommand → Except StoreError (List Json × Option String)
  | .tests => (s.testPage cursor query.limit).map fun page =>
      (page.items.map TestRecord.json, page.nextCursor)
  | .coverage subject => (s.coveragePage subject cursor query.limit).map fun page =>
      (page.items.map CoverageRecord.json, page.nextCursor)
  | .trace subject =>
    let eventMaxBytes := if query.fields.isEmpty then query.maxBytes else usizeMax
    (s.trace subject cursor query.limit eventMaxBytes).map fun page =>
      (page.items.map Event.json, page.nextCursor)

/-- The envelope around a page. -/
def pageEnvelope (origin : ResponseOrigin) (query : QueryOptions) (command : PagedCommand)
    (cursor : Option String) (page : List Json × Option String) : Envelope :=
  { origin.envelope .ok none (.ofMembers [(command.name, .array page.1)]) [] with
    page := some ⟨cursor, page.2, query.limit, page.1.length⟩ }

/-- The answer to a paged command. -/
def respondPage (floats : FloatWriter) (origin : ResponseOrigin) (s : EvidenceStore)
    (request : QueryOptions) (command : PagedCommand) : Except StoreError (Nat × Envelope) :=
  let query := request.bounded
  (storePage s query query.cursor command).map fun page =>
    finishResponse floats query 0 (pageEnvelope origin query command query.cursor page)

def RunStatus.text : RunStatus → String
  | .running => "running"
  | .passed => "passed"
  | .failed => "failed"
  | .stale => "stale"
  | .error => "error"

def WorkerProblem.json (p : WorkerProblem) : Json :=
  .ofMembers [("path", .string p.path), ("line", .ofNat p.line), ("column", .ofOption .ofNat p.column),
    ("severity", .string p.severity), ("message", .string p.message)]

def LiveValueHint.json (h : LiveValueHint) : Json :=
  .ofMembers [("testId", .string h.testId), ("eventId", .string h.eventId), ("path", .string h.path),
    ("line", .ofNat h.line), ("label", .string h.label), ("value", h.value)]

/-- The outcome as data of the answer, with the flag of a second attempt. -/
def VerificationOutcome.json (o : VerificationOutcome) (requeued : Bool) : Json :=
  .ofMembers [("evidenceFormatVersion", .ofNat o.evidenceFormatVersion), ("runId", .string o.runId),
    ("revision", .string o.revision), ("status", .string o.status.text),
    ("exitCode", .ofNat o.exitCode), ("tests", .ofStrings o.tests),
    ("testStatuses", .ofMap .string o.testStatuses), ("failures", .ofStrings o.failures),
    ("events", .ofNat o.events), ("capabilities", o.capabilities.json),
    ("logFile", .string o.logFile), ("cached", .bool o.cached), ("selection", .string o.selection),
    ("selectedTests", .ofStrings o.selectedTests), ("overlayVersions", .ofMap .ofInt o.overlayVersions),
    ("problems", .array (o.problems.map WorkerProblem.json)),
    ("valueHints", .array (o.valueHints.map LiveValueHint.json)), ("requeued", .bool requeued)]

def verificationStatus : RunStatus → Status
  | .passed => .ok
  | .failed => .failure
  | .stale => .stale
  | .error | .running => .error

def verificationDiagnostics : RunStatus → List Diagnostic
  | .failed => [diagnostic "WALARU_VERIFICATION_FAILED" "error"
      "compilation or selected tests failed; query failure IDs and trace"]
  | .stale => [diagnostic "WALARU_STALE_REVISION" "warning"
      "workspace changed during verification; the result is not a success"]
  | .error => [diagnostic "WALARU_VERIFICATION_EVIDENCE" "error"
      ("the worker completed without fresh passing evidence for the requested tests; " ++
        "inspect the worker log")]
  | .passed | .running => []

/-- The envelope that `Daemon::verify` builds of a finished verification. -/
def verificationEnvelope (origin : ResponseOrigin) (outcome : VerificationOutcome) (requeued : Bool) :
    Envelope :=
  { origin.envelope (verificationStatus outcome.status) (some outcome.runId) (outcome.json requeued)
      (verificationDiagnostics outcome.status) with
    revision := outcome.revision
    capabilities := outcome.capabilities }

end Walaru
