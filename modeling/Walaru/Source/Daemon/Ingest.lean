import Walaru.Source.Daemon.Request

/-!
# Ingesting a worker's event stream

`Verifier::ingest_events`. Each line of the stream is a blank, a JSON value, text
that does not parse, or a read that fails (the reader's own errors and a line
over the byte bound). The events and failures are written line by line; tests,
coverage and dependencies only after the whole stream was read. The files of the
execution root may change while the stream is read, so each event has its own
source tree.
-/
namespace Walaru
open Lib.Text Lib.StateResult

inductive StreamLine where
  | blank
  | event (raw : Json)
  | invalidJson
  | unreadable (message : String)
  deriving DecidableEq, Repr

inductive EventFile where
  | missing
  | unreadable (message : String)
  | lines (stream : List StreamLine)
  deriving DecidableEq, Repr

/-- The parsed events of a stream. -/
def StreamLine.raw? : StreamLine → Option Json
  | .event raw => some raw
  | _ => none

def EventFile.raws : EventFile → List Json
  | .lines stream => stream.filterMap StreamLine.raw?
  | _ => []

/-- One covered line of a test. -/
@[ext]
structure CoveragePoint where
  path : String
  line : Nat
  symbol : String
  deriving DecidableEq, Repr

namespace CoveragePoint

def cmp : CoveragePoint → CoveragePoint → Ordering :=
  compareLex (compareOn path) (compareLex (compareOn line) (compareOn symbol))

instance : Ord CoveragePoint := ⟨cmp⟩

instance : Std.TransOrd CoveragePoint :=
  inferInstanceAs (Std.TransCmp
    (compareLex (compareOn path) (compareLex (compareOn line) (compareOn symbol))))

instance : Std.LawfulEqOrd CoveragePoint where
  compare_self := by
    intro a
    change cmp a a = .eq
    simp [cmp, compareLex, compareOn]
  eq_of_compare := by
    intro a b same
    change cmp a b = .eq at same
    cases a
    cases b
    simpa [cmp, compareLex, compareOn] using same

end CoveragePoint

structure IngestContext where
  platform : Platform
  runId : String
  revision : String
  /-- The files when an event is read. -/
  tree : Nat → SourceTree
  /-- Whether the cancellation check after a line's read fires. -/
  cancelled : Nat → Bool

def kindName (raw : Json) : String := (raw.getStr "type").getD "OUTPUT"

def threadIdOf (raw : Json) : Nat := (raw.getU64 "threadId").getD 0

def threadKeyOf (raw : Json) : String := (raw.getStr "threadKey").getD ""

def moduleOf (raw : Json) : String := (raw.getStr "module").getD ":"

def lineNumber (raw : Json) : Nat := max (((raw.get "line").bind asU32).getD 1) 1

def symbolOf (raw : Json) : String :=
  replaceChar '/' '.' ((raw.getStr "owner").getD "") ++ "#" ++ (raw.getStr "method").getD ""

/-- The resolved source path of a line. -/
def sourcePath (tree : SourceTree) (raw : Json) : Option String :=
  (raw.getStr "path").map (resolveSourcePath tree)

/-- A member of the `values` object that is a text. -/
def valueStr (key : String) (raw : Json) : Option String := (raw.get "values").bind (Json.getStr key)

def fileInput (raw : Json) : Bool := (valueStr "kind" raw).any (startsWith "io.file.")

def volatileFlag (raw : Json) : Bool :=
  raw.getBool "volatile" = some true || (raw.get "values").bind (Json.getBool "volatile") = some true

/-- The status that a finished test reports. -/
def finishStatus (raw : Json) : String :=
  match (raw.getStr "status").getD "unknown" with
  | "successful" => "passed"
  | "aborted" => "skipped"
  | other => other

def failedFinish (raw : Json) : Bool := kindName raw = "TEST_FINISH" && finishStatus raw = "failed"

/-- The public event of a line at a place of the stream. -/
def publicEvent (ctx : IngestContext) (sequence : Nat) (raw : Json) : Event where
  id := EventIdentity.eventId ctx.platform
    ⟨ctx.revision, ctx.runId, publicTestId raw, sequence, threadIdOf raw⟩
  sequence := sequence
  threadId := threadIdOf raw
  threadKey := threadKeyOf raw
  virtualThread := (raw.getBool "virtualThread").getD false
  coroutine := (raw.getBool "coroutine").getD false
  logicalStack :=
    ((((raw.get "logicalStack").bind Json.asArray).getD []).take 64).filterMap logicalFrame
  kind := eventKind (kindName raw)
  location := (sourcePath (ctx.tree sequence) raw).map fun path =>
    ⟨path, lineNumber raw, 1, symbolOf raw⟩
  values := publicEventValues (raw.get "values")
  observations := (raw.get "observations").getD Json.emptyObject
  stateHash := (raw.getStr "stateHash").getD ""
  outputIndex := (raw.getU64 "outputIndex").getD 0

def eventBlob (platform : Platform) (event : Event) : Blob Event :=
  ⟨event, (platform.eventSizes event).1, (platform.eventSizes event).2⟩

def failureId (ctx : IngestContext) (sequence : Nat) (raw : Json) : String :=
  "failure-" ++ shortHash ctx.platform
    (ctx.runId ++ "\x00" ++ publicTestId raw ++ "\x00" ++ toString sequence)

def failureRecord (ctx : IngestContext) (sequence : Nat) (raw : Json) : FailureRecord where
  id := failureId ctx sequence raw
  runId := ctx.runId
  testId := publicTestId raw
  exceptionType := (raw.getStr "failureType").getD "java.lang.AssertionError"
  message := takeChars 512
    ((raw.getStr "message").getD "test failed; inspect trace and worker log")
  eventId := some (publicEvent ctx sequence raw).id
  frames := ((((raw.get "frames").bind Json.asArray).getD []).filterMap Json.asStr).take 64

structure IngestState where
  tests : BTreeMap String (Option String)
  modules : BTreeMap String String
  coverage : BTreeMap String (BTreeSet CoveragePoint)
  /-- Paths a test depends on; every dependency has the kind `method`. -/
  dependencies : BTreeMap String (BTreeSet String)
  failures : List String
  threads : BTreeSet Nat
  threadKeys : BTreeMap Nat String
  threadIdentityConflict : Bool
  virtualThreadObserved : Bool
  coroutineObserved : Bool
  unavailable : BTreeMap String String
  nondeterministicCalls : Nat
  deterministicInputs : Nat
  supportedFileIoCalls : Nat
  recordedFileInputs : Nat
  unsupportedIoObserved : Bool
  fieldReads : Bool
  arrayWrites : Bool
  monitorOrder : Bool
  volatileAccess : Bool
  eventCount : Nat
  valueHints : List LiveValueHint

namespace IngestState

def start : IngestState :=
  ⟨∅, ∅, ∅, ∅, [], ∅, ∅, false, false, false, ∅, 0, 0, 0, 0, false, false, false, false, false, 0, []⟩

def observeThread (raw : Json) (st : IngestState) : IngestState :=
  let id := threadIdOf raw
  let key := threadKeyOf raw
  { st with
    threads := st.threads.insert id
    threadKeys := if key = "" then st.threadKeys else st.threadKeys.insert id key
    threadIdentityConflict := st.threadIdentityConflict ||
      (key ≠ "" && (st.threadKeys.get? id).any fun previous => previous ≠ key)
    virtualThreadObserved := st.virtualThreadObserved || (raw.getBool "virtualThread").getD false
    coroutineObserved := st.coroutineObserved ||
      (raw.getStr "descriptor").any (containsText "kotlin/coroutines/Continuation") }

def observeHint (ctx : IngestContext) (raw : Json) (st : IngestState) : IngestState :=
  { st with
    valueHints :=
      if st.valueHints.length < maxLiveValueHints then
        st.valueHints ++
          (liveValueHint ctx.platform (publicEvent ctx st.eventCount raw) (publicTestId raw)).toList
      else st.valueHints }

def observeTest (ctx : IngestContext) (raw : Json) (st : IngestState) : IngestState :=
  let testId := publicTestId raw
  { st with
    modules := st.modules.insertIfNew testId (moduleOf raw)
    tests :=
      if kindName raw = "TEST_START" then st.tests.insertIfNew testId none
      else if kindName raw = "TEST_FINISH" then st.tests.insert testId (some (finishStatus raw))
      else st.tests
    failures :=
      if failedFinish raw then st.failures ++ [failureId ctx st.eventCount raw] else st.failures }

def observeLine (ctx : IngestContext) (raw : Json) (st : IngestState) : IngestState :=
  let testId := publicTestId raw
  let covered := (sourcePath (ctx.tree st.eventCount) raw).filter fun _ => kindName raw = "LINE"
  { st with
    coverage :=
      match covered with
      | none => st.coverage
      | some path => st.coverage.insert testId
          (((st.coverage.get? testId).getD ∅).insert ⟨path, lineNumber raw, symbolOf raw⟩)
    dependencies :=
      match covered with
      | none => st.dependencies
      | some path => st.dependencies.insert testId
          (((st.dependencies.get? testId).getD ∅).insert path) }

def observeBoundary (raw : Json) (st : IngestState) : IngestState :=
  let call : Bool := kindName raw = "CALL"
  let input : Bool := kindName raw = "INPUT"
  { st with
    nondeterministicCalls :=
      st.nondeterministicCalls + (call && nondeterministicBoundary raw).toNat
    supportedFileIoCalls := st.supportedFileIoCalls + (call && supportedFileIoBoundary raw).toNat
    unsupportedIoObserved := st.unsupportedIoObserved ||
      (call && !supportedFileIoBoundary raw && ioBoundary raw)
    recordedFileInputs := st.recordedFileInputs + (input && fileInput raw).toNat
    deterministicInputs := st.deterministicInputs + (input && !fileInput raw).toNat
    unavailable := if call then classifyBoundary raw st.unavailable else st.unavailable }

def observeMemory (raw : Json) (st : IngestState) : IngestState :=
  let kind := kindName raw
  { st with
    fieldReads := st.fieldReads || (kind = "READ" && valueStr "targetKind" raw = some "field")
    arrayWrites := st.arrayWrites || (kind = "WRITE" && valueStr "targetKind" raw = some "array")
    monitorOrder := st.monitorOrder || kind = "MONITOR"
    volatileAccess := st.volatileAccess || ((kind = "READ" || kind = "WRITE") && volatileFlag raw) }

def observeCapability (raw : Json) (st : IngestState) : IngestState :=
  { st with
    unavailable :=
      if kindName raw = "CAPABILITY" ∧ raw.getBool "available" = some false then
        st.unavailable.insert ((raw.getStr "capability").getD "unknown")
          ((raw.getStr "reason").getD "worker reported an unavailable capability")
      else st.unavailable }

/-- Everything one event adds to the accumulators. -/
def observe (ctx : IngestContext) (st : IngestState) (raw : Json) : IngestState :=
  let seen := observeCapability raw (observeMemory raw (observeBoundary raw
    (observeLine ctx raw (observeTest ctx raw (observeHint ctx raw (observeThread raw st))))))
  { seen with eventCount := st.eventCount + 1 }

def distinctThreadKeys (st : IngestState) : List String :=
  Store.distinctSorted (st.threadKeys.toList.map Prod.snd)

/-- Several threads with unique stable names. -/
def scheduledThreads (st : IngestState) : Bool :=
  st.threads.size > 1 && !st.threadIdentityConflict && st.threadKeys.size = st.threads.size &&
    st.distinctThreadKeys.length = st.threads.size &&
    st.distinctThreadKeys.all fun key => !endsWith ":<unnamed>" key

/-- Capabilities that stay unavailable after the inputs are matched with the calls. -/
def settledUnavailable (st : IngestState) : BTreeMap String String :=
  let threaded :=
    if st.threads.size > 1 ∧ !st.scheduledThreads then
      st.unavailable.insert "threads" (toString st.threads.size ++
        " JVM threads emitted events but lacked unique stable names")
    else st.unavailable
  let inputs :=
    if st.nondeterministicCalls > 0 ∧ st.deterministicInputs = st.nondeterministicCalls then
      threaded.erase "nondeterminism"
    else threaded
  if st.supportedFileIoCalls > 0 ∧ st.recordedFileInputs = st.supportedFileIoCalls ∧
      !st.unsupportedIoObserved then
    inputs.erase "io"
  else inputs

def supported (st : IngestState) : List String :=
  let given (condition : Bool) (names : List String) : List String := if condition then names else []
  ["line", "call", "write"] ++
    [if st.tests.size ≤ 1 then "singleTest" else "multipleTests"] ++
    given (st.threads.size ≤ 1) ["singleThread"] ++
    given st.scheduledThreads ["threads", "threadSchedule"] ++
    given (st.scheduledThreads && st.coroutineObserved) ["coroutineSchedule"] ++
    given st.virtualThreadObserved ["virtualThreads"] ++
    given st.settledUnavailable.isEmpty ["pureJvm"] ++
    given (st.deterministicInputs > 0 && st.deterministicInputs = st.nondeterministicCalls)
      ["deterministicInputs"] ++
    given (st.recordedFileInputs > 0 && st.recordedFileInputs = st.supportedFileIoCalls &&
      !st.unsupportedIoObserved) ["fileInputs"] ++
    given st.fieldReads ["fieldReads"] ++
    given st.arrayWrites ["arrayWrites"] ++
    given st.monitorOrder ["monitorOrder"] ++
    given st.volatileAccess ["volatileAccess"] ++
    given ((st.fieldReads || st.arrayWrites || st.monitorOrder || st.volatileAccess) &&
      st.scheduledThreads) ["memorySchedule"]

def manifest (st : IngestState) : CapabilityManifest where
  backend := "jvm"
  completeness := if st.settledUnavailable.isEmpty then .complete else .partial_
  supported := st.supported
  unavailable := st.settledUnavailable

def testStatuses (st : IngestState) : BTreeMap String String :=
  st.tests.filterMap fun _ status => status

end IngestState

structure Ingested where
  tests : List String
  testStatuses : BTreeMap String String
  failures : List String
  eventCount : Nat
  valueHints : List LiveValueHint
  capabilities : CapabilityManifest

/-- The evidence of a run without an event stream. -/
def Ingested.default : Ingested where
  tests := []
  testStatuses := ∅
  failures := []
  eventCount := 0
  valueHints := []
  capabilities :=
    ⟨"jvm", .partial_, [],
      (∅ : BTreeMap String String).insert "events" "worker emitted no event stream"⟩

def IngestState.ingested (st : IngestState) : Ingested where
  tests := st.tests.keys
  testStatuses := st.testStatuses
  failures := st.failures
  eventCount := st.eventCount
  valueHints := st.valueHints
  capabilities := st.manifest

/-- Stop when the cancellation check fires. -/
def checkCancellation (cancelled : Bool) : VerifyM Unit :=
  refuse (if cancelled then some .cancelled else none)

def checkEventCap (st : IngestState) : VerifyM Unit :=
  refuse (if maxEventsPerRun ≤ st.eventCount then
    some (.io "JVM event stream exceeded one million events") else none)

def saveFinish (ctx : IngestContext) (sequence : Nat) (raw : Json) : VerifyM Unit :=
  if failedFinish raw then writing fun s => s.saveFailure (failureRecord ctx sequence raw)
  else pure ()

def ingestLine (ctx : IngestContext) (index : Nat) (line : StreamLine) (st : IngestState) :
    VerifyM IngestState :=
  match line with
  | .unreadable message => throw (.io message)
  | .blank => do
    checkCancellation (ctx.cancelled index)
    pure st
  | .invalidJson => do
    checkCancellation (ctx.cancelled index)
    checkEventCap st
    throw .json
  | .event raw => do
    checkCancellation (ctx.cancelled index)
    checkEventCap st
    writing fun s => s.appendEvent ctx.runId (publicTestId raw)
      (eventBlob ctx.platform (publicEvent ctx st.eventCount raw))
    saveFinish ctx st.eventCount raw
    pure (st.observe ctx raw)

def ingestLines (ctx : IngestContext) : Nat → List StreamLine → IngestState → VerifyM IngestState
  | _, [], st => pure st
  | index, line :: rest, st => do
    let next ← ingestLine ctx index line st
    ingestLines ctx (index + 1) rest next

/-- Replace what the tables say about one observed test. -/
def recordTest (st : IngestState) (test : String × Option String) : VerifyM Unit := do
  writing fun s => .ok (s.upsertTest ⟨test.1, test.1, (st.modules.get? test.1).getD ":", test.2⟩)
  writing fun s => s.replaceCoverage test.1
    ((((st.coverage.get? test.1).getD ∅).toList).map fun point =>
      (point.path, point.line, point.symbol))
  writing fun s => s.replaceDependencies test.1
    ((((st.dependencies.get? test.1).getD ∅).toList).map fun path => (path, "method"))

def recordTests (st : IngestState) : List (String × Option String) → VerifyM Unit
  | [] => pure ()
  | test :: rest => do
    recordTest st test
    recordTests st rest

def ingestEvents (ctx : IngestContext) (file : EventFile) : VerifyM Ingested :=
  match file with
  | .missing => pure Ingested.default
  | .unreadable message => throw (.io message)
  | .lines stream => do
    let st ← ingestLines ctx 0 stream IngestState.start
    recordTests st st.tests.toList
    pure st.ingested

end Walaru
