import Walaru.Source.Core.Replay

/-!
# Reading one worker event

The functions of `verifier.rs` that turn one JSON line of a JVM worker into
public data: the test it belongs to, its location, its values after redaction,
the live hint shown to an editor, and the boundary it reports. Paths follow the
Unix conventions of `std::path`. The digest and the JSON serializer are not part
of the repository; they are fields of `Platform`.
-/
namespace Walaru
open Lib.Text

def maxEventLineBytes : Nat := 1024 * 1024

def maxEventsPerRun : Nat := 1000000

def maxLiveValueHints : Nat := 256

def maxLiveValueBytes : Nat := 4 * 1024

/-- Libraries outside the repository: SHA-256 and the encoded sizes of payloads. -/
structure Platform where
  sha256 : List UInt8 → List UInt8
  jsonLength : Json → Nat
  eventSizes : Event → Nat × Nat
  recordingSizes : Recording → Nat × Nat

/-- Hexadecimal text of the first twelve digest bytes. -/
def shortDigest (platform : Platform) (bytes : List UInt8) : String :=
  hexEncode ((platform.sha256 bytes).take 12)

def shortHash (platform : Platform) (value : String) : String :=
  shortDigest platform (utf8 value)

/-- Canonical fields that make an event unique inside a revision. -/
structure EventIdentity where
  revision : String
  runId : String
  testId : String
  sequence : Nat
  threadId : Nat

/-- The hashed bytes: each part ends with a NUL. -/
def EventIdentity.canonical (identity : EventIdentity) : List UInt8 :=
  ["event-v1", identity.revision, identity.runId, identity.testId, toString identity.sequence,
    toString identity.threadId].flatMap fun part => utf8 part ++ [0]

def EventIdentity.eventId (platform : Platform) (identity : EventIdentity) : String :=
  "evt-" ++ shortDigest platform identity.canonical

/-- The text between the first `open` and the `]` after it. -/
def bracketed (opening unique : String) : Option String :=
  ((splitText opening unique)[1]?).map fun part => beforeChar ']' part

def publicTestId (raw : Json) : String :=
  let fallback :=
    let unique := (raw.getStr "testId").getD "unknown-test"
    match bracketed "[class:" unique, bracketed "[method:" unique with
    | some className, some method => className ++ "#" ++ beforeChar '(' method
    | _, _ => (raw.getStr "testName").getD unique
  match raw.getStr "testName" with
  | some name => if containsChar '#' name then name else fallback
  | none => fallback

/-- `as_u64` narrowed to `u32`. -/
def asU32 (value : Json) : Option Nat := value.asU64.filter (· < 2 ^ 32)

def logicalFrame (raw : Json) : Option LogicalFrame := do
  let className ← raw.getStr "className"
  let method ← raw.getStr "method"
  let path ← raw.getStr "path"
  let line ← (raw.get "line").bind asU32
  pure ⟨className, method, replaceChar '\\' '/' path, max line 1⟩

def eventKind : String → EventKind
  | "TEST_START" => .testStart
  | "TEST_FINISH" => .testFinish
  | "LINE" => .line
  | "WRITE" => .write
  | "READ" => .read
  | "MONITOR" => .monitor
  | "INPUT" => .input
  | "CHECKPOINT" => .checkpoint
  | "CAPTURE" => .capture
  | "NOTE" => .note
  | "SPAN_START" => .spanStart
  | "SPAN_VALUE" => .spanValue
  | "SPAN_END" => .spanEnd
  | "CALL" | "METHOD_ENTER" | "METHOD_EXIT" => .call
  | _ => .output

/-- `str::parse::<usize>`. -/
def parseUsize (s : String) : Option Nat :=
  let digits := match s.toList with
    | '+' :: rest => rest
    | all => all
  if digits = [] ∨ !digits.all Char.isDigit then none
  else (some (digits.foldl (fun n c => 10 * n + (c.toNat - 48)) 0)).filter (· ≤ 2 ^ 64 - 1)

def stripPrefix (pre s : String) : Option String :=
  if startsWith pre s then some (String.ofList (s.toList.drop pre.toList.length)) else none

def stripSuffix (suffix s : String) : Option String :=
  if endsWith suffix s then
    some (String.ofList (s.toList.take (s.toList.length - suffix.toList.length)))
  else none

def sensitivePlaceholder (values : List (String × Json)) : Option String := do
  let object := Json.object values
  if (object.getBool "sensitive").getD false then
    let value ← object.getStr "value"
    let counted ← (stripPrefix "<redacted:file-input " value).bind (stripSuffix " bytes>")
    let bytes ← parseUsize counted
    if bytes > maxEventLineBytes then none
    else pure ("<redacted:file-input " ++ toString bytes ++ " bytes>")
  else none

/-- Values as the store and every client may see them. -/
def publicEventValues (raw : Option Json) : Json :=
  match raw.getD Json.emptyObject with
  | .object fields =>
    let redacted := ((Json.object fields).getBool "redacted").getD false
    let sensitive := ((Json.object fields).getBool "sensitive").getD false
    if redacted || sensitive then
      .object (Json.removeField "encoded"
        (Json.insertField "value"
          (.string ((sensitivePlaceholder fields).getD "<redacted>")) fields))
    else .object fields
  | other => other

/-- Components of a path: empty and inner `.` segments do not count. -/
def canonicalRelativeSourcePath (value : String) : Bool :=
  let segments := splitChar '/' value
  value ≠ "" && !containsChar '\\' value && !startsWith "/" value &&
    segments.head? ≠ some "." && !segments.contains ".."

/-- Bounded, source-linked runtime value for live editor presentation. -/
structure LiveValueHint where
  testId : String
  eventId : String
  path : String
  line : Nat
  label : String
  value : Json
  deriving DecidableEq, Repr

/-- The fallback label and the shown value of an event kind that carries one. -/
def hintValue (event : Event) (fields : List (String × Json)) : Option (String × Json) :=
  match event.kind with
  | .capture | .spanValue => ((Json.object fields).get "value").map fun value => ("value", value)
  | .checkpoint =>
    some ("checkpoint", ((Json.object fields).get "value").getD (.string "reached"))
  | .note => ((Json.object fields).get "message").map fun value => ("note", value)
  | .line => if fields = [] then none else some ("values", event.values)
  | _ => none

def liveValueHint (platform : Platform) (event : Event) (testId : String) :
    Option LiveValueHint := do
  let location ← event.location
  if !canonicalRelativeSourcePath location.path then none
  else
    let fields ← event.values.asObject
    let (fallbackLabel, value) ← hintValue event fields
    let name := ((Json.object fields).getStr "name").getD fallbackLabel
    let label := String.ofList ((name.toList.filter fun c => !isControl c).take 80)
    let shown :=
      if platform.jsonLength value > maxLiveValueBytes then
        Json.string ("<value exceeds " ++ toString maxLiveValueBytes ++
          "-byte live display limit; query event>")
      else value
    pure ⟨testId, event.id, location.path, location.line,
      if label = "" then fallbackLabel else label, shown⟩

/-- The files of an execution root as the path resolver sees them. -/
structure SourceTree where
  isFile : String → Bool
  /-- Workspace-relative files below `src`. -/
  sourceFiles : List String

/-- `Path::file_name`. -/
def fileName (path : String) : Option String :=
  (((splitChar '/' path).filter fun segment => segment ≠ "" && segment ≠ ".").getLast?).filter
    fun segment => segment ≠ ".."

def collectNamedFiles (tree : SourceTree) (name : Option String) : List String :=
  tree.sourceFiles.filter fun path => name.isSome && fileName path = name

def resolveSourcePath (tree : SourceTree) (raw : String) : String :=
  let normalized := replaceChar '\\' '/' raw
  if tree.isFile normalized then normalized
  else
    match collectNamedFiles tree (fileName normalized) with
    | [only] => replaceChar '\\' '/' only
    | _ => normalized

def targetOwner (raw : Json) : String := (raw.getStr "targetOwner").getD ""

def targetMethod (raw : Json) : String := (raw.getStr "targetMethod").getD ""

def ioOwner (owner : String) : Bool :=
  startsWith "java/io/" owner || startsWith "java/nio/file/" owner || startsWith "java/net/" owner

def ioBoundary (raw : Json) : Bool := (raw.getStr "targetOwner").any ioOwner

def supportedFileIoBoundary (raw : Json) : Bool :=
  raw.getStr "targetOwner" = some "java/nio/file/Files" &&
    (raw.getStr "targetMethod").any fun method => method = "readAllBytes" || method = "readString"

def nondeterministicBoundary (raw : Json) : Bool :=
  let owner := targetOwner raw
  let method := targetMethod raw
  (owner = "java/lang/System" && (method = "currentTimeMillis" || method = "nanoTime")) ||
    (startsWith "java/time/" owner && method = "now") ||
    ((startsWith "java/util/Random" owner || owner = "java/util/SplittableRandom" ||
        startsWith "java/util/random/" owner ||
        owner = "java/util/concurrent/ThreadLocalRandom" ||
        owner = "java/security/SecureRandom") &&
      (startsWith "next" method || method = "generateSeed")) ||
    (owner = "java/util/UUID" && method = "randomUUID") ||
    (owner = "java/lang/Math" && method = "random")

/-- One rule of `classify_boundary`: a capability, when it applies, and the reason. -/
structure BoundaryRule where
  capability : String
  applies : Json → Bool
  reason : Json → String

/-- The rules in source order. -/
def boundaryRules : List BoundaryRule :=
  let target (raw : Json) : String := targetOwner raw ++ "#" ++ targetMethod raw
  [⟨"io", fun raw => ioOwner (targetOwner raw),
      fun raw => "external boundary " ++ target raw ++ " observed"⟩,
    ⟨"subprocess",
      fun raw => targetOwner raw = "java/lang/ProcessBuilder" ||
        (targetOwner raw = "java/lang/Runtime" && targetMethod raw = "exec"),
      fun raw => "subprocess boundary " ++ target raw ++ " observed"⟩,
    ⟨"environment",
      fun raw => targetOwner raw = "java/lang/System" && targetMethod raw = "getenv",
      fun _ => "environment variables are redacted and not recorded for replay"⟩,
    ⟨"systemProperties",
      fun raw => targetOwner raw = "java/lang/System" && targetMethod raw = "getProperty",
      fun _ => "system property reads are redacted and not recorded for replay"⟩,
    ⟨"nondeterminism", nondeterministicBoundary,
      fun raw => "unrecorded nondeterministic input " ++ target raw⟩,
    ⟨"native",
      fun raw => (targetOwner raw = "java/lang/System" || targetOwner raw = "java/lang/Runtime") &&
        (targetMethod raw = "load" || targetMethod raw = "loadLibrary"),
      fun raw => "native library boundary " ++ target raw ++ " observed"⟩]

def classifyBoundary (raw : Json) (unavailable : BTreeMap String String) : BTreeMap String String :=
  boundaryRules.foldl (fun found rule =>
    if rule.applies raw then found.insert rule.capability (rule.reason raw) else found) unavailable

end Walaru
