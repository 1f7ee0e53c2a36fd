import Walaru.Lib.Utf16
import Walaru.Lib.Utf8
import Walaru.Source.Core.Json
import Walaru.Source.Gradle.AssertionMismatch

/-!
# The report of a Gradle build

`WalaruReportTask.kt`: the event files are read in the order of their paths, line by line up to
a number of events, and every test name gets one entry, which each of its events changes. The
files are those of the task, without the failures of reading them; the page is its heading and
its cards, without its style and its indentation.
-/
namespace Walaru.Gradle
open Lib Lib.Text

def maxEventBytes : Nat := 1024 * 1024
def maxEvents : Nat := 1000000
def maxRelevant : Nat := 64
def maxRenderedValue : Nat := 512

/-- What the task is given by Groovy and by the file system: the JSON parser, which fails with
`none`, the JSON writer, `toString`, `toInt` and the source path of an event. -/
structure Environment where
  parseText : String → Option Json
  toJson : Json → String
  toText : Json → String
  toInt : Number → Int
  sourcePath : Json → Option String

/-- Kotlin's `take`; a surrogate pair that it cuts is a replacement character. -/
def takeUnits (n : Nat) (s : String) : String := String.ofList (Utf16.decode ((Utf16.encode s).take n))

def substringAfterLast (c : Char) (s : String) : String := (splitChar c s).getLast?.getD s

def ifBlank (s fallback : String) : String := if isBlank s.toList then fallback else s

structure Relevant where
  kind : String
  label : String
  value : String
  path : Option String
  line : Option Int
  deriving DecidableEq, Repr

structure TestEvidence where
  name : String
  status : String
  failureType : String
  message : String
  frames : List String
  relevant : List Relevant
  deriving DecidableEq, Repr

def TestEvidence.new (name : String) : TestEvidence := ⟨name, "unknown", "", "", [], []⟩

def finishStatus (event : Json) : String :=
  match event.getStr "status" with
  | some "successful" => "passed"
  | some "aborted" => "skipped"
  | none => "unknown"
  | some status => status

def frameText (env : Environment) : Json → String
  | .null => ""
  | .string frame => frame
  | frame => env.toText frame

def relevantKinds : List String := ["CAPTURE", "CHECKPOINT", "NOTE", "SPAN_VALUE", "SPAN_END", "WRITE"]

def relevantLabel (type name : String) : String :=
  match type with
  | "CAPTURE" => "Captured `" ++ ifBlank name "value" ++ "`"
  | "CHECKPOINT" => "Checkpoint `" ++ ifBlank name "unnamed" ++ "`"
  | "NOTE" => "Note `" ++ ifBlank name "unnamed" ++ "`"
  | "SPAN_VALUE" => "Span value `" ++ ifBlank name "value" ++ "`"
  | "SPAN_END" => "Span `" ++ ifBlank name "unnamed" ++ "` ended"
  | _ => "Observed write"

def relevantOf (env : Environment) (event : Json) (type : String) : Relevant :=
  let values := .object (((event.get "values").bind Json.asObject).getD [])
  let value :=
    match type with
    | "NOTE" => (Json.get "message" values).getD .null
    | "WRITE" => values
    | _ =>
      match Json.get "value" values with
      | none | some .null => values
      | some value => value
  { kind := type
    label := relevantLabel type ((Json.getStr "name" values).getD "")
    value := takeUnits maxRenderedValue (env.toJson value)
    path := env.sourcePath event
    line := match event.get "line" with
      | some (.number line) => some (env.toInt line)
      | _ => none }

def TestEvidence.observe (env : Environment) (event : Json) (test : TestEvidence) : TestEvidence :=
  match event.getStr "type" with
  | none => test
  | some type =>
    if type = "TEST_FINISH" then
      { test with
        status := finishStatus event
        failureType := (event.getStr "failureType").getD ""
        message := (event.getStr "message").getD ""
        frames := test.frames ++
          ((((event.get "frames").bind Json.asArray).getD []).take 16).map (frameText env) }
    else if type ∈ relevantKinds then
      let relevant := test.relevant ++ [relevantOf env event type]
      { test with relevant := if maxRelevant < relevant.length then relevant.drop 1 else relevant }
    else test

/-- `getOrPut` and the change of the entry, in a map that keeps the order of insertion. -/
def observeTest (name : String) (observe : TestEvidence → TestEvidence) : List TestEvidence → List TestEvidence
  | [] => [observe (.new name)]
  | test :: rest => if test.name = name then observe test :: rest else test :: observeTest name observe rest

structure ReportState where
  tests : List TestEvidence
  eventCount : Nat

/-- The consumer of a line; it asks to go on, and fails where the parser does. -/
def consume (env : Environment) (state : ReportState) (line : List UInt8) : Option (ReportState × Bool) :=
  let line := Utf8.decodeLossy line
  if isBlank line.toList then some (state, true)
  else
    match env.parseText line with
    | none => none
    | some (.object fields) =>
      let event := Json.object fields
      let testName := (event.getStr "testName").getD ""
      if isBlank testName.toList then some (state, true)
      else
        let eventCount := state.eventCount + 1
        some (⟨observeTest testName (TestEvidence.observe env event) state.tests, eventCount⟩,
          decide (eventCount < maxEvents))
    | some _ => some (state, true)

/-- The lines of a source, until the consumer has enough; a line that is too long is a failure. -/
def boundedLines (consume : ReportState → List UInt8 → Option (ReportState × Bool)) :
    List UInt8 → List UInt8 → ReportState → Option ReportState
  | line, [], state => if line = [] then some state else (consume state line).map Prod.fst
  | line, byte :: rest, state =>
    if byte = 10 then
      match consume state line with
      | none => none
      | some (state, false) => some state
      | some (state, true) => boundedLines consume [] rest state
    else if line.length < maxEventBytes then boundedLines consume (line ++ [byte]) rest state
    else none

/-- A path of `eventFiles`; only a regular file has a content. -/
structure EventFile where
  path : String
  content : Option (List UInt8)
  deriving DecidableEq

def sortedFiles (files : List EventFile) : List EventFile :=
  files.mergeSort fun a b => decide (a.path ≤ b.path)

def readFiles (env : Environment) : List EventFile → ReportState → Option ReportState
  | [], state => some state
  | source :: rest, state =>
    match source.content with
    | none => readFiles env rest state
    | some bytes =>
      if maxEvents ≤ state.eventCount then readFiles env rest state
      else
        match boundedLines (consume env) [] bytes state with
        | none => none
        | some state => readFiles env rest state

structure Analysis where
  summary : String
  likelyCause : String
  focus : Option (String × Int)
  suggestions : List String
  deriving DecidableEq, Repr

def Relevant.place (item : Relevant) : Option (String × Int) :=
  item.path.bind fun path => item.line.map fun line => (path, line)

def TestEvidence.focus (test : TestEvidence) : Option (String × Int) :=
  test.relevant.reverse.findSome? Relevant.place

def TestEvidence.analysis (test : TestEvidence) : Analysis :=
  let mismatch := (assertionMismatch test.message.toList).map fun parts =>
    (String.ofList parts.1, String.ofList parts.2)
  let recent := test.relevant.reverse
  let explicit := (recent.find? fun item => item.kind ≠ "SPAN_END" ∧ item.value ≠ "\"<redacted>\"").or
    recent.head?
  let actionableFocus := (explicit.bind Relevant.place).or test.focus
  let likely := explicit.map fun item =>
    item.label ++ " with value " ++ takeUnits maxRenderedValue item.value ++
      " immediately preceded the failure."
  match mismatch with
  | some (expected, observed) =>
    ⟨"Assertion failed: expected " ++ expected ++ ", observed " ++ observed ++ ".",
      likely.getD ("The assertion compared different values (" ++ expected ++ " versus " ++ observed ++ ")."),
      actionableFocus,
      ["Inspect the focused line and the latest named captures before the assertion.",
        "Run `walaru explain` when a full ordered recording is needed."]⟩
  | none =>
    if containsText "NullPointerException" test.failureType then
      ⟨"A null value was dereferenced.",
        likely.getD "A value required by the failing code was null.",
        actionableFocus,
        ["Inspect the latest capture feeding the focused line.",
          "Add `Walaru.capture` at the nullable boundary if the producer is absent."]⟩
    else if containsText "IndexOutOfBounds" test.failureType then
      ⟨"A collection or array index was outside its valid range.",
        likely.getD (takeUnits 256 test.message),
        actionableFocus,
        ["Compare the captured index with the collection length at the focused line.",
          "Add a checkpoint at the loop or partition boundary when those values are absent."]⟩
    else
      ⟨substringAfterLast '.' test.failureType ++ ": " ++ takeUnits 256 test.message,
        likely.getD (takeUnits 256 test.message),
        actionableFocus,
        ["Inspect the focused source line and recent trace evidence.",
          "Run `walaru explain` for an ordered full recording of this failure."]⟩

def failedTests (tests : List TestEvidence) : List TestEvidence := tests.filter fun test => test.status = "failed"

def markdownFailure (test : TestEvidence) : List String :=
  let analysis := test.analysis
  ["", "## " ++ test.name, "", "`" ++ test.failureType ++ "`: " ++ test.message, "",
      "### Why this probably failed", "", analysis.summary, "", "Likely cause: " ++ analysis.likelyCause] ++
    (analysis.focus.elim [] fun place => ["", "Focus: `" ++ place.1 ++ ":" ++ toString place.2 ++ "`"]) ++
    (if test.relevant = [] then []
      else ["", "Relevant state:"] ++ (test.relevant.reverse.take 8).map fun item =>
        "- " ++ item.label ++ ": `" ++ item.value ++ "`") ++
    ["", "Next steps:"] ++ analysis.suggestions.map fun suggestion => "- " ++ suggestion

def markdown (tests : List TestEvidence) (events : Nat) : List String :=
  let failed := failedTests tests
  ["# Walaru test report", "",
      toString tests.length ++ " tests · " ++ toString failed.length ++ " failed · " ++ toString events ++ " events"] ++
    (if failed = [] then ["", "All observed tests passed."] else []) ++
    failed.flatMap markdownFailure

def escapeChar : Char → List Char
  | '&' => "&amp;".toList
  | '<' => "&lt;".toList
  | '>' => "&gt;".toList
  | '"' => "&quot;".toList
  | '\'' => "&#39;".toList
  | c => [c]

def escape (value : String) : String := String.ofList (value.toList.flatMap escapeChar)

def htmlFailure (test : TestEvidence) : List String :=
  let analysis := test.analysis
  let focus := analysis.focus.elim "" fun place =>
    "<p><b>Focus</b> " ++ escape place.1 ++ ":" ++ toString place.2 ++ "</p>"
  let evidence := String.join ((test.relevant.reverse.take 8).map fun item =>
    "<li><b>" ++ escape item.label ++ "</b><code>" ++ escape item.value ++ "</code></li>")
  let suggestions := String.join (analysis.suggestions.map fun suggestion =>
    "<li>" ++ escape suggestion ++ "</li>")
  ["<section class=failure>",
    "<h2>" ++ escape test.name ++ "</h2>",
    "<p><b>" ++ escape test.failureType ++ "</b>: " ++ escape test.message ++ "</p>",
    "<h3>Why this probably failed</h3>",
    "<p>" ++ escape analysis.summary ++ "</p>",
    "<p><b>Likely cause</b> " ++ escape analysis.likelyCause ++ "</p>",
    focus,
    "<h3>Relevant state</h3><ul>" ++ evidence ++ "</ul>",
    "<h3>Next steps</h3><ol>" ++ suggestions ++ "</ol>",
    "</section>"]

structure Page where
  heading : String
  cards : List String
  deriving DecidableEq, Repr

def html (tests : List TestEvidence) (events : Nat) : Page :=
  let failed := failedTests tests
  { heading := "<h1>Walaru test report</h1><p>" ++ toString tests.length ++ " tests · " ++
      toString failed.length ++ " failed · " ++ toString events ++ " events</p>"
    cards :=
      if failed = [] then ["<section class=pass><h2>All observed tests passed</h2></section>"]
      else failed.flatMap htmlFailure }

def jsonPlace (place : Option (String × Int)) : Json :=
  place.elim .null fun place => .object [("path", .string place.1), ("line", jsonInt place.2)]
where
  jsonInt (n : Int) : Json := .number (if 0 ≤ n then .posInt n.toNat else .negInt n)

def jsonCount (n : Nat) : Json := .number (.posInt n)

def TestEvidence.asMap (test : TestEvidence) : Json :=
  let analysis := test.analysis
  .object [("id", .string test.name), ("status", .string test.status),
    ("failureType", .string test.failureType), ("message", .string test.message),
    ("focus", jsonPlace analysis.focus),
    ("analysis", .object [("summary", .string analysis.summary),
      ("likelyCause", .string analysis.likelyCause), ("focus", jsonPlace analysis.focus),
      ("suggestions", .array (analysis.suggestions.map .string))]),
    ("evidence", .array ((test.relevant.reverse.take 8).map fun item =>
      .object [("kind", .string item.kind.toLower), ("label", .string item.label),
        ("value", .string item.value), ("path", item.path.elim .null .string),
        ("line", item.line.elim .null jsonPlace.jsonInt)])),
    ("frames", .array (test.frames.map .string))]

def payload (tests : List TestEvidence) (events : Nat) : Json :=
  .object [("schemaVersion", .string "1"),
    ("summary", .object [("tests", jsonCount tests.length),
      ("passed", jsonCount (tests.countP fun test => test.status = "passed")),
      ("failed", jsonCount (failedTests tests).length),
      ("skipped", jsonCount (tests.countP fun test => test.status = "skipped")),
      ("events", jsonCount events)]),
    ("tests", .array (tests.map TestEvidence.asMap))]

structure Report where
  json : Json
  markdown : List String
  html : Page

/-- The task: no report where a line is too long or is refused by the parser. -/
def generate (env : Environment) (eventFiles : List EventFile) : Option Report :=
  (readFiles env (sortedFiles eventFiles) ⟨[], 0⟩).map fun state =>
    ⟨payload state.tests state.eventCount, markdown state.tests state.eventCount,
      html state.tests state.eventCount⟩

end Walaru.Gradle
