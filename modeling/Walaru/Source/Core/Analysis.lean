import Walaru.Lib.Utf8Slices
import Walaru.Source.Core.JsonWrite
import Walaru.Source.Core.SourceSurface
import Walaru.Source.Core.Store

/-!
# Failure analysis

`analysis.rs`: the explanation of a failure from its message and its events. Messages are
searched byte by byte and cut at byte positions; a cut inside a character is a panic.
-/
namespace Walaru
open Lib.Text Lib.Utf8Slices

structure FailureEvidence where
  kind : String
  label : String
  eventId : Option String
  location : Option SourceLocation
  value : Json
  deriving DecidableEq, Repr

structure FailureAnalysis where
  summary : String
  likelyCause : String
  focus : Option SourceLocation
  evidence : List FailureEvidence
  suggestions : List String
  deriving DecidableEq, Repr

def asciiWordByte (byte : UInt8) : Bool :=
  (48 ≤ byte.toNat && byte.toNat ≤ 57) || (65 ≤ byte.toNat && byte.toNat ≤ 90) ||
    (97 ≤ byte.toNat && byte.toNat ≤ 122) || byte.toNat = 95

def asciiLowercase (byte : UInt8) : UInt8 :=
  if 65 ≤ byte.toNat && byte.toNat ≤ 90 then byte + 32 else byte

def eqIgnoreAsciiCase (a b : List UInt8) : Bool := a.map asciiLowercase = b.map asciiLowercase

/-- The needle stands at this position, with no word byte at either side. -/
def asciiWordAt (haystack needle : List UInt8) (position : Nat) : Bool :=
  !(0 < position && (haystack[position - 1]?).any asciiWordByte) &&
    !(haystack[position + needle.length]?).any asciiWordByte &&
    eqIgnoreAsciiCase ((haystack.drop position).take needle.length) needle

def findAsciiWordCaseInsensitive (haystack : List Char) (needle : String) (start : Nat) : Option Nat :=
  let bytes := encode haystack
  let needle := encode needle.toList
  if needle = [] then if start ≤ bytes.length then some start else none
  else (List.range' start (bytes.length + 1 - needle.length - start)).find? (asciiWordAt bytes needle)

def trimmedCharacter (c : Char) : Bool :=
  whiteSpace c || c ∈ [':', '=', '<', '[', '(', '.', '>', ']', ')']

def trimAssertionValue (value : List Char) : List Char :=
  (value.dropWhile trimmedCharacter).rdropWhile trimmedCharacter

/-- `min_by_key` over the two markers, which takes the first one of equal positions. -/
def nearest (first second : Option Nat) : Option (Nat × String) :=
  match first, second with
  | none, none => none
  | some first, none => some (first, "but was")
  | none, some second => some (second, "but found")
  | some first, some second =>
    if second < first then some (second, "but found") else some (first, "but was")

/-- The parts of an assertion message; an outer `none` is a panic. -/
def assertionMismatch (message : List Char) : Option (Option (List Char × List Char)) :=
  match findAsciiWordCaseInsensitive message "expected" 0 with
  | none => some none
  | some found =>
    let expectedStart := found + 8
    match nearest (findAsciiWordCaseInsensitive message "but was" expectedStart)
        (findAsciiWordCaseInsensitive message "but found" expectedStart) with
    | none => some none
    | some (separator, marker) => do
      let expected ← slice message expectedStart separator
      let (_, actual) ← splitBytes (separator + marker.toList.length) message
      let expected := trimAssertionValue expected
      let actual := trimAssertionValue actual
      return if expected ≠ [] ∧ actual ≠ [] then some (expected, actual) else none

/-- `Value::as_i64`. -/
def Json.asI64 : Json → Option Int
  | .number (.posInt value) => if value < 2 ^ 63 then some value else none
  | .number (.negInt value) => some value
  | _ => none

def valueOrNull (key : String) (values : Json) : Json := (values.get key).getD .null

def evidenceFromEvent (event : Event) : Option (String × String × Json) :=
  let name := event.values.getStr "name"
  match event.kind with
  | .capture =>
    some ("capture", "Captured `" ++ name.getD "value" ++ "`", valueOrNull "value" event.values)
  | .checkpoint =>
    some ("checkpoint", "Reached checkpoint `" ++ name.getD "unnamed" ++ "`",
      valueOrNull "value" event.values)
  | .note => some ("note", "Note `" ++ name.getD "unnamed" ++ "`", valueOrNull "message" event.values)
  | .spanValue =>
    some ("spanValue", "Span captured `" ++ name.getD "value" ++ "`", valueOrNull "value" event.values)
  | .spanEnd =>
    if event.values.getStr "status" = some "failed" then
      some ("failedSpan", "Span `" ++ name.getD "unnamed" ++ "` failed", event.values)
    else none
  | .write =>
    let target :=
      match event.values.getStr "field", (event.values.get "index").bind Json.asI64 with
      | some field, _ => "field `" ++ field ++ "`"
      | none, some index => "array index " ++ toString index
      | none, none => "state"
    some ("write", "Last observed write to " ++ target, event.values)
  | _ => none

def evidenceOf (event : Event) : Option FailureEvidence :=
  (evidenceFromEvent event).map fun (kind, label, value) =>
    ⟨kind, label, some event.id, event.location, value⟩

/-- The loop over the events, the newest first. -/
def gather (evidence : List FailureEvidence) : List Event → List FailureEvidence
  | [] => evidence
  | event :: rest =>
    if 7 ≤ evidence.length then evidence
    else
      match evidenceOf event with
      | none => gather evidence rest
      | some item => gather (evidence ++ [item]) rest

def mismatchEvidence (failure : FailureRecord) (parts : List Char × List Char) : FailureEvidence where
  kind := "assertionMismatch"
  label := "Expected and observed values differ"
  eventId := failure.eventId
  location := none
  value := .object [("actual", .string (String.ofList parts.2)),
    ("expected", .string (String.ofList parts.1))]

def actionable (item : FailureEvidence) : Bool :=
  !item.value.asStr.any (startsWith "<redacted")

def clipped (value : String) (maximum : Nat) : String :=
  if value.toList.length ≤ maximum then value
  else String.ofList (value.toList.take maximum) ++ "…"

def simpleType (value : String) : String := (splitChar '.' value).getLast?.getD value

section Explanation
variable (floats : FloatWriter)

/-- The likely cause that an item of the evidence gives. -/
def explicitCause (item : FailureEvidence) : String :=
  let value := clipped (item.value.write floats) 160
  if value = "null" then item.label ++ " immediately preceded the failure."
  else item.label ++ " with value " ++ value ++ " immediately preceded the failure."

def explicitOr (evidence : List FailureEvidence) (fallback : String) : String :=
  match evidence.find? fun item =>
      actionable item &&
        (["capture", "checkpoint", "spanValue", "failedSpan", "write"].contains item.kind) with
  | none => fallback
  | some item => explicitCause floats item

/-- The cause when no item of the evidence gives one. -/
def fallbackCause (failure : FailureRecord) (mismatch : Option (List Char × List Char)) : String :=
  match mismatch with
  | some (expected, actual) =>
    "The assertion compared different values (" ++ String.ofList expected ++ " versus " ++
      String.ofList actual ++ ")."
  | none =>
    if containsText "NullPointerException" failure.exceptionType then
      "A value required by the failing code was null."
    else clipped failure.message 256

def summaryOf (failure : FailureRecord) (mismatch : Option (List Char × List Char)) : String :=
  match mismatch with
  | some (expected, actual) =>
    "Assertion failed: expected " ++ clipped (String.ofList expected) 96 ++ ", observed " ++
      clipped (String.ofList actual) 96 ++ "."
  | none =>
    if containsText "NullPointerException" failure.exceptionType then "A null value was dereferenced."
    else if containsText "IndexOutOfBounds" failure.exceptionType then
      "A collection or array index was outside its valid range."
    else simpleType failure.exceptionType ++ ": " ++ clipped failure.message 256

def suggestionsFor (failure : FailureRecord) (mismatch : Option (List Char × List Char)) : List String :=
  match mismatch with
  | some _ =>
    ["Inspect the focused source line and the latest named captures before the assertion.",
      "Record this test in full when the fast trace does not include the state transition."]
  | none =>
    if containsText "NullPointerException" failure.exceptionType then
      ["Inspect the latest capture or write feeding the focused line.",
        "Add Walaru.capture at the nullable boundary if the producer is not visible."]
    else if containsText "IndexOutOfBounds" failure.exceptionType then
      ["Compare the captured index with the collection length at the focused line.",
        "Add a checkpoint at the loop or partition boundary when those values are absent."]
    else
      ["Inspect the focused source line and recent trace evidence.",
        "Record this test in full for ordered reads, writes, and safely captured values."]

/-- `none` is a panic. -/
def analyzeFailure (failure : FailureRecord) (events : List Event) : Option FailureAnalysis := do
  let mismatch ← assertionMismatch failure.message.toList
  let evidence := gather (mismatch.map (mismatchEvidence failure)).toList events.reverse
  return {
    summary := summaryOf failure mismatch
    likelyCause := explicitOr floats evidence (fallbackCause failure mismatch)
    focus := (((evidence.filter actionable).findSome? FailureEvidence.location).or
      (evidence.findSome? FailureEvidence.location)).or (events.reverse.findSome? Event.location)
    evidence := evidence
    suggestions := suggestionsFor failure mismatch }

end Explanation
end Walaru
