import Walaru.Source.Core.JsonText
import Walaru.Source.Core.JsonWrite
import Walaru.Source.Core.Protocol

/-!
# The response envelope

The version 1 envelope of `protocol.rs` and its encoding. A structure is written with its
members in the order of its declaration; what first becomes a JSON value has them in
name order.
-/
namespace Walaru

def schemaVersion : String := "1"

/-- Response status independent of the process exit code. -/
inductive Status where
  | ok | failure | partial_ | stale | unsupported | error
  deriving DecidableEq, Repr

structure Diagnostic where
  code : String
  severity : String
  message : String
  details : BTreeMap String String
  deriving DecidableEq

/-- Follow-up action safe for direct process invocation. -/
structure NextAction where
  title : String
  argv : List String
  deriving DecidableEq, Repr

/-- Cursor pagination metadata. -/
structure Page where
  cursor : Option String
  nextCursor : Option String
  limit : Nat
  returned : Nat
  deriving DecidableEq, Repr

/-- Fixed envelope returned by every query and verification operation. -/
structure Envelope where
  schemaVersion : String
  workspaceId : String
  revision : String
  sessionId : String
  runId : Option String
  status : Status
  data : Json
  diagnostics : List Diagnostic
  capabilities : CapabilityManifest
  nextActions : List NextAction
  page : Option Page
  deriving DecidableEq

namespace Json

def ofOption {α : Type} (item : α → Json) (value : Option α) : Json := value.elim .null item

def ofNat (value : Nat) : Json := .number (.posInt value)

def ofInt (value : Int) : Json :=
  .number (if value < 0 then .negInt value else .posInt value.toNat)

def ofStrings (values : List String) : Json := .array (values.map .string)

def ofMap {β : Type} (item : β → Json) (values : BTreeMap String β) : Json :=
  .object (values.toList.map fun entry => (entry.1, item entry.2))

end Json

def Status.text : Status → String
  | .ok => "ok"
  | .failure => "failure"
  | .partial_ => "partial"
  | .stale => "stale"
  | .unsupported => "unsupported"
  | .error => "error"

def Completeness.text : Completeness → String
  | .complete => "complete"
  | .partial_ => "partial"
  | .unsupported => "unsupported"

def CapabilityManifest.json (m : CapabilityManifest) : Json :=
  .object [("backend", .string m.backend), ("completeness", .string m.completeness.text),
    ("supported", .ofStrings m.supported), ("unavailable", .ofMap .string m.unavailable)]

def Diagnostic.json (d : Diagnostic) : Json :=
  .object [("code", .string d.code), ("severity", .string d.severity),
    ("message", .string d.message), ("details", .ofMap .string d.details)]

def NextAction.json (a : NextAction) : Json :=
  .object [("title", .string a.title), ("argv", .ofStrings a.argv)]

def Page.json (p : Page) : Json :=
  .object [("cursor", .ofOption .string p.cursor), ("nextCursor", .ofOption .string p.nextCursor),
    ("limit", .ofNat p.limit), ("returned", .ofNat p.returned)]

def Envelope.json (e : Envelope) : Json :=
  .object [("schemaVersion", .string e.schemaVersion), ("workspaceId", .string e.workspaceId),
    ("revision", .string e.revision), ("sessionId", .string e.sessionId),
    ("runId", .ofOption .string e.runId), ("status", .string e.status.text), ("data", e.data),
    ("diagnostics", .array (e.diagnostics.map Diagnostic.json)),
    ("capabilities", e.capabilities.json),
    ("nextActions", .array (e.nextActions.map NextAction.json)), ("page", .ofOption Page.json e.page)]

/-- The encoded envelope. -/
def Envelope.encode (floats : FloatWriter) (e : Envelope) : String := e.json.write floats

def Envelope.bytes (floats : FloatWriter) (e : Envelope) : Nat := (e.encode floats).utf8ByteSize

namespace Json
variable (floats : FloatWriter)

def textListBytes (values : List String) : Nat := 2 + separatedBytes (values.map quotedBytes)

/-- The decimal digits of a number. -/
def decimalBytes (n : Nat) : Nat := (toString n).utf8ByteSize

def textMapBytes (values : BTreeMap String String) : Nat :=
  2 + separatedBytes (values.toList.map fun entry => quotedBytes entry.1 + 1 + quotedBytes entry.2)

theorem byteSize_ofNat (n : Nat) : byteSize floats (.ofNat n) = decimalBytes n := rfl

theorem byteSize_ofStrings (values : List String) :
    byteSize floats (.ofStrings values) = textListBytes values := by
  rw [ofStrings, byteSize_array, List.map_map, textListBytes]
  congr 2
  exact List.map_congr_left fun value _ => byteSize_string floats value

theorem byteSize_ofMap (values : BTreeMap String String) :
    byteSize floats (.ofMap .string values) = textMapBytes values := by
  rw [ofMap, byteSize_object, List.map_map, textMapBytes]
  congr 2
  exact List.map_congr_left fun entry _ => by
    rw [Function.comp_apply, memberBytes, byteSize_string]

theorem byteSize_ofOption (value : Option String) :
    byteSize floats (.ofOption .string value) = value.elim 4 quotedBytes := by
  cases value with
  | none => rfl
  | some value => exact byteSize_string floats value

end Json

end Walaru
