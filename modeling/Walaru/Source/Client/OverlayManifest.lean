import Walaru.Lib.TextParts
import Walaru.Source.Daemon.OverlayAcceptance

/-!
# The manifest that the editor client writes

`live.js`: the client's check of a document path, and the manifest of the unsaved
documents that it hands to the daemon, which reads it with `OverlayManifest::into_request`.
Texts are sequences of Unicode scalar values, the ones that both sides can hold.
`posix.normalize` is Node's.
-/
namespace Walaru.Client
open Lib.Text Overlay

/-- One segment of `normalizeString`; `kept` holds the segments kept so far, the last
one first. -/
def normalizeSegment (allowAboveRoot : Bool) (kept : List String) (segment : String) : List String :=
  if segment = "" ∨ segment = "." then kept
  else if segment = ".." then
    match kept with
    | [] => if allowAboveRoot then [".."] else []
    | last :: rest =>
      if last = ".." then (if allowAboveRoot then ".." :: kept else kept) else rest
  else segment :: kept

def normalizedSegments (allowAboveRoot : Bool) (path : String) : List String :=
  ((splitChar '/' path).foldl (normalizeSegment allowAboveRoot) []).reverse

def normalizeString (path : String) (allowAboveRoot : Bool) : String :=
  joinChar '/' (normalizedSegments allowAboveRoot path)

/-- `path.posix.normalize`. -/
def posixNormalize (path : String) : String :=
  if path = "" then "."
  else
    let isAbsolute := startsWith "/" path
    let trailingSeparator := endsWith "/" path
    let normalized := normalizeString path !isAbsolute
    if normalized = "" then
      if isAbsolute then "/" else if trailingSeparator then "./" else "."
    else
      let closed := if trailingSeparator then normalized ++ "/" else normalized
      if isAbsolute then "/" ++ closed else closed

example : posixNormalize "a//b/./c/../d/" = "a/b/d/" := by decide +kernel

/-- `/[\u0000-\u001f\u007f]/`. -/
def clientControl (c : Char) : Bool := c.toNat ≤ 31 || c.toNat = 127

def normalizeRelativePath (value : String) : Except String String :=
  if value = "" ∨ 4096 < (utf8 value).length ∨ containsChar '\\' value ∨
      value.toList.any clientControl then
    .error "Walaru overlay paths must be workspace-relative '/' paths"
  else
    let normalized := posixNormalize value
    if normalized ≠ value ∨ normalized = ".." ∨ startsWith "../" normalized ∨
        startsWith "/" value then
      .error ("Unsafe Walaru overlay path: " ++ value)
    else .ok normalized

/-- A document as the editor passes it; `none` is a member of another type, for the
version also a number that is no integer. -/
structure EditorDocument where
  path : Option String
  version : Option Int
  content : Option String

/-- The public manifest that the daemon reads. -/
structure OverlayManifest where
  schemaVersion : Nat
  sessionId : String
  documents : List OverlayDocument
  deriving DecidableEq

def sessionPattern (sessionId : String) : Bool :=
  1 ≤ sessionId.length && sessionId.length ≤ 64 &&
    sessionId.toList.all fun c => (c.toNat < 128 && c.isAlphanum) || c ∈ ['_', '-']

/-- `Number.isSafeInteger`. -/
def isSafeInteger (version : Int) : Bool :=
  -9007199254740991 ≤ version && version ≤ 9007199254740991

/-- The path of an editor's document, which has to be a text. -/
def documentPath (document : EditorDocument) : Except String String :=
  match document.path with
  | some value => normalizeRelativePath value
  | none => .error "Walaru overlay paths must be workspace-relative '/' paths"

def manifestDocuments : List String → Nat → List EditorDocument → Except String (List OverlayDocument)
  | _, _, [] => .ok []
  | paths, total, document :: rest => do
    let relative ← documentPath document
    if relative ∈ paths then throw ("Duplicate Walaru overlay path: " ++ relative)
    if paths.any fun existing => continues existing relative || continues relative existing then
      throw ("Conflicting Walaru overlay path: " ++ relative)
    match document.version.filter isSafeInteger, document.content with
    | none, _ => throw ("Invalid version for " ++ relative)
    | _, none => throw ("Invalid contents for " ++ relative)
    | some version, some content =>
      let bytes := (utf8 content).length
      if maxOverlayDocumentBytes < bytes then
        throw ("Walaru overlay document exceeds " ++ toString maxOverlayDocumentBytes ++
          " bytes: " ++ relative)
      if maxOverlayBytes < total + bytes then
        throw ("Walaru overlay payload exceeds " ++ toString maxOverlayBytes ++ " bytes")
      let later ← manifestDocuments (relative :: paths) (total + bytes) rest
      return ⟨relative, version, content⟩ :: later

def overlayManifest (sessionId : String) (documents : List EditorDocument) :
    Except String OverlayManifest := do
  if sessionPattern sessionId = false then throw "Invalid Walaru live session ID"
  if maxOverlayDocuments < documents.length then
    throw ("Walaru supports at most " ++ toString maxOverlayDocuments ++ " dirty documents")
  let normalized ← manifestDocuments [] 0 documents
  return ⟨1, sessionId, normalized⟩

inductive ManifestError where
  | schema (version : Nat)
  | request (error : OverlayError)
  deriving DecidableEq

/-- `OverlayManifest::into_request`. -/
def OverlayManifest.intoRequest (manifest : OverlayManifest) : Except ManifestError OverlayRequest :=
  if manifest.schemaVersion ≠ 1 then .error (.schema manifest.schemaVersion)
  else
    match validate ⟨manifest.sessionId, manifest.documents⟩ with
    | .ok () => .ok ⟨manifest.sessionId, manifest.documents⟩
    | .error e => .error (.request e)

/-- A segment that stands for a name. -/
def Proper (segment : String) : Prop := segment ≠ "" ∧ segment ≠ "." ∧ segment ≠ ".."

/-- What is kept names something, or climbs from the start on. -/
structure Kept (source kept : List String) : Prop where
  occupied : ∀ segment ∈ kept, segment ∈ source ∧ segment ≠ "" ∧ segment ≠ "."
  climbs : ".." ∈ kept → kept.getLast? = some ".."

theorem Kept.step {source kept : List String} (known : Kept source kept) {segment : String}
    (member : segment ∈ source) : Kept source (normalizeSegment true kept segment) := by
  unfold normalizeSegment
  by_cases skipped : segment = "" ∨ segment = "."
  · rw [if_pos skipped]
    exact known
  rw [if_neg skipped]
  by_cases up : segment = ".."
  · rw [if_pos up]
    subst up
    cases kept with
    | nil => exact ⟨by simp [member], by simp⟩
    | cons last rest =>
      by_cases above : last = ".."
      · subst above
        have ending := known.climbs List.mem_cons_self
        refine ⟨?_, fun _ => ?_⟩
        · simp only [if_true, List.forall_mem_cons]
          exact ⟨⟨member, by decide, by decide⟩, List.forall_mem_cons.mp known.occupied⟩
        · simpa [List.getLast?_cons] using ending
      · simp only [above, if_false]
        refine ⟨fun other inside => known.occupied other (List.mem_cons_of_mem _ inside), ?_⟩
        intro inside
        have ending := known.climbs (List.mem_cons_of_mem _ inside)
        rwa [List.getLast?_cons_of_ne_nil (List.ne_nil_of_mem inside)] at ending
  · rw [if_neg up]
    rw [not_or] at skipped
    refine ⟨List.forall_mem_cons.mpr ⟨⟨member, skipped.1, skipped.2⟩, known.occupied⟩, ?_⟩
    intro inside
    rcases List.mem_cons.mp inside with same | inside
    · exact absurd same.symm up
    · rw [List.getLast?_cons_of_ne_nil (List.ne_nil_of_mem inside)]
      exact known.climbs inside

theorem Kept.fold {source : List String} (segments : List String)
    (inside : ∀ segment ∈ segments, segment ∈ source) {kept : List String}
    (known : Kept source kept) : Kept source (segments.foldl (normalizeSegment true) kept) := by
  induction segments generalizing kept with
  | nil => exact known
  | cons segment segments ih =>
    rw [List.forall_mem_cons] at inside
    exact ih inside.2 (known.step inside.1)

theorem kept_segments (path : String) :
    Kept (splitChar '/' path) (normalizedSegments true path).reverse := by
  rw [normalizedSegments, List.reverse_reverse]
  exact Kept.fold _ (fun _ member => member) ⟨by simp, by simp⟩

/-- Proper segments are all kept; an empty one at the end is dropped. -/
theorem foldl_proper {segments : List String} (proper : ∀ segment ∈ segments, Proper segment)
    (kept : List String) :
    segments.foldl (normalizeSegment true) kept = segments.reverse ++ kept := by
  induction segments generalizing kept with
  | nil => rfl
  | cons segment segments ih =>
    rw [List.forall_mem_cons] at proper
    obtain ⟨⟨occupied, dot, dots⟩, later⟩ := proper
    rw [List.foldl_cons, ih later]
    simp [normalizeSegment, occupied, dot, dots]

end Walaru.Client
