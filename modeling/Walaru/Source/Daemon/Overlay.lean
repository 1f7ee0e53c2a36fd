import Walaru.Lib.FileOps
import Walaru.Lib.StateResult
import Walaru.Lib.TextParts
import Walaru.Source.Daemon.GitImpact

/-!
# Editor overlays and the mirrored workspace

`overlay.rs`: the checks of an overlay request, and the preparation that brings the
mirror of an editor session up to date with the workspace and puts the unsaved
documents over it. A preparation changes its session directory by single operations
and may stop at any of them.
-/
namespace Walaru.Overlay
open Lib.Text Lib.FileTree Lib.StateResult

def maxOverlayDocuments : Nat := 256
def maxOverlayDocumentBytes : Nat := 1024 * 1024
def maxOverlayBytes : Nat := 4 * 1024 * 1024
def maxMirrorManifestBytes : Nat := 64 * 1024 * 1024

inductive OverlayError where
  | session
  | tooManyDocuments (count : Nat)
  | path (value : String)
  | duplicatePath (path : String)
  | pathConflict (path : String)
  | documentTooLarge (path : String) (bytes : Nat)
  | payloadTooLarge (total : Nat)
  | io
  | cancelled
  deriving DecidableEq, Repr

def validSessionId (sessionId : String) : Bool :=
  sessionId != "" && (utf8 sessionId).length ≤ 64 &&
    sessionId.toList.all fun c => (c.toNat < 128 && c.isAlphanum) || c ∈ ['-', '_']

def validateRelativePath (value : String) : Except OverlayError Unit :=
  if value = "" ∨ 4096 < (utf8 value).length ∨ containsChar '\\' value ∨
      value.toList.any isControl ∨ "" ∈ splitChar '/' value then .error (.path value)
  -- A dot in the middle is no component of its own; a leading one is.
  else if (splitChar '/' value).head? = some "." ∨ ".." ∈ splitChar '/' value then
    .error (.path value)
  else .ok ()

/-- The text `inner` continues `outer` behind a slash. -/
def continues (outer inner : String) : Bool := startsWith (outer ++ "/") inner

def validateDocuments : List String → Nat → List OverlayDocument → Except OverlayError Unit
  | _, _, [] => .ok ()
  | paths, total, document :: rest => do
    validateRelativePath document.path
    if paths.any fun existing =>
        continues existing document.path || continues document.path existing then
      throw (.pathConflict document.path)
    if document.path ∈ paths then throw (.duplicatePath document.path)
    let bytes := (utf8 document.content).length
    if maxOverlayDocumentBytes < bytes then throw (.documentTooLarge document.path bytes)
    if maxOverlayBytes < total + bytes then throw (.payloadTooLarge (total + bytes))
    validateDocuments (document.path :: paths) (total + bytes) rest

def validate (overlay : OverlayRequest) : Except OverlayError Unit :=
  if validSessionId overlay.sessionId = false then .error .session
  else if maxOverlayDocuments < overlay.documents.length then
    .error (.tooManyDocuments overlay.documents.length)
  else validateDocuments [] 0 overlay.documents

structure MirrorManifest where
  schemaVersion : Nat
  paths : BTreeSet String
  digests : BTreeMap String String
  overlayPaths : BTreeSet String
  deriving DecidableEq

def MirrorManifest.new : MirrorManifest := ⟨1, ∅, ∅, ∅⟩

/-- What the bytes of a manifest file are read as. -/
inductive ManifestContents where
  | manifest (manifest : MirrorManifest)
  /-- The set of paths that earlier versions wrote. -/
  | pathSet (paths : BTreeSet String)
  | other
  deriving DecidableEq

structure ManifestFile where
  length : Nat
  contents : ManifestContents
  deriving DecidableEq

/-- The files of one editor session: `mirror`, `mirrored-files.json`, its temporary
file and `mirror-preparing`. -/
structure SessionDirectory where
  mirror : Option Tree
  manifest : Option ManifestFile
  temporary : Option ManifestFile
  preparing : Bool
  deriving DecidableEq

def SessionDirectory.new : SessionDirectory := ⟨none, none, none, false⟩

/-- The mirrored tree, which shows nothing while there is no mirror. -/
def SessionDirectory.tree (session : SessionDirectory) : Tree := session.mirror.getD .nil

def readMirrorManifest (file : Option ManifestFile) : Option MirrorManifest :=
  match file with
  | none => none
  | some file =>
    if maxMirrorManifestBytes < file.length then none
    else
      match file.contents with
      | .manifest manifest => if manifest.schemaVersion = 1 then some manifest else none
      | .pathSet paths => some { MirrorManifest.new with paths := paths }
      | .other => none

/-- What a preparation depends on outside the workspace and the request: the hash,
the length of a manifest's JSON, the time at which it writes a file, whether a file's
time can be set, and what an operation that fails midway leaves of the mirror. -/
structure PrepareEnv where
  sha256 : List UInt8 → List UInt8
  encodedLength : MirrorManifest → Nat
  clock : Path → Nat
  setsTimes : Path → Bool
  torn : Option Tree → Option Tree

/-- A session directory, and how many operations are left until the preparation is
cancelled, meets an error or dies. -/
structure Disk where
  session : SessionDirectory
  operations : Nat

abbrev PrepareM := EStateM OverlayError Disk

/-- An operation on a metadata file of the session. -/
def onSession (act : SessionDirectory → SessionDirectory) : PrepareM Unit := fun disk =>
  match disk.operations with
  | 0 => .error .cancelled disk
  | operations + 1 => .ok () ⟨act disk.session, operations⟩

/-- An operation on the mirror, which may fail or stop when part of it is done. -/
def onMirror (env : PrepareEnv) (act : Option Tree → Option (Option Tree)) : PrepareM Unit :=
  fun disk =>
    let torn : Disk :=
      { disk with session := { disk.session with mirror := env.torn disk.session.mirror } }
    match disk.operations, act disk.session.mirror with
    | 0, _ => .error .cancelled torn
    | _, none => .error .io torn
    | operations + 1, some mirror => .ok () ⟨{ disk.session with mirror := mirror }, operations⟩

/-- An operation below the mirror's root. -/
def inMirror (env : PrepareEnv) (act : Tree → Option Tree) : PrepareM Unit :=
  onMirror env fun mirror => (mirror.bind act).map some

def mirrorTree : PrepareM Tree := fun disk => .ok disk.session.tree disk

def fileDigest (env : PrepareEnv) (contents : List UInt8) : String := hexEncode (env.sha256 contents)

def destinationMatches (env : PrepareEnv) (source : FileData)
    (destination : Option (Kind FileData)) (sourceDigest : String) : Bool :=
  match destination with
  | some (.file found) =>
    if source.contents.length ≠ found.contents.length then false
    else if source.modified = found.modified then true
    else fileDigest env found.contents = sourceDigest
  | _ => false

def copyInput (env : PrepareEnv) (destination : Path) (source : FileData) : PrepareM Unit := do
  inMirror env (Entries.discard destination)
  inMirror env (Entries.write destination
    ⟨source.contents, if env.setsTimes destination then source.modified else env.clock destination⟩)

/-- The destination may stay as it is. -/
def reusable (env : PrepareEnv) (previous : MirrorManifest) (source : FileData) (relative : String)
    (destination : Option (Kind FileData)) : Bool :=
  previous.digests.get? relative = some (fileDigest env source.contents) &&
    !previous.overlayPaths.contains relative &&
    destinationMatches env source destination (fileDigest env source.contents)

def mirrorFile (env : PrepareEnv) (source : FileData) (destination : Path) (relative : String)
    (previous current : MirrorManifest) : PrepareM MirrorManifest := do
  let mirror ← mirrorTree
  if reusable env previous source relative (mirror.look destination) = false then
    inMirror env (Entries.makeDirs destination.dropLast)
    copyInput env destination source
  return { current with
    paths := current.paths.insert relative
    digests := current.digests.insert relative (fileDigest env source.contents) }

def ensureDirectory (path : Path) (mirror : Tree) : Option Tree :=
  match mirror.look path with
  | some .dir => some mirror
  | some _ => (mirror.discard path).bind (Entries.makeDirs path)
  | none => mirror.makeDirs path

def ignoredDirectory (name : String) : Bool :=
  startsWith ".gradle" name ||
    name ∈ [".git", ".idea", ".kotlin", "build", "dist", "out", "target", "node_modules"]

/-- The walk of `mirror_directory`. -/
def walk (tree : Tree) : List (Visit FileName FileData) :=
  (Node.dir tree).visits FileName.before (fun name => !ignoredDirectory name.toStringLossy) []

def mirrorVisit (env : PrepareEnv) (previous current : MirrorManifest) :
    Visit FileName FileData → PrepareM MirrorManifest
  | .directory path => do
    inMirror env (ensureDirectory path)
    return current
  | .file path source => mirrorFile env source path (relativeString [] path) previous current

def mirrorDirectory (env : PrepareEnv) (tree : Tree) (previous : MirrorManifest) :
    PrepareM MirrorManifest :=
  (walk tree).foldlM (mirrorVisit env previous) .new

/-- The directory entry that one piece of a path text names. -/
def pieceName (piece : String) : Option FileName :=
  if named : piece ≠ "." ∧ piece.toList ≠ [] ∧ '/' ∉ piece.toList then
    some (.ofText piece named.2)
  else none

/-- `path_from_slashes` of a validated text; a dot in it leads nowhere else. -/
def pathFromSlashes (value : String) : Path := (splitChar '/' value).filterMap pieceName

/-- The text asks for a directory at its end. -/
def endsInDot (value : String) : Bool := (splitChar '/' value).getLast? = some "."

/-- The regular file that a listed path leads to. -/
def regularAt (tree : Tree) (relative : String) : Option FileData :=
  if endsInDot relative then none
  else
    match tree.get (pathFromSlashes relative) with
    | some (.file source) => some source
    | _ => none

def mirrorListed (env : PrepareEnv) (tree : Tree) (previous current : MirrorManifest)
    (bytes : List UInt8) : PrepareM MirrorManifest := do
  answer (validateRelativePath (gitPath bytes))
  match regularAt tree (gitPath bytes) with
  | some source =>
    mirrorFile env source (pathFromSlashes (gitPath bytes)) (gitPath bytes) previous current
  | none => return current

def mirrorRepository (env : PrepareEnv) (tree : Tree) (listed : Except String CommandOutput)
    (previous : MirrorManifest) : PrepareM MirrorManifest :=
  match listed with
  | .error _ => throw .io
  | .ok output =>
    if output.success = false then throw .io
    else (nulFields output.stdout).foldlM (mirrorListed env tree previous) .new

/-- Where the mirrored files come from: the workspace, or the repository it lies in
with what `git ls-files` answers there. -/
inductive MirrorSource where
  | directory (tree : Tree)
  | repository (tree : Tree) (workspaceRelative : Path) (listed : Except String CommandOutput)

namespace MirrorSource

/-- The workspace below the mirrored root. -/
def workspaceRelative : MirrorSource → Path
  | directory _ => []
  | repository _ workspaceRelative _ => workspaceRelative

end MirrorSource

def mirrorSource (env : PrepareEnv) (source : MirrorSource) (previous : MirrorManifest) :
    PrepareM MirrorManifest :=
  match source with
  | .directory tree => mirrorDirectory env tree previous
  | .repository tree _ listed => mirrorRepository env tree listed previous

/-- The text under which a document is recorded. -/
def documentKey (workspaceRelative : Path) (document : OverlayDocument) : String :=
  replaceChar '\\' '/'
    (joinChar '/' (workspaceRelative.map FileName.toStringLossy ++ [document.path]))

def documentTarget (workspaceRelative : Path) (document : OverlayDocument) : Path :=
  workspaceRelative ++ pathFromSlashes document.path

def addDocuments (workspaceRelative : Path) (documents : List OverlayDocument)
    (current : MirrorManifest) : MirrorManifest :=
  documents.foldl (fun manifest document =>
    { manifest with
      paths := manifest.paths.insert (documentKey workspaceRelative document)
      overlayPaths := manifest.overlayPaths.insert (documentKey workspaceRelative document) }) current

/-- Where the pieces of a path text lead, from a directory of the mirror on. -/
def resolve (mirror : Tree) : Path → List String → Option Path
  | place, [] => some place
  | place, piece :: rest =>
    if mirror.look place ≠ some .dir then none
    else if piece = ".." then
      if place = [] then none else resolve mirror place.dropLast rest
    else resolve mirror (place ++ (pieceName piece).toList) rest

/-- What `mirror_root.join(removed)` names in the mirror; an absolute text, or one
that climbs above the root, names something outside. -/
def staleTarget (mirror : Tree) (removed : String) : Option Path :=
  if startsWith "/" removed then none else resolve mirror [] (splitChar '/' removed)

def removeStale (env : PrepareEnv) (removed : String) : PrepareM Unit := do
  let mirror ← mirrorTree
  match staleTarget mirror removed with
  | some target => if mirror.isLeaf target then inMirror env (Entries.discard target)
  | none => return ()

def stalePaths (previous current : MirrorManifest) : List String :=
  previous.paths.toList.filter fun path => !current.paths.contains path

def writeDocument (env : PrepareEnv) (workspaceRelative : Path) (document : OverlayDocument) :
    PrepareM Unit := do
  let target := documentTarget workspaceRelative document
  inMirror env (Entries.makeDirs target.dropLast)
  inMirror env (Entries.discard target)
  inMirror env fun mirror =>
    if endsInDot document.path then none
    else mirror.write target ⟨utf8 document.content, env.clock target⟩

def writeMirrorManifest (env : PrepareEnv) (manifest : MirrorManifest) : PrepareM Unit := do
  if maxMirrorManifestBytes < env.encodedLength manifest then throw .io
  onSession fun session => { session with temporary := none }
  onSession fun session =>
    { session with temporary := some ⟨env.encodedLength manifest, .manifest manifest⟩ }
  onSession fun session => { session with manifest := session.temporary, temporary := none }

/-- The manifest that a preparation may rely on. -/
def SessionDirectory.previous (session : SessionDirectory) : Option MirrorManifest :=
  if session.preparing then none else readMirrorManifest session.manifest

/-- Forget a mirror of which nothing is known. -/
def discardMirror (env : PrepareEnv) (session : SessionDirectory) : PrepareM Unit := do
  if session.previous = none then
    if session.mirror.isSome then onMirror env fun _ => some none
    onSession fun session => { session with manifest := none }

/-- The marker that says a preparation is under way. -/
def markPreparing : PrepareM Unit := do
  onSession fun session => { session with preparing := false }
  onSession fun session => { session with preparing := true }

/-- Bring the mirror up to date under the marker. -/
def synchronize (env : PrepareEnv) (source : MirrorSource) (overlay : OverlayRequest)
    (previous : MirrorManifest) : PrepareM Unit := do
  onMirror env fun mirror => some (some (mirror.getD .nil))
  inMirror env (Entries.makeDirs source.workspaceRelative)
  let mirrored ← mirrorSource env source previous
  let current := addDocuments source.workspaceRelative overlay.documents mirrored
  (stalePaths previous current).forM (removeStale env)
  overlay.documents.forM (writeDocument env source.workspaceRelative)
  writeMirrorManifest env current

/-- `OverlayWorkspace::prepare_cancellable`. -/
def prepare (env : PrepareEnv) (source : MirrorSource) (overlay : OverlayRequest) : PrepareM Unit := do
  answer (validate overlay)
  let disk ← get
  discardMirror env disk.session
  markPreparing
  synchronize env source overlay (disk.session.previous.getD .new)
  onSession fun session => { session with preparing := false }

end Walaru.Overlay
