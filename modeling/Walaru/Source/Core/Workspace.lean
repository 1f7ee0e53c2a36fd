import Mathlib.Data.String.Basic
import Walaru.Lib.FileTree
import Walaru.Lib.Framing
import Walaru.Lib.Text
import Walaru.Source.Core.Protocol

/-!
# Workspace trees and revision capture

`workspace.rs`: the walk that collects the execution-relevant files, the path rules
it applies, the byte stream it hashes and the snapshot it returns. Paths are lists
of names below the file system's root. A name is what the lossy decoding of the
platform's string reads: scalar values and ill-formed byte runs.
-/
namespace Walaru
open Lib.Text Lib.FileTree

/-- `isize::MAX`, the most bytes a vector or a string holds. -/
def isizeMax : Nat := 2 ^ 63 - 1

/-- A piece of a platform string: a Unicode scalar value, or a maximal run of bytes
that is not part of one. -/
inductive NameUnit where
  | scalar (c : Char)
  | illFormed (bytes : List UInt8)
  deriving DecidableEq

def NameUnit.lossy : NameUnit → Char
  | scalar c => c
  | illFormed _ => '\uFFFD'

def NameUnit.bytes : NameUnit → List UInt8
  | scalar c => String.utf8EncodeChar c
  | illFormed bytes => bytes

def NameUnit.toScalar : NameUnit → Option Char
  | scalar c => some c
  | illFormed _ => none

/-- `OsStr::to_str` on pieces: only well-formed text has one. -/
def unitsToStr (units : List NameUnit) : Option String :=
  (units.mapM NameUnit.toScalar).map String.ofList

/-- The name of a directory entry. -/
structure FileName where
  units : List NameUnit
  nonempty : units ≠ []
  separatorFree : NameUnit.scalar '/' ∉ units
  deriving DecidableEq

abbrev Path := List FileName

namespace FileName

/-- The name that is this text. -/
def ofText (text : String) (valid : text.toList ≠ [] ∧ '/' ∉ text.toList := by decide) : FileName where
  units := text.toList.map .scalar
  nonempty := by simpa using valid.1
  separatorFree := by simpa using valid.2

def src : FileName := .ofText "src"

def main : FileName := .ofText "main"

def java : FileName := .ofText "java"

def sourceA : FileName := .ofText "A.java"

def sourceB : FileName := .ofText "B.java"

/-- `OsStr::to_string_lossy`. -/
def toStringLossy (name : FileName) : String := String.ofList (name.units.map NameUnit.lossy)

def toStr (name : FileName) : Option String := unitsToStr name.units

def bytes (name : FileName) : List UInt8 := name.units.flatMap NameUnit.bytes

/-- `Path::extension` of a path that ends in this name. -/
def extension (name : FileName) : Option (List NameUnit) :=
  let rest := name.units.reverse.dropWhile fun u => u != .scalar '.'
  if rest.length ≤ 1 then none
  else some (name.units.reverse.takeWhile fun u => u != .scalar '.').reverse

/-- The order of directory entries sorted by name. -/
def before (a b : FileName) : Prop := ¬ b.bytes < a.bytes

instance : DecidableRel before := fun a b => inferInstanceAs (Decidable (¬ b.bytes < a.bytes))

end FileName

/-- A regular file: its bytes and its modification time. -/
structure FileData where
  contents : List UInt8
  modified : Nat
  deriving DecidableEq

abbrev Tree := Entries FileName FileData

/-- Names a path is made of, joined as the platform displays it. -/
def displayPath (path : Path) : String :=
  String.ofList (['/'].intercalate (path.map fun name => name.toStringLossy.toList))

/-- `Path::strip_prefix(root).unwrap_or(path)`. -/
def stripRoot (root path : Path) : Path :=
  if root.isPrefixOf path then path.drop root.length else path

def relativeString (root path : Path) : String :=
  replaceChar '\\' '/' (displayPath (stripRoot root path))

def ignoredDirectory (name : String) : Bool :=
  name ∈ [".git", ".gradle", ".idea", ".kotlin", "build", "out", "target", "node_modules"]

def includedFileNames : List String :=
  ["build.gradle", "build.gradle.kts", "settings.gradle", "settings.gradle.kts",
    "gradle.properties", "libs.versions.toml", "gradle-wrapper.properties", "pom.xml",
    "maven.config", "jvm.config", "extensions.xml", "maven-wrapper.properties", "walaru.toml"]

def includedFile (root path : Path) : Bool :=
  let relative := stripRoot root path
  if relative.head?.any fun part => part = .ofText "src" then true
  else
    let name := (path.getLast?.bind FileName.toStr).getD ""
    if name ∈ includedFileNames then true
    else
      (path.getLast?.bind FileName.extension).bind unitsToStr ∈
        [some "java", some "kt", some "kts", some "gradle"]

/-- The files a walk visits, in order. -/
def visitedFiles (visits : List (Visit FileName FileData)) : List (Path × FileData) :=
  visits.filterMap fun
    | .file path data => some (path, data)
    | .directory _ => none

/-- The walk below `root`, which holds `tree`. -/
def collectFiles (root : Path) (tree : Tree) : List (Path × FileData) :=
  (visitedFiles ((Node.dir tree).visits FileName.before
    (fun name => !ignoredDirectory name.toStringLossy) root)).filter fun file =>
      includedFile root file.1

/-- The collected files in the order of their relative paths. -/
def capturedFiles (root : Path) (tree : Tree) : List (Path × FileData) :=
  (collectFiles root tree).insertionSort fun a b => relativeString root a.1 ≤ relativeString root b.1

/-- One length-prefixed field of the hashed stream. -/
def updateFrame (value : List UInt8) : List UInt8 := Lib.Framing.frame 8 value

/-- What the revision hash is fed. -/
def revisionStream (root : Path) (tree : Tree) : List UInt8 :=
  utf8 "walaru-revision-v1\x00" ++ (capturedFiles root tree).flatMap fun file =>
    updateFrame (utf8 (relativeString root file.1)) ++ updateFrame file.2.contents

structure RevisionSnapshot where
  revision : String
  fileDigests : BTreeMap String String
  surfaceDigests : BTreeMap String String
  deriving DecidableEq

/-- A snapshot with its list of paths. -/
structure RevisionCapture where
  snapshot : RevisionSnapshot
  files : List String
  deriving DecidableEq

/-- What the capture hashes with: SHA-256, and `source_surface_digest`, which reads a
file's extension and its bytes. -/
structure RevisionHash where
  sha256 : List UInt8 → List UInt8
  sourceSurfaceDigest : Option (List NameUnit) → List UInt8 → String

/-- `RevisionSnapshot::capture`. -/
def capture (hash : RevisionHash) (root : Path) (tree : Tree) : RevisionCapture :=
  let files := capturedFiles root tree
  { snapshot :=
      { revision := "rev-" ++ hexEncode (hash.sha256 (revisionStream root tree))
        fileDigests := files.foldl (fun map file =>
          map.insert (relativeString root file.1) (hexEncode (hash.sha256 file.2.contents))) ∅
        surfaceDigests := files.foldl (fun map file =>
          map.insert (relativeString root file.1) (hash.sourceSurfaceDigest
            (file.1.getLast?.bind FileName.extension) file.2.contents)) ∅ }
    files := files.map fun file => relativeString root file.1 }

/-- A workspace: no directory lists a name twice, and a path's text and a file's
bytes are no longer than a string and a vector may be. -/
structure Workspace where
  tree : Tree
  distinct : tree.distinct = true
  addressable : ∀ file ∈ visitedFiles ((Node.dir tree).visits FileName.before (fun _ => true) []),
    (utf8 (relativeString [] file.1)).length ≤ isizeMax ∧ file.2.contents.length ≤ isizeMax

/-- What a file of the tree contributes: its content, when the walk reaches it and
the path rules include it. -/
def includedContents (tree : Tree) (path : Path) : Option (List UInt8) :=
  if (path.dropLast.all fun name => !ignoredDirectory name.toStringLossy) && includedFile [] path then
    match tree.get path with
    | some (.file data) => some data.contents
    | _ => none
  else none

end Walaru
