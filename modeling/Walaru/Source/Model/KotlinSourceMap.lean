import Walaru.Lib.JavaText
import Walaru.Lib.Utf16

/-!
# Kotlin source maps

`KotlinSourceMap.java`: from the text of a class file's debug extension to the Kotlin path
and line of a generated line. Texts are code units. What throws inside a `try` reads nothing.
-/
namespace Walaru.SourceMaps
open Lib.JavaText

abbrev Text := List UInt16

def ascii (s : String) : Text := Lib.Utf16.encode s

structure Position where
  path : Text
  line : Int
  deriving DecidableEq, Repr

/-- `Entry`; `count` is its `repeat`. -/
structure Entry where
  inputStart : Int
  outputStart : Int
  count : Int
  outputIncrement : Int
  path : Text
  deriving DecidableEq, Repr

structure KotlinSourceMap where
  sourcePath : Text
  entries : List Entry
  deriving DecidableEq, Repr

/-- The paths of the file ids, in the order of a `LinkedHashMap`. -/
abbrev Files := List (Int × Text)

/-- `LinkedHashMap.put`. -/
def putFile (id : Int) (path : Text) : Files → Files
  | [] => [(id, path)]
  | file :: files => if file.1 = id then (id, path) :: files else file :: putFile id path files

def getFile (id : Int) (fallback : Text) (files : Files) : Text :=
  ((files.find? fun file => file.1 = id).map Prod.snd).getD fallback

def firstFile (fallback : Text) (files : Files) : Text := (files.head?.map Prod.snd).getD fallback

/-- The file id of an input side and the rest of that side. -/
def takeFileId (input : Text) : Option (Int × Text) :=
  match input.dropWhile (· ≠ 35) with
  | [] => some (1, input)
  | _ :: behind =>
    (parseInt (behind.takeWhile (· ≠ 44))).map fun id =>
      (id, input.takeWhile (· ≠ 35) ++ behind.dropWhile (· ≠ 44))

/-- A number behind a comma, one when there is none. -/
def optionalInt : Option Text → Option Int
  | none => some 1
  | some text => parseInt text

/-- `parseLine` of a line that contains a colon. -/
def parseLine (line : Text) (files : Files) (fallback : Text) : Option Entry := do
  let sides := splitAtUnit 58 line
  let (fileId, input) ← takeFileId sides.1
  let inputParts := splitAtUnit 44 input
  let outputParts := splitAtUnit 44 (sides.2.getD [])
  let inputStart ← parseInt inputParts.1
  let outputStart ← parseInt outputParts.1
  let count ← optionalInt inputParts.2
  let outputIncrement ← optionalInt outputParts.2
  return ⟨inputStart, outputStart, count, outputIncrement, getFile fileId fallback files⟩

/-- What the loop over the lines keeps. A line `+ id name` waits for the path on the line
behind it: `pending` holds the id and the name. -/
structure Scan where
  kotlinStratum : Bool
  fileSection : Bool
  lineSection : Bool
  pending : Option (Int × Option Text)
  stopped : Bool
  files : Files
  mappings : List Entry
  deriving DecidableEq, Repr

/-- A line of a file section. -/
def Scan.fileLine (fallback : Text) (s : Scan) (line : Text) : Scan :=
  if (ascii "+ ").isPrefixOf line then
    let fields := splitSpace (Lib.JavaText.trim (line.drop 2))
    match parseInt fields.1 with
    | none => s
    | some id => { s with pending := some (id, fields.2) }
  else if line = [] then s
  else
    let fields := splitSpace line
    match parseInt fields.1 with
    | none => s
    | some id => { s with files := putFile id (fields.2.getD fallback) s.files }

/-- One line of the text, trimmed. -/
def Scan.step (fallback : Text) (s : Scan) (line : Text) : Scan :=
  if s.stopped then s
  else
    match s.pending with
    | some (id, _) => { s with files := putFile id line s.files, pending := none }
    | none =>
      if (ascii "*S ").isPrefixOf line then
        if s.kotlinStratum && !s.mappings.isEmpty then { s with stopped := true }
        else
          { s with
            kotlinStratum := line = ascii "*S Kotlin"
            fileSection := false
            lineSection := false }
      else if !s.kotlinStratum then s
      else if line = ascii "*F" then { s with fileSection := true, lineSection := false }
      else if line = ascii "*L" then { s with fileSection := false, lineSection := true }
      else if (ascii "*").isPrefixOf line then { s with fileSection := false, lineSection := false }
      else if s.fileSection then s.fileLine fallback line
      else if s.lineSection && line.contains 58 then
        { s with mappings := s.mappings ++ (parseLine line s.files fallback).toList }
      else s

/-- The end of the text: a path that is missing is the name, if there is one. -/
def Scan.finish (s : Scan) : Scan :=
  match s.pending with
  | some (id, some name) => { s with files := putFile id name s.files, pending := none }
  | _ => s

def parse (debug defaultSource : Option Text) : KotlinSourceMap :=
  let fallback := defaultSource.getD (ascii "Unknown.java")
  match debug with
  | none => ⟨fallback, []⟩
  | some debug =>
    if (ascii "SMAP").isPrefixOf debug then
      let lines := (splitLines debug).map Lib.JavaText.trim
      let start : Scan :=
        { kotlinStratum := decide (lines[2]? = some (ascii "Kotlin"))
          fileSection := false
          lineSection := false
          pending := none
          stopped := false
          files := []
          mappings := [] }
      let scan := (lines.foldl (Scan.step fallback) start).finish
      ⟨getFile 1 (firstFile fallback scan.files) scan.files, scan.mappings⟩
    else ⟨fallback, []⟩

def Entry.last (e : Entry) : Int :=
  wrap (e.outputStart + wrap (wrap (e.count - 1) * e.outputIncrement))

def Entry.covers (e : Entry) (outputLine : Int) : Bool :=
  e.outputStart ≤ outputLine && outputLine ≤ e.last

/-- `position`; `none` is the `ArithmeticException` of a division by zero. -/
def KotlinSourceMap.position (map : KotlinSourceMap) (outputLine : Int) : Option Position :=
  match map.entries.find? (·.covers outputLine) with
  | none => some ⟨map.sourcePath, outputLine⟩
  | some e =>
    if e.outputIncrement = 0 then none
    else some ⟨e.path, wrap (e.inputStart + wrap ((wrap (outputLine - e.outputStart)).tdiv
      e.outputIncrement))⟩

end Walaru.SourceMaps
