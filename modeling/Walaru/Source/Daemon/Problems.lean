import Walaru.Lib.TextSearch
import Walaru.Lib.TrimmedLists
import Walaru.Lib.Utf8Slices
import Walaru.Source.Core.SourceSurface
import Walaru.Source.Daemon.Request

/-!
# Compiler problems

`parse_worker_problem` and the functions under it, on the characters of one line of a
worker's log. Paths follow the Unix conventions of `std::path`.
-/
namespace Walaru
open Lib.TrimmedLists Lib.TextSearch

/-- The digits of a number, after an optional plus sign. -/
def unsigned : List Char → List Char
  | '+' :: digits => digits
  | digits => digits

/-- `str::parse::<u32>`. -/
def parseU32 (text : List Char) : Option Nat :=
  if unsigned text = [] ∨ (unsigned text).all Char.isDigit = false then none
  else (some (Nat.ofDigitChars 10 (unsigned text) 0)).filter (· < 2 ^ 32)

def trimmedText (text : List Char) : List Char := trimList whiteSpace text

def sourceMarkers : List (List Char) := [".java:".toList, ".kt:".toList, ".kts:".toList]

/-- The marker that stands first, and its place. -/
def firstMarker (line : List Char) : Option (List Char × Nat) :=
  (sourceMarkers.filterMap fun marker => (findText marker line).map fun index =>
    (marker, index)).foldl (fun best found =>
      match best with
      | none => some found
      | some old => if found.2 < old.2 then some found else some old) none

def pathMarkers : List (List Char) :=
  ["[ERROR] ".toList, "[WARNING] ".toList, "e: ".toList, "w: ".toList]

def compilerPath (front : List Char) : List Char :=
  let trimmed := trimmedText front
  match afterLast "file://".toList trimmed with
  | some path => trimmedText path
  | none =>
    match pathMarkers.findSome? fun marker => stripStart marker trimmed with
    | some path => trimmedText path
    | none => trimmed

def slash (c : Char) : Char := if c = '\\' then '/' else c

def quote (c : Char) : Bool := c.toNat = 39 || c.toNat = 34

/-- A component of a relative path that is not a name: `.` in front or `..` anywhere. -/
def leavesRoot (relative : List Char) : Bool :=
  let pieces := Lib.Text.splitGo ['/'] 0 [] relative
  pieces.head? = some ['.'] || pieces.contains ['.', '.']

def relativeProblemPath (path root : List Char) : Option (List Char) :=
  let normalized := (trimList quote path).map slash
  let rootPrefix := ((root.map slash).rdropWhile (· = '/')) ++ ['/']
  let relative := (stripStart rootPrefix normalized).getD normalized
  if relative = [] ∨ relative.head? = some '/' ∨ leavesRoot relative = true then none
  else some relative

/-- A line and a column up to the closing bracket. -/
def bracketedPosition (close : Char) (rest : List Char) : Option (Nat × Option Nat × List Char) := do
  let (position, remainder) ← splitAround close rest
  let parts := (Lib.Text.splitGo [','] 0 [] position).map trimmedText
  let line ← (parts[0]?).bind parseU32
  if 0 < line then some (line, ((parts[1]?).bind parseU32).filter (0 < ·), remainder) else none

def compilerPosition (value : List Char) : Option (Nat × Option Nat × List Char) :=
  match value.dropWhile whiteSpace with
  | '[' :: rest => bracketedPosition ']' rest
  | '(' :: rest => bracketedPosition ')' rest
  | start => do
    let (line, remainder) ← splitAround ':' start
    let line ← parseU32 (trimmedText line)
    if line = 0 then none
    else
      let remainder := remainder.dropWhile whiteSpace
      match splitAround ':' remainder with
      | none => some (line, none, remainder)
      | some (candidate, rest) =>
        match parseU32 (trimmedText candidate) with
        | some column => some (line, (some column).filter (0 < ·), rest)
        | none => some (line, none, remainder)

def problemSeverity (line : List Char) : String :=
  if (findText "warning".toList (line.map Char.toLower)).isSome ∨
      "w:".toList.isPrefixOf (line.dropWhile whiteSpace) then "warning"
  else "error"

def maxProblemBytes : Nat := 16 * 1024

def maxProblemMessage : Nat := 2000

def problemMessage (remainder : List Char) : List Char :=
  let text := trimmedText ((trimmedText remainder).dropWhile (· = ':'))
  let text := stripRepeated "error:".toList text.length text
  let text := stripRepeated "warning:".toList text.length text
  (trimmedText text).take maxProblemMessage

def parseWorkerProblem (line root : List Char) : Option WorkerProblem :=
  if maxProblemBytes < Lib.Utf8Slices.bytes line then none
  else do
    let (marker, index) ← firstMarker line
    let pathEnd := index + marker.length - 1
    let path ← relativeProblemPath (compilerPath (line.take pathEnd)) root
    let (number, column, remainder) ← compilerPosition (line.drop (pathEnd + 1))
    let message := problemMessage remainder
    some {
      path := String.ofList path
      line := number
      column := column
      severity := problemSeverity line
      message :=
        if message = [] then "Compiler reported a problem" else String.ofList message }

example : parseWorkerProblem "/work/live/src/main/java/demo/App.java:12: error: cannot find symbol".toList
    "/work/live".toList = some ⟨"src/main/java/demo/App.java", 12, none, "error", "cannot find symbol"⟩ := by
  decide +kernel

end Walaru
