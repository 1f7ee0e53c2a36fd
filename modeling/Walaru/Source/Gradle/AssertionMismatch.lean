import Walaru.Source.Gradle.TestSelection

/-!
# Assertion messages in the Gradle report

`assertionMismatch` of `WalaruReportTask.kt`. Positions count characters: what is searched for
never stands inside a surrogate pair.
-/
namespace Walaru.Gradle
open Lib.Text

/-- `Character.toLowerCase(Character.toUpperCase(c))` where that is an ASCII character. -/
def foldCase (c : Char) : Char :=
  if 65 ≤ c.toNat && c.toNat ≤ 90 then Char.ofNat (c.toNat + 32)
  else if c.toNat = 0x130 || c.toNat = 0x131 then 'i'
  else if c.toNat = 0x17F then 's'
  else if c.toNat = 0x212A then 'k'
  else c

/-- `regionMatches` with `ignoreCase`, of an ASCII needle as a whole. -/
def regionMatches (value : List Char) (index : Nat) (needle : List Char) : Bool :=
  ((value.drop index).take needle.length).map foldCase = needle.map foldCase

def indexOfIgnoreCase (value needle : List Char) (start : Nat) : Option Nat :=
  if needle = [] then some (min start value.length)
  else (List.range' start (value.length + 1 - needle.length - start)).find? fun index =>
    regionMatches value index needle

def assertionCharacter (c : Char) : Bool :=
  isWhitespace c || c ∈ [':', '=', '<', '[', '(', '.', '>', ']', ')']

def assertionValue (value : List Char) : List Char :=
  (value.dropWhile assertionCharacter).rdropWhile assertionCharacter

def isBlank (value : List Char) : Bool := value.all isWhitespace

/-- `minByOrNull` by the position, which takes the first one of equal positions. -/
def minByPosition : List (Nat × String) → Option (Nat × String)
  | [] => none
  | first :: rest => some (rest.foldl (fun best next => if next.1 < best.1 then next else best) first)

def assertionMismatch (message : List Char) : Option (List Char × List Char) := do
  let found ← indexOfIgnoreCase message "expected".toList 0
  let expectedStart := found + "expected".toList.length
  let separators := ["but was", "but found"].filterMap fun marker =>
    (indexOfIgnoreCase message marker.toList expectedStart).map fun position => (position, marker)
  let (separator, marker) ← minByPosition separators
  let expected := assertionValue ((message.take separator).drop expectedStart)
  let actual := assertionValue (message.drop (separator + marker.toList.length))
  if isBlank expected || isBlank actual then none else some (expected, actual)

end Walaru.Gradle
