import Mathlib.Data.List.Basic
import Walaru.Source.Core.Json

/-!
# The JSON writer of the daemon

`serde_json::to_vec` on a value: compact, with the members in the order they stand in.
How a double is shown is a parameter. What a text takes in UTF-8 is counted piece by
piece, from the characters of the strings up.
-/
namespace Walaru
open Lib.Text

/-- How the writer shows a double. -/
abbrev FloatWriter := UInt64 → String

/-- The letter of a two-character escape. -/
def shortEscape (c : Char) : Option Char :=
  if c = '"' ∨ c = '\\' then some c
  else if c.toNat = 8 then some 'b'
  else if c.toNat = 9 then some 't'
  else if c.toNat = 10 then some 'n'
  else if c.toNat = 12 then some 'f'
  else if c.toNat = 13 then some 'r'
  else none

/-- A character between quotes. -/
def escapeText (c : Char) : String :=
  match shortEscape c with
  | some letter => "\\" ++ String.singleton letter
  | none =>
    if c.toNat < 32 then
      "\\u00" ++ String.singleton (hexDigit (c.toNat / 16)) ++ String.singleton (hexDigit (c.toNat % 16))
    else String.singleton c

def escapeChars : List Char → String
  | [] => ""
  | c :: rest => escapeText c ++ escapeChars rest

def quoted (value : String) : String := "\"" ++ escapeChars value.toList ++ "\""

/-- What a character takes between quotes. -/
def escapedBytes (c : Char) : Nat :=
  if (shortEscape c).isSome then 2 else if c.toNat < 32 then 6 else c.utf8Size

/-- What a string takes with its quotes. -/
def quotedBytes (value : String) : Nat := 2 + (value.toList.map escapedBytes).sum

theorem utf8Size_hexDigit {n : Nat} (digit : n < 16) : (hexDigit n).utf8Size = 1 := by
  have table : ∀ i : Fin 16, (hexDigit i).utf8Size = 1 := by decide
  exact table ⟨n, digit⟩

theorem utf8Size_shortEscape {c letter : Char} (short : shortEscape c = some letter) :
    letter.utf8Size = 1 := by
  unfold shortEscape at short
  split at short
  · rename_i same
    cases short
    rcases same with rfl | rfl <;> rfl
  · split_ifs at short <;> cases short <;> rfl

theorem utf8ByteSize_escapeText (c : Char) : (escapeText c).utf8ByteSize = escapedBytes c := by
  unfold escapeText escapedBytes
  cases short : shortEscape c with
  | some letter =>
    have mark : ("\\" : String).utf8ByteSize = 1 := rfl
    simp [utf8Size_shortEscape short, mark]
  | none =>
    by_cases control : c.toNat < 32
    · have high := utf8Size_hexDigit (n := c.toNat / 16) (by omega)
      have low := utf8Size_hexDigit (n := c.toNat % 16) (by omega)
      have mark : ("\\u00" : String).utf8ByteSize = 4 := rfl
      simp [control, high, low, mark]
    · simp [control]

theorem utf8ByteSize_escapeChars (chars : List Char) :
    (escapeChars chars).utf8ByteSize = (chars.map escapedBytes).sum := by
  induction chars with
  | nil => rfl
  | cons c rest ih =>
    rw [escapeChars, String.utf8ByteSize_append, utf8ByteSize_escapeText, ih, List.map_cons,
      List.sum_cons]

@[simp] theorem utf8ByteSize_quoted (value : String) :
    (quoted value).utf8ByteSize = quotedBytes value := by
  have mark : ("\"" : String).utf8ByteSize = 1 := rfl
  rw [quoted, quotedBytes, String.utf8ByteSize_append, String.utf8ByteSize_append, mark,
    utf8ByteSize_escapeChars]
  omega

/-- Texts with commas between them. -/
def commaSeparated : List String → String
  | [] => ""
  | [text] => text
  | text :: next :: rest => text ++ "," ++ commaSeparated (next :: rest)

/-- What texts of these sizes take with commas between them. -/
def separatedBytes (sizes : List Nat) : Nat := sizes.sum + (sizes.length - 1)

@[simp] theorem utf8ByteSize_commaSeparated (texts : List String) :
    (commaSeparated texts).utf8ByteSize = separatedBytes (texts.map String.utf8ByteSize) := by
  have comma : ("," : String).utf8ByteSize = 1 := rfl
  induction texts with
  | nil => rfl
  | cons text rest ih =>
    cases rest with
    | nil => simp [commaSeparated, separatedBytes]
    | cons next rest =>
      rw [commaSeparated, String.utf8ByteSize_append, String.utf8ByteSize_append, ih, comma]
      simp only [separatedBytes, List.map_cons, List.sum_cons, List.length_cons, List.length_map]
      omega

namespace Json
variable (floats : FloatWriter)

def writeNumber : Number → String
  | .posInt value => toString value
  | .negInt value => toString value
  | .float bits => floats bits

mutual
/-- `serde_json::to_vec`, as text. -/
def write : Json → String
  | .null => "null"
  | .bool true => "true"
  | .bool false => "false"
  | .number value => writeNumber floats value
  | .string value => quoted value
  | .array items => "[" ++ commaSeparated (writeItems items) ++ "]"
  | .object fields => "\x7b" ++ commaSeparated (writeFields fields) ++ "\x7d"

def writeItems : List Json → List String
  | [] => []
  | item :: rest => item.write :: writeItems rest

def writeFields : List (String × Json) → List String
  | [] => []
  | (name, value) :: rest => (quoted name ++ ":" ++ value.write) :: writeFields rest
end

/-- The bytes that a value takes. -/
def byteSize (value : Json) : Nat := (value.write floats).utf8ByteSize

theorem byteSize_bool (value : Bool) : byteSize floats (.bool value) = if value then 4 else 5 := by
  cases value <;> rfl

theorem byteSize_string (value : String) : byteSize floats (.string value) = quotedBytes value := by
  rw [byteSize, write, utf8ByteSize_quoted]

theorem byteSize_array (items : List Json) :
    byteSize floats (.array items) = 2 + separatedBytes (items.map (byteSize floats)) := by
  have each : (writeItems floats items).map String.utf8ByteSize = items.map (byteSize floats) := by
    induction items with
    | nil => rfl
    | cons item rest ih => rw [writeItems, List.map_cons, List.map_cons, ih, byteSize]
  have marks : ("[" : String).utf8ByteSize = 1 ∧ ("]" : String).utf8ByteSize = 1 := ⟨rfl, rfl⟩
  rw [byteSize, write, String.utf8ByteSize_append, String.utf8ByteSize_append,
    utf8ByteSize_commaSeparated, each, marks.1, marks.2]
  omega

/-- A member is its quoted name, a colon and its value. -/
def memberBytes (field : String × Json) : Nat := quotedBytes field.1 + 1 + byteSize floats field.2

theorem byteSize_object (fields : List (String × Json)) :
    byteSize floats (.object fields) = 2 + separatedBytes (fields.map (memberBytes floats)) := by
  have each : (writeFields floats fields).map String.utf8ByteSize = fields.map (memberBytes floats) := by
    have colon : (":" : String).utf8ByteSize = 1 := rfl
    induction fields with
    | nil => rfl
    | cons field rest ih =>
      obtain ⟨name, value⟩ := field
      rw [writeFields, List.map_cons, List.map_cons, ih, String.utf8ByteSize_append,
        String.utf8ByteSize_append, utf8ByteSize_quoted, colon, memberBytes, byteSize]
  have marks : ("\x7b" : String).utf8ByteSize = 1 ∧ ("\x7d" : String).utf8ByteSize = 1 := ⟨rfl, rfl⟩
  rw [byteSize, write, String.utf8ByteSize_append, String.utf8ByteSize_append,
    utf8ByteSize_commaSeparated, each, marks.1, marks.2]
  omega

end Json

end Walaru
