import Walaru.Lib.Decimals
import Walaru.Lib.Utf16

/-!
# The event writer

`EventWriter.java`: the JSON text of the values that an event holds. A Java string is
its code units; numbers are written by `String.valueOf`.
-/
namespace Walaru.Agent
open Lib.Decimals

/-- A Java string. -/
abbrev Text := List UInt16

def ascii (s : String) : Text := Lib.Utf16.encode s

/-- What `Double.toString` and `Float.toString` show of a finite value. -/
structure FloatText where
  numeral : Numeral
  valid : numeral.Valid
  fraction : numeral.fraction ≠ []
  finite : numeral.decimal.Below doubleBound

inductive Floating where
  | nan
  | infinite (negative : Bool)
  | finite (shown : FloatText)

/-- The class of an integral number. -/
inductive Integral where
  | byte | short | integer | long | bigInteger
  deriving DecidableEq, Repr

/-- The classes of `trustedNumber`. -/
inductive JavaNumber where
  | integral (kind : Integral) (value : Int)
  | float (value : Floating)
  | double (value : Floating)
  | bigDecimal (unscaled : Int) (scale : Int)

/-- What a written event holds; an object of any other class shows its class name. -/
inductive EventValue where
  | null
  | bool (value : Bool)
  | number (value : JavaNumber)
  | text (value : Text)
  | map (fields : List (Text × EventValue))
  | list (items : List EventValue)
  | other (className : Text)

def integerNumeral (value : Int) : Numeral := ⟨value < 0, Nat.toDigits 10 value.natAbs, [], none⟩

def adjustedExponent (adjusted : Int) : Option Exponent :=
  if adjusted = 0 then none
  else some ⟨if 0 < adjusted then .plus else .minus, Nat.toDigits 10 adjusted.natAbs⟩

/-- `BigDecimal.toString`: plain for a non-negative scale and an adjusted exponent of at
least -6, scientific otherwise. -/
def bigDecimalNumeral (unscaled scale : Int) : Numeral :=
  let coefficient := Nat.toDigits 10 unscaled.natAbs
  let adjusted := -scale + (coefficient.length - 1 : Int)
  if scale = 0 then integerNumeral unscaled
  else if 0 ≤ scale ∧ -6 ≤ adjusted then
    if coefficient.length ≤ scale.toNat then
      ⟨unscaled < 0, ['0'], List.replicate (scale.toNat - coefficient.length) '0' ++ coefficient, none⟩
    else
      ⟨unscaled < 0, coefficient.take (coefficient.length - scale.toNat),
        coefficient.drop (coefficient.length - scale.toNat), none⟩
  else ⟨unscaled < 0, coefficient.take 1, coefficient.drop 1, adjustedExponent adjusted⟩

def Floating.text : Floating → List Char
  | .nan => "NaN".toList
  | .infinite negative => if negative then "-Infinity".toList else "Infinity".toList
  | .finite shown => shown.numeral.text

/-- `String.valueOf`. -/
def JavaNumber.text : JavaNumber → List Char
  | .integral _ value => (integerNumeral value).text
  | .float value => value.text
  | .double value => value.text
  | .bigDecimal unscaled scale => (bigDecimalNumeral unscaled scale).text

/-- `String.format("\\u%04x", character)`. -/
def unicodeEscape (code : Nat) : List Char :=
  ['\\', 'u', Nat.digitChar (code / 4096), Nat.digitChar (code / 256 % 16),
    Nat.digitChar (code / 16 % 16), Nat.digitChar (code % 16)]

def escape (u : UInt16) : Text :=
  if u.toNat = 34 then ascii "\\\""
  else if u.toNat = 92 then ascii "\\\\"
  else if u.toNat = 10 then ascii "\\n"
  else if u.toNat = 13 then ascii "\\r"
  else if u.toNat = 9 then ascii "\\t"
  else if u.toNat < 32 then ascii (String.ofList (unicodeEscape u.toNat))
  else [u]

def writeString (value : Text) : Text := ascii "\"" ++ value.flatMap escape ++ ascii "\""

mutual
def writeValue : EventValue → Text
  | .null => ascii "null"
  | .bool value => ascii (if value then "true" else "false")
  | .number value => ascii (String.ofList value.text)
  | .text value => writeString value
  | .map fields => ascii "\x7b" ++ writeFields fields ++ ascii "\x7d"
  | .list items => ascii "[" ++ writeItems items ++ ascii "]"
  | .other className => writeString className

def writeFields : List (Text × EventValue) → Text
  | [] => []
  | [(name, value)] => writeString name ++ ascii ":" ++ writeValue value
  | (name, value) :: next :: fields =>
    writeString name ++ ascii ":" ++ writeValue value ++ ascii "," ++ writeFields (next :: fields)

def writeItems : List EventValue → Text
  | [] => []
  | [item] => writeValue item
  | item :: next :: items => writeValue item ++ ascii "," ++ writeItems (next :: items)
end

/-- The characters of the line that `EventWriter.write` appends: its text in UTF-8, in
which an unpaired surrogate becomes a question mark. -/
def eventLine (fields : List (Text × EventValue)) : List Char :=
  Lib.Utf16.decode (writeValue (.map fields) ++ ascii "\n")

end Walaru.Agent
