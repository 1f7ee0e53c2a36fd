import Mathlib.Algebra.Order.Ring.Nat
import Walaru.Lib.Decimals
import Walaru.Source.Core.Json

/-!
# The JSON parser of the daemon

`serde_json::from_slice` to a `Value`, on the characters of an input: the grammar, the
limit on nested containers and the reading of numbers. How a number that is no
machine integer is rounded to a double is a parameter.
-/
namespace Walaru
open Lib.Decimals

/-- Reading of doubles: a number beyond their range is refused. -/
structure FloatReader where
  read : Decimal → Option UInt64
  range : ∀ d, (read d).isSome = true ↔ d.Below doubleBound

/-- The bits of the double nearest to a decimal within range, ties to even. -/
def nearestBits (d : Decimal) : UInt64 :=
  let above := d.significand * 10 ^ d.exponent.toNat
  let below := 10 ^ (-d.exponent).toNat
  let guess : Int := max (-1074) (above.log2 - below.log2 - 53)
  let scaled (e : Int) : Nat × Nat := (above * 2 ^ (-e).toNat, below * 2 ^ e.toNat)
  let power := if 2 ^ 53 ≤ (scaled guess).1 / (scaled guess).2 then guess + 1 else guess
  let (top, bottom) := scaled power
  let floor := top / bottom
  let rest := 2 * (top % bottom)
  let mantissa := if bottom < rest ∨ (rest = bottom ∧ floor % 2 = 1) then floor + 1 else floor
  let magnitude := (power + 1074).toNat * 2 ^ 52 + mantissa
  UInt64.ofNat (if d.negative then 2 ^ 63 + magnitude else magnitude)

def FloatReader.nearest : FloatReader where
  read d := if d.Below doubleBound then some (nearestBits d) else none
  range d := by simp

def readNumber (floats : FloatReader) (n : Numeral) : Option Number :=
  let d := n.decimal
  if n.isInteger && !d.negative && d.significand < 2 ^ 64 then some (.posInt d.significand)
  else if n.isInteger && d.negative && 0 < d.significand && d.significand ≤ 2 ^ 63 then
    some (.negInt (-d.significand))
  else (floats.read d).map .float

def hexValue (c : Char) : Option Nat :=
  if '0' ≤ c ∧ c ≤ '9' then some (c.toNat - 48)
  else if 'a' ≤ c ∧ c ≤ 'f' then some (c.toNat - 87)
  else if 'A' ≤ c ∧ c ≤ 'F' then some (c.toNat - 55)
  else none

/-- The code unit of four hexadecimal digits and what follows them. -/
def readUnit : List Char → Option (Nat × List Char)
  | a :: b :: c :: d :: rest => do
    let a ← hexValue a
    let b ← hexValue b
    let c ← hexValue c
    let d ← hexValue d
    return (((a * 16 + b) * 16 + c) * 16 + d, rest)
  | _ => none

/-- The low surrogate that a high one needs. -/
def readLow (high : Nat) : List Char → Option (Char × Nat)
  | '\\' :: 'u' :: rest => do
    let (low, _) ← readUnit rest
    if 0xDC00 ≤ low ∧ low < 0xE000 then
      return (Char.ofNat (0x10000 + (high - 0xD800) * 0x400 + (low - 0xDC00)), 11)
    else none
  | _ => none

def simpleEscape (c : Char) : Option Char :=
  if c = '"' ∨ c = '\\' ∨ c = '/' then some c
  else if c = 'b' then some (Char.ofNat 8)
  else if c = 'f' then some (Char.ofNat 12)
  else if c = 'n' then some '\n'
  else if c = 'r' then some '\r'
  else if c = 't' then some '\t'
  else none

/-- The character of an escape and how many characters after the backslash it takes. -/
def readEscape : List Char → Option (Char × Nat)
  | [] => none
  | c :: rest =>
    if c = 'u' then do
      let (unit, rest) ← readUnit rest
      if 0xD800 ≤ unit ∧ unit < 0xDC00 then readLow unit rest
      else if 0xDC00 ≤ unit ∧ unit < 0xE000 then none
      else return (Char.ofNat unit, 5)
    else (simpleEscape c).map fun escaped => (escaped, 1)

/-- The rest of a string after its opening quote; `skip` counts the characters of an
escape still to pass over. -/
def readChars : Nat → List Char → Option (List Char × List Char)
  | _, [] => none
  | skip + 1, _ :: rest => readChars skip rest
  | 0, c :: rest =>
    if c = '"' then some ([], rest)
    else if c = '\\' then
      match readEscape rest with
      | none => none
      | some (escaped, used) =>
        (readChars used rest).map fun (chars, rest) => (escaped :: chars, rest)
    else if c.toNat < 32 then none
    else (readChars 0 rest).map fun (chars, rest) => (c :: chars, rest)

def isJsonBlank (c : Char) : Bool := c = ' ' || c = '\n' || c = '\t' || c = '\r'

def skipBlanks (text : List Char) : List Char := text.dropWhile isJsonBlank

def readString (text : List Char) : Option (String × List Char) :=
  match skipBlanks text with
  | '"' :: rest => (readChars 0 rest).map fun (chars, rest) => (String.ofList chars, rest)
  | _ => none

def readScalar (floats : FloatReader) (text : List Char) : Option (Json × List Char) :=
  match skipBlanks text with
  | 'n' :: 'u' :: 'l' :: 'l' :: rest => some (.null, rest)
  | 't' :: 'r' :: 'u' :: 'e' :: rest => some (.bool true, rest)
  | 'f' :: 'a' :: 'l' :: 's' :: 'e' :: rest => some (.bool false, rest)
  | '"' :: rest => (readString ('"' :: rest)).map fun (s, rest) => (.string s, rest)
  | text => do
    let (numeral, rest) ← readNumeral text
    let number ← readNumber floats numeral
    return (.number number, rest)

/-- Elements up to the closing bracket, at most `fuel` of them. -/
def readItems (value : List Char → Option (Json × List Char)) :
    Nat → List Char → Option (List Json × List Char)
  | 0, _ => none
  | fuel + 1, text => do
    let (item, rest) ← value text
    match skipBlanks rest with
    | ',' :: rest => (readItems value fuel rest).map fun (items, rest) => (item :: items, rest)
    | ']' :: rest => some ([item], rest)
    | _ => none

def readMember (value : List Char → Option (Json × List Char)) (text : List Char) :
    Option ((String × Json) × List Char) := do
  let (name, rest) ← readString text
  match skipBlanks rest with
  | ':' :: rest => (value rest).map fun (member, rest) => ((name, member), rest)
  | _ => none

/-- Members up to the closing brace, at most `fuel` of them. -/
def readMembers (value : List Char → Option (Json × List Char)) :
    Nat → List Char → Option (List (String × Json) × List Char)
  | 0, _ => none
  | fuel + 1, text => do
    let (member, rest) ← readMember value text
    match skipBlanks rest with
    | ',' :: rest => (readMembers value fuel rest).map fun (members, rest) => (member :: members, rest)
    | '}' :: rest => some ([member], rest)
    | _ => none

/-- The members as a map: a repeated name keeps its last value. -/
def Json.ofMembers (members : List (String × Json)) : Json :=
  .object (members.foldl (fun fields member => insertField member.1 member.2 fields) [])

/-- A value with at most this many containers inside each other. -/
def readValue (floats : FloatReader) : Nat → List Char → Option (Json × List Char)
  | 0, text => readScalar floats text
  | containers + 1, text =>
    match skipBlanks text with
    | '[' :: rest =>
      match skipBlanks rest with
      | ']' :: rest => some (.array [], rest)
      | _ => (readItems (readValue floats containers) rest.length rest).map
        fun (items, rest) => (.array items, rest)
    | '{' :: rest =>
      match skipBlanks rest with
      | '}' :: rest => some (.object [], rest)
      | _ => (readMembers (readValue floats containers) rest.length rest).map
        fun (members, rest) => (.ofMembers members, rest)
    | _ => readScalar floats text

/-- The parser's recursion limit of 128 stops at the 128th open container. -/
def maxContainers : Nat := 127

def parseJson (floats : FloatReader) (text : List Char) : Option Json :=
  match readValue floats maxContainers text with
  | some (json, rest) => if skipBlanks rest = [] then some json else none
  | none => none

end Walaru
