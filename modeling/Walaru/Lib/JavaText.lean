import Mathlib.Algebra.Order.Ring.Nat
import Mathlib.Data.List.Basic
import Mathlib.Data.Nat.Basic
import Mathlib.Data.Int.Order.Basic

/-!
# Java strings

Operations of `String` and `Integer` on code units: trimming, lines, the parts around a
separator, and integers in decimal digits.
-/
namespace Walaru.Lib.JavaText

/-- What `trim` removes at both ends. -/
def blank (u : UInt16) : Bool := u.toNat ≤ 32

def trim (text : List UInt16) : List UInt16 :=
  ((text.dropWhile blank).reverse.dropWhile blank).reverse

theorem dropWhile_blank {text : List UInt16} (ends : ∀ u, text.head? = some u → blank u = false) :
    text.dropWhile blank = text := by
  cases text with
  | nil => rfl
  | cons u rest => exact List.dropWhile_cons_of_neg (by simp [ends u rfl])

theorem head?_dropWhile_blank {text : List UInt16} {u : UInt16}
    (first : (text.dropWhile blank).head? = some u) : blank u = false := by
  have stop := List.head?_dropWhile_not blank text
  rw [first] at stop
  simpa using stop

/-- A text that opens and ends with no blank is trimmed. -/
theorem trim_of_ends {text : List UInt16} (opens : ∀ u, text.head? = some u → blank u = false)
    (ends : ∀ u, text.reverse.head? = some u → blank u = false) : trim text = text := by
  rw [trim, dropWhile_blank opens, dropWhile_blank ends, List.reverse_reverse]

theorem trim_trim (text : List UInt16) : trim (trim text) = trim text := by
  refine trim_of_ends ?_ ?_
  · intro u first
    -- The first unit is the first behind the blanks, when the text is not all blank.
    obtain ⟨kept, whole⟩ : trim text <+: text.dropWhile blank := by
      have suffix := List.dropWhile_suffix blank (l := (text.dropWhile blank).reverse)
      rw [← List.reverse_prefix, List.reverse_reverse] at suffix
      exact suffix
    refine @head?_dropWhile_blank text u ?_
    rw [← whole, List.head?_append, first, Option.some_or]
  · intro u last
    rw [trim, List.reverse_reverse] at last
    exact head?_dropWhile_blank last

/-- The end of a trimmed text is trimmed when it opens with no blank. -/
theorem trim_append {before after : List UInt16} {u : UInt16}
    (trimmed : trim (before ++ u :: after) = before ++ u :: after) (occupied : blank u = false) :
    trim (u :: after) = u :: after := by
  refine trim_of_ends ?_ ?_
  · intro v first
    cases first
    exact occupied
  · intro v last
    have shown : (before ++ u :: after).reverse.head? = some v := by
      rw [List.reverse_append, List.head?_append, last, Option.some_or]
    rw [← trimmed, trim, List.reverse_reverse] at shown
    exact head?_dropWhile_blank shown

/-- `\R`, but for a line feed behind a carriage return. -/
def lineBreak (u : UInt16) : Bool :=
  (10 ≤ u.toNat && u.toNat ≤ 13) || u.toNat = 0x85 || u.toNat = 0x2028 || u.toNat = 0x2029

/-- The pieces between line breaks, with the piece so far in reverse. -/
def linePieces (afterReturn : Bool) (piece : List UInt16) : List UInt16 → List (List UInt16)
  | [] => [piece.reverse]
  | u :: rest =>
    if afterReturn && u = 10 then linePieces false piece rest
    else if lineBreak u then piece.reverse :: linePieces (u = 13) [] rest
    else linePieces false (u :: piece) rest

/-- `split("\\R")`, which leaves out empty pieces at the end. -/
def splitLines (text : List UInt16) : List (List UInt16) :=
  if text.any lineBreak then
    ((linePieces false [] text).reverse.dropWhile List.isEmpty).reverse
  else [text]

/-- `\s`. -/
def space (u : UInt16) : Bool := u.toNat = 32 || (9 ≤ u.toNat && u.toNat ≤ 13)

/-- `split("\\s+", 2)`. -/
def splitSpace (text : List UInt16) : List UInt16 × Option (List UInt16) :=
  (text.takeWhile fun u => !space u,
    match text.dropWhile fun u => !space u with
    | [] => none
    | rest => some (rest.dropWhile space))

/-- `split` at one character, with limit 2. -/
def splitAtUnit (separator : UInt16) (text : List UInt16) : List UInt16 × Option (List UInt16) :=
  (text.takeWhile (· ≠ separator),
    match text.dropWhile (· ≠ separator) with
    | [] => none
    | _ :: rest => some rest)

theorem splitAtUnit_append {separator : UInt16} {before : List UInt16} (free : separator ∉ before)
    (after : List UInt16) :
    splitAtUnit separator (before ++ separator :: after) = (before, some after) := by
  have apart : ∀ u ∈ before, decide (u ≠ separator) = true := fun u inside =>
    decide_eq_true fun same => free (same ▸ inside)
  rw [splitAtUnit, List.takeWhile_append_of_pos apart, List.dropWhile_append_of_pos apart,
    List.takeWhile_cons_of_neg (by simp), List.dropWhile_cons_of_neg (by simp), List.append_nil]

theorem splitAtUnit_free {separator : UInt16} {text : List UInt16} (free : separator ∉ text) :
    splitAtUnit separator text = (text, none) := by
  have apart : ∀ u ∈ text, decide (u ≠ separator) = true := fun u inside =>
    decide_eq_true fun same => free (same ▸ inside)
  have whole := @List.takeWhile_append_of_pos _ _ text [] apart
  have rest := @List.dropWhile_append_of_pos _ _ text [] apart
  rw [List.append_nil] at whole rest
  rw [splitAtUnit, whole, rest]
  simp

theorem splitSpace_append {before after : List UInt16} (free : ∀ u ∈ before, space u = false)
    (opens : ∀ u, after.head? = some u → space u = false) :
    splitSpace (before ++ 32 :: after) = (before, some after) := by
  have apart : ∀ u ∈ before, (!space u) = true := fun u inside => by rw [free u inside]; rfl
  have kept : (32 :: after).dropWhile space = after := by
    rw [List.dropWhile_cons_of_pos rfl]
    cases after with
    | nil => rfl
    | cons u after => exact List.dropWhile_cons_of_neg (by simp [opens u rfl])
  rw [splitSpace, List.takeWhile_append_of_pos apart, List.dropWhile_append_of_pos apart,
    List.takeWhile_cons_of_neg (by decide), List.dropWhile_cons_of_neg (by decide), List.append_nil]
  simp only [kept]

/-- The digits 0 of the decimal digits that `Character.digit` knows. -/
def decimalZeros : List Nat :=
  [0x30, 0x660, 0x6F0, 0x7C0, 0x966, 0x9E6, 0xA66, 0xAE6, 0xB66, 0xBE6, 0xC66, 0xCE6, 0xD66, 0xDE6,
    0xE50, 0xED0, 0xF20, 0x1040, 0x1090, 0x17E0, 0x1810, 0x1946, 0x19D0, 0x1A80, 0x1A90, 0x1B50,
    0x1BB0, 0x1C40, 0x1C50, 0xA620, 0xA8D0, 0xA900, 0xA9D0, 0xA9F0, 0xAA50, 0xABF0, 0xFF10]

/-- `Character.digit(u, 10)`. -/
def digitValue (u : UInt16) : Option Nat :=
  (decimalZeros.find? fun start => start ≤ u.toNat && u.toNat < start + 10).map (u.toNat - ·)

def readDigits (text : List UInt16) : Option Nat :=
  if text = [] then none
  else (text.mapM digitValue).map fun digits => digits.foldl (fun n digit => 10 * n + digit) 0

/-- A value of the type `int`. -/
def IsInt (n : Int) : Prop := -2 ^ 31 ≤ n ∧ n < 2 ^ 31

instance (n : Int) : Decidable (IsInt n) := inferInstanceAs (Decidable (_ ∧ _))

/-- `Integer.parseInt`; `none` is a `NumberFormatException`. -/
def parseInt (text : List UInt16) : Option Int :=
  let value : Option Int :=
    match text with
    | [] => none
    | u :: rest =>
      if u = 45 then (readDigits rest).map fun n : Nat => -(n : Int)
      else if u = 43 then (readDigits rest).map Int.ofNat
      else (readDigits (u :: rest)).map Int.ofNat
  value.filter fun n => decide (IsInt n)

/-- The result of `int` arithmetic. -/
def wrap (n : Int) : Int := Int.bmod n (2 ^ 32)

theorem wrap_isInt (n : Int) : IsInt (wrap n) := by
  have low := Int.le_bmod (x := n) (m := 2 ^ 32) (by decide)
  have high := Int.bmod_lt (x := n) (m := 2 ^ 32) (by decide)
  constructor
  · simpa [wrap] using low
  · simpa [wrap] using high

theorem wrap_of_isInt {n : Int} (fits : IsInt n) : wrap n = n := by
  obtain ⟨low, high⟩ := fits
  exact Int.bmod_eq_of_le (by simpa using low) (by simpa using high)

theorem parseInt_isInt {text : List UInt16} {n : Int} (read : parseInt text = some n) : IsInt n :=
  of_decide_eq_true (Option.filter_eq_some_iff.mp read).2

/-- The decimal digits of a number. -/
def decimal (n : Nat) : List UInt16 := (Nat.toDigits 10 n).map fun c => UInt16.ofNat c.toNat

theorem decimal_unit {n : Nat} {u : UInt16} (inside : u ∈ decimal n) : 48 ≤ u.toNat ∧ u.toNat ≤ 57 := by
  obtain ⟨c, member, rfl⟩ := List.mem_map.mp inside
  have digit : c.isDigit = true := Nat.isDigit_of_mem_toDigits (by omega) (by omega) member
  have range : 48 ≤ c.toNat ∧ c.toNat ≤ 57 := by
    simp only [Char.isDigit, Bool.and_eq_true, decide_eq_true_eq, UInt32.le_iff_toNat_le] at digit
    exact digit
  rw [UInt16.toNat_ofNat']
  omega

theorem digitValue_digit {c : Char} (digit : c.isDigit = true) :
    digitValue (UInt16.ofNat c.toNat) = some (c.toNat - '0'.toNat) := by
  have range : 48 ≤ c.toNat ∧ c.toNat ≤ 57 := by
    simp only [Char.isDigit, Bool.and_eq_true, decide_eq_true_eq, UInt32.le_iff_toNat_le] at digit
    exact digit
  have unit : (UInt16.ofNat c.toNat).toNat = c.toNat := by
    rw [UInt16.toNat_ofNat']
    omega
  have found : decimalZeros.find? (fun start => start ≤ c.toNat && c.toNat < start + 10) = some 48 := by
    refine List.find?_cons_of_pos ?_
    simp only [Bool.and_eq_true, decide_eq_true_eq]
    omega
  rw [digitValue, unit, found]
  rfl

theorem readDigits_decimal (n : Nat) : readDigits (decimal n) = some n := by
  have values : ∀ chars : List Char, (∀ c ∈ chars, c.isDigit = true) →
      (chars.map fun c => UInt16.ofNat c.toNat).mapM digitValue =
        some (chars.map fun c => c.toNat - '0'.toNat) := by
    intro chars digits
    induction chars with
    | nil => rfl
    | cons c chars ih =>
      obtain ⟨first, rest⟩ := List.forall_mem_cons.mp digits
      rw [List.map_cons, List.mapM_cons, digitValue_digit first, ih rest]
      rfl
  have occupied : decimal n ≠ [] := by
    rw [decimal, ne_eq, List.map_eq_nil_iff]
    exact Nat.toDigits_ne_nil
  rw [readDigits, if_neg occupied, decimal,
    values _ fun c inside => Nat.isDigit_of_mem_toDigits (by omega) (by omega) inside,
    Option.map_some, List.foldl_map]
  exact congrArg some Nat.ofDigitChars_ten_toDigits

/-- A number in decimal digits is read back when it is an `int`. -/
theorem parseInt_decimal (n : Nat) : parseInt (decimal n) = if n < 2 ^ 31 then some (n : Int) else none := by
  obtain ⟨u, rest, whole⟩ : ∃ u rest, decimal n = u :: rest := by
    refine List.exists_cons_of_ne_nil ?_
    rw [decimal, ne_eq, List.map_eq_nil_iff]
    exact Nat.toDigits_ne_nil
  have digit := decimal_unit (whole ▸ List.mem_cons_self : u ∈ decimal n)
  have minus : u ≠ 45 := fun same => by rw [same] at digit; exact absurd digit.1 (by decide)
  have plus : u ≠ 43 := fun same => by rw [same] at digit; exact absurd digit.1 (by decide)
  have read : parseInt (decimal n) = (some (n : Int)).filter fun n => decide (IsInt n) := by
    unfold parseInt
    rw [whole]
    dsimp only
    rw [if_neg minus, if_neg plus, ← whole, readDigits_decimal, Option.map_some]
    rfl
  rw [read]
  by_cases fits : n < 2 ^ 31
  · have small : IsInt n := ⟨by omega, by omega⟩
    rw [if_pos fits, Option.filter_some, if_pos (decide_eq_true small)]
  · have large : ¬IsInt n := fun small => fits (by have := small.2; omega)
    rw [if_neg fits, Option.filter_some, if_neg (by simpa using large)]

end Walaru.Lib.JavaText
