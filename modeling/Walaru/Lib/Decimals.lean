import Mathlib.Algebra.Order.Ring.Nat
import Mathlib.Data.List.Basic
import Mathlib.Data.Nat.Basic

/-!
# Decimal numerals

The text of a number: an optional minus sign, the whole digits, an optional fraction
and an optional exponent. What is read of a written numeral is the numeral, with
any text behind it that cannot continue a number.
-/
namespace Walaru.Lib.Decimals

inductive Sign where
  | absent | plus | minus
  deriving DecidableEq, Repr

def Sign.text : Sign → List Char
  | .absent => []
  | .plus => ['+']
  | .minus => ['-']

structure Exponent where
  sign : Sign
  digits : List Char
  deriving DecidableEq, Repr

/-- An empty fraction is an absent one. -/
structure Numeral where
  negative : Bool
  whole : List Char
  fraction : List Char
  exponent : Option Exponent
  deriving DecidableEq, Repr

def Exponent.text (e : Exponent) : List Char := 'E' :: (e.sign.text ++ e.digits)

def fractionText (fraction : List Char) : List Char :=
  if fraction = [] then [] else '.' :: fraction

def exponentText : Option Exponent → List Char
  | none => []
  | some e => e.text

def Numeral.text (n : Numeral) : List Char :=
  (if n.negative then ['-'] else []) ++ n.whole ++ fractionText n.fraction ++ exponentText n.exponent

/-- At least one digit and nothing else. -/
def IsDigits (run : List Char) : Prop := run ≠ [] ∧ ∀ c ∈ run, c.isDigit = true

structure Numeral.Valid (n : Numeral) : Prop where
  whole : IsDigits n.whole
  leading : n.whole.head? = some '0' → n.whole = ['0']
  fraction : ∀ c ∈ n.fraction, c.isDigit = true
  exponent : ∀ e, n.exponent = some e → IsDigits e.digits

/-- A decimal number: `significand * 10 ^ exponent` with a sign. -/
structure Decimal where
  negative : Bool
  significand : Nat
  exponent : Int
  deriving DecidableEq, Repr

/-- The magnitude is below this bound. -/
def Decimal.Below (d : Decimal) (bound : Nat) : Prop :=
  d.significand * 10 ^ d.exponent.toNat < bound * 10 ^ (-d.exponent).toNat

instance (d : Decimal) (bound : Nat) : Decidable (d.Below bound) :=
  inferInstanceAs (Decidable (_ < _))

/-- What rounds to a finite double is below this bound. -/
def doubleBound : Nat := 2 ^ 1024 - 2 ^ 970

def Exponent.value (e : Exponent) : Int :=
  if e.sign = .minus then -(Nat.ofDigitChars 10 e.digits 0 : Int) else Nat.ofDigitChars 10 e.digits 0

def exponentValue : Option Exponent → Int
  | none => 0
  | some e => e.value

def Numeral.decimal (n : Numeral) : Decimal where
  negative := n.negative
  significand := Nat.ofDigitChars 10 (n.whole ++ n.fraction) 0
  exponent := exponentValue n.exponent - n.fraction.length

/-- Neither a fraction nor an exponent. -/
def Numeral.isInteger (n : Numeral) : Bool := n.fraction.isEmpty && n.exponent.isNone

/-- A run of digits and what follows it. -/
def spanDigits (text : List Char) : List Char × List Char :=
  (text.takeWhile Char.isDigit, text.dropWhile Char.isDigit)

/-- No digit follows a leading zero. -/
def readWhole (text : List Char) : Option (List Char × List Char) :=
  match spanDigits text with
  | ([], _) => none
  | ('0' :: _ :: _, _) => none
  | run => some run

def readFraction : List Char → Option (List Char × List Char)
  | '.' :: rest =>
    match spanDigits rest with
    | ([], _) => none
    | run => some run
  | text => some ([], text)

def readSign : List Char → Sign × List Char
  | '+' :: rest => (.plus, rest)
  | '-' :: rest => (.minus, rest)
  | text => (.absent, text)

def readExponent : List Char → Option (Option Exponent × List Char)
  | [] => some (none, [])
  | c :: rest =>
    if c = 'e' ∨ c = 'E' then
      let (sign, rest) := readSign rest
      match spanDigits rest with
      | ([], _) => none
      | (digits, rest) => some (some ⟨sign, digits⟩, rest)
    else some (none, c :: rest)

def readMinus : List Char → Bool × List Char
  | '-' :: rest => (true, rest)
  | text => (false, text)

def readNumeral (text : List Char) : Option (Numeral × List Char) := do
  let (negative, text) := readMinus text
  let (whole, text) ← readWhole text
  let (fraction, text) ← readFraction text
  let (exponent, text) ← readExponent text
  return (⟨negative, whole, fraction, exponent⟩, text)

/-- What cannot continue a number. -/
def Stops (rest : List Char) : Prop :=
  ∀ c, rest.head? = some c → c.isDigit = false ∧ c ≠ '.' ∧ c ≠ 'e' ∧ c ≠ 'E'

/-- A run of digits is read whole in front of anything but a digit. -/
theorem spanDigits_append {run rest : List Char} (digits : ∀ c ∈ run, c.isDigit = true)
    (stop : ∀ c, rest.head? = some c → c.isDigit = false) : spanDigits (run ++ rest) = (run, rest) := by
  induction run with
  | nil =>
    cases rest with
    | nil => rfl
    | cons c rest => simp [spanDigits, stop c rfl]
  | cons c run ih =>
    rw [List.forall_mem_cons] at digits
    have tail := ih digits.2
    simp only [spanDigits, Prod.mk.injEq] at tail
    simp [spanDigits, digits.1, tail.1, tail.2]

theorem readWhole_append {whole rest : List Char} (digits : IsDigits whole)
    (leading : whole.head? = some '0' → whole = ['0'])
    (stop : ∀ c, rest.head? = some c → c.isDigit = false) :
    readWhole (whole ++ rest) = some (whole, rest) := by
  rw [readWhole, spanDigits_append digits.2 stop]
  split
  · rename_i same
    exact absurd (Prod.mk.inj same).1 digits.1
  · rename_i same
    obtain ⟨rfl, -⟩ := Prod.mk.inj same
    cases leading rfl
  · rfl

theorem readFraction_append {fraction rest : List Char} (digits : ∀ c ∈ fraction, c.isDigit = true)
    (stop : ∀ c, rest.head? = some c → c.isDigit = false ∧ c ≠ '.') :
    readFraction (fractionText fraction ++ rest) = some (fraction, rest) := by
  by_cases empty : fraction = []
  · subst empty
    cases rest with
    | nil => rfl
    | cons c rest =>
      have point := (stop c rfl).2
      simp only [fractionText, if_pos, List.nil_append]
      unfold readFraction
      split
      · rename_i same
        exact absurd (List.cons.inj same).1 point
      · rfl
  · rw [fractionText, if_neg empty, List.cons_append, readFraction,
      spanDigits_append digits fun c here => (stop c here).1]
    split
    · rename_i same
      exact absurd (Prod.mk.inj same).1 empty
    · rfl

theorem readSign_text {sign : Sign} {digits rest : List Char} (run : IsDigits digits) :
    readSign (sign.text ++ digits ++ rest) = (sign, digits ++ rest) := by
  obtain ⟨occupied, numeric⟩ := run
  cases digits with
  | nil => exact absurd rfl occupied
  | cons c digits =>
    have digit := numeric c (by simp)
    cases sign with
    | absent =>
      simp only [Sign.text, List.nil_append, List.cons_append]
      unfold readSign
      split
      · rename_i same
        obtain ⟨rfl, -⟩ := List.cons.inj same
        cases digit
      · rename_i same
        obtain ⟨rfl, -⟩ := List.cons.inj same
        cases digit
      · rfl
    | plus => rfl
    | minus => rfl

theorem readExponent_append {exponent : Option Exponent} {rest : List Char}
    (digits : ∀ e, exponent = some e → IsDigits e.digits) (stop : Stops rest) :
    readExponent (exponentText exponent ++ rest) = some (exponent, rest) := by
  cases exponent with
  | none =>
    cases rest with
    | nil => rfl
    | cons c rest =>
      obtain ⟨-, -, lower, upper⟩ := stop c rfl
      simp [exponentText, readExponent, lower, upper]
  | some e =>
    have run := digits e rfl
    rw [exponentText, Exponent.text, List.cons_append, readExponent, if_pos (.inr rfl),
      readSign_text run]
    simp only [spanDigits_append run.2 fun c here => (stop c here).1]
    split
    · rename_i same
      exact absurd (Prod.mk.inj same).1 run.1
    · rename_i same
      obtain ⟨rfl, rfl⟩ := Prod.mk.inj same
      rfl

theorem fractionText_head {fraction rest : List Char} {c : Char}
    (first : (fractionText fraction ++ rest).head? = some c) :
    c = '.' ∨ fraction = [] ∧ rest.head? = some c := by
  by_cases empty : fraction = []
  · rw [fractionText, if_pos empty] at first
    exact .inr ⟨empty, first⟩
  · rw [fractionText, if_neg empty, List.cons_append, List.head?_cons, Option.some.injEq] at first
    exact .inl first.symm

theorem exponentText_head {exponent : Option Exponent} {rest : List Char} {c : Char}
    (first : (exponentText exponent ++ rest).head? = some c) : c = 'E' ∨ rest.head? = some c := by
  cases exponent with
  | none => exact .inr first
  | some e => exact .inl (Option.some.inj first).symm

/-- A written numeral is read back. -/
theorem readNumeral_text {n : Numeral} (valid : n.Valid) {rest : List Char} (stop : Stops rest) :
    readNumeral (n.text ++ rest) = some (n, rest) := by
  have tail : ∀ c, (exponentText n.exponent ++ rest).head? = some c →
      c.isDigit = false ∧ c ≠ '.' := by
    intro c first
    rcases exponentText_head first with rfl | first
    · decide
    · exact ⟨(stop c first).1, (stop c first).2.1⟩
  have after_ : ∀ c, (fractionText n.fraction ++ (exponentText n.exponent ++ rest)).head? = some c →
      c.isDigit = false := by
    intro c first
    rcases fractionText_head first with rfl | ⟨-, first⟩
    · decide
    · exact (tail c first).1
  have minus : readMinus (n.text ++ rest) =
      (n.negative, n.whole ++ (fractionText n.fraction ++ (exponentText n.exponent ++ rest))) := by
    rw [Numeral.text]
    cases sign : n.negative with
    | true => simp [readMinus]
    | false =>
      obtain ⟨occupied, numeric⟩ := valid.whole
      cases whole : n.whole with
      | nil => exact absurd whole occupied
      | cons c digits =>
        have digit := numeric c (by simp [whole])
        simp only [Bool.false_eq_true, if_false, List.nil_append, List.cons_append, List.append_assoc]
        unfold readMinus
        split
        · rename_i same
          obtain ⟨rfl, -⟩ := List.cons.inj same
          cases digit
        · rfl
  simp [readNumeral, minus, readWhole_append valid.whole valid.leading after_,
    readFraction_append valid.fraction tail, readExponent_append valid.exponent stop]

theorem isDigits_toDigits (n : Nat) : IsDigits (Nat.toDigits 10 n) :=
  ⟨Nat.toDigits_ne_nil, fun _ member => Nat.isDigit_of_mem_toDigits (by decide) (by decide) member⟩

/-- Only zero is written with a leading zero. -/
theorem toDigits_head (n : Nat) (zero : (Nat.toDigits 10 n).head? = some '0') : n = 0 := by
  induction n using Nat.strongRecOn with
  | _ n ih =>
    rw [Nat.toDigits_eq_if (by decide)] at zero
    split at zero
    · simpa using zero
    · rename_i large
      have head : (Nat.toDigits 10 (n / 10)).head? = some '0' := by
        cases digits : Nat.toDigits 10 (n / 10) with
        | nil => exact absurd digits Nat.toDigits_ne_nil
        | cons c rest =>
          rw [digits] at zero
          simpa using zero
      have small := ih (n / 10) (by omega) head
      omega

theorem toDigits_leading (n : Nat) (zero : (Nat.toDigits 10 n).head? = some '0') :
    Nat.toDigits 10 n = ['0'] := by
  rw [toDigits_head n zero, Nat.toDigits_zero]

end Walaru.Lib.Decimals
