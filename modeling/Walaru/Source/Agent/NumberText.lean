import Walaru.Source.Agent.EventWriter

/-!
# What the texts of numbers denote

`BigInteger.toString` and `BigDecimal.toString` show the exact value; the text is a
numeral that a JSON parser accepts.
-/
namespace Walaru.Agent
open Lib.Decimals

/-- The number that a value is; a NaN and an infinity are none. -/
def Floating.decimal : Floating → Option Decimal
  | .nan => none
  | .infinite _ => none
  | .finite shown => some shown.numeral.decimal

def integerDecimal (value : Int) : Decimal := ⟨value < 0, value.natAbs, 0⟩

def bigDecimal (unscaled scale : Int) : Decimal := ⟨unscaled < 0, unscaled.natAbs, -scale⟩

def JavaNumber.decimal : JavaNumber → Option Decimal
  | .integral _ value => some (integerDecimal value)
  | .float value => value.decimal
  | .double value => value.decimal
  | .bigDecimal unscaled scale => some (Agent.bigDecimal unscaled scale)

/-- Finite and within the range of a double. -/
def JavaNumber.Representable (n : JavaNumber) : Prop :=
  ∃ d, n.decimal = some d ∧ d.Below doubleBound

theorem integerNumeral_valid (value : Int) : (integerNumeral value).Valid where
  whole := isDigits_toDigits _
  leading := toDigits_leading _
  fraction := nofun
  exponent := nofun

theorem integerNumeral_decimal (value : Int) :
    (integerNumeral value).decimal = integerDecimal value := by
  simp [integerNumeral, Numeral.decimal, integerDecimal, exponentValue]

theorem adjustedExponent_value (adjusted : Int) :
    exponentValue (adjustedExponent adjusted) = adjusted := by
  unfold adjustedExponent
  split
  · rename_i zero
    exact zero.symm
  · split
    · simp only [exponentValue, Exponent.value, Nat.ofDigitChars_ten_toDigits, reduceCtorEq, if_false]
      omega
    · simp only [exponentValue, Exponent.value, Nat.ofDigitChars_ten_toDigits, if_true]
      omega

theorem adjustedExponent_digits {adjusted : Int} {e : Exponent}
    (written : adjustedExponent adjusted = some e) : IsDigits e.digits := by
  unfold adjustedExponent at written
  split at written
  · cases written
  · cases written
    exact isDigits_toDigits _

theorem bigDecimalNumeral_valid (unscaled scale : Int) : (bigDecimalNumeral unscaled scale).Valid := by
  have digits := isDigits_toDigits unscaled.natAbs
  have long := List.length_pos_of_ne_nil digits.1
  unfold bigDecimalNumeral
  dsimp only
  split
  · exact integerNumeral_valid unscaled
  · rename_i scaled
    split
    · rename_i plain
      split
      · refine ⟨⟨by simp, by simp⟩, fun _ => rfl, ?_, nofun⟩
        intro c member
        rcases List.mem_append.mp member with zero | digit
        · rw [(List.mem_replicate.mp zero).2]
          rfl
        · exact digits.2 c digit
      · rename_i wide
        refine ⟨⟨?_, ?_⟩, ?_, ?_, nofun⟩
        · intro empty
          have short := congrArg List.length empty
          simp only [List.length_take, List.length_nil] at short
          omega
        · exact fun c member => digits.2 c (List.mem_of_mem_take member)
        · intro zero
          have head : (Nat.toDigits 10 unscaled.natAbs).head? = some '0' := by
            rwa [List.head?_take, if_neg (by omega)] at zero
          have single := toDigits_leading _ head
          rw [single, List.length_singleton] at wide
          omega
        · exact fun c member => digits.2 c (List.mem_of_mem_drop member)
    · refine ⟨⟨?_, ?_⟩, ?_, ?_, ?_⟩
      · intro empty
        have short := congrArg List.length empty
        simp only [List.length_take, List.length_nil] at short
        omega
      · exact fun c member => digits.2 c (List.mem_of_mem_take member)
      · intro zero
        cases run : Nat.toDigits 10 unscaled.natAbs with
        | nil => exact absurd run digits.1
        | cons c rest =>
          rw [run] at zero
          simpa using zero
      · exact fun c member => digits.2 c (List.mem_of_mem_drop member)
      · exact fun e written => adjustedExponent_digits written

/-- The text shows the exact value. -/
theorem bigDecimalNumeral_decimal (unscaled scale : Int) :
    (bigDecimalNumeral unscaled scale).decimal = bigDecimal unscaled scale := by
  have long := List.length_pos_of_ne_nil (isDigits_toDigits unscaled.natAbs).1
  unfold bigDecimalNumeral
  dsimp only
  split
  · rename_i zero
    rw [integerNumeral_decimal, integerDecimal, bigDecimal, zero, Int.neg_zero]
  · rename_i scaled
    split
    · rename_i plain
      split
      · simp only [Numeral.decimal, bigDecimal, exponentValue, Decimal.mk.injEq, true_and]
        refine ⟨?_, ?_⟩
        · rw [List.singleton_append, Nat.ofDigitChars_cons, Nat.ofDigitChars_append,
            Nat.ofDigitChars_replicate_zero]
          simp
        · rw [List.length_append, List.length_replicate]
          omega
      · simp only [Numeral.decimal, bigDecimal, exponentValue, Decimal.mk.injEq, true_and,
          List.take_append_drop, Nat.ofDigitChars_ten_toDigits, List.length_drop]
        omega
    · simp only [Numeral.decimal, bigDecimal, adjustedExponent_value, Decimal.mk.injEq, true_and,
        List.take_append_drop, Nat.ofDigitChars_ten_toDigits, List.length_drop]
      omega

/-- Only a number without a scale is shown as an integer. -/
theorem bigDecimalNumeral_isInteger {unscaled scale : Int} (scaled : scale ≠ 0) :
    (bigDecimalNumeral unscaled scale).isInteger = false := by
  have long := List.length_pos_of_ne_nil (isDigits_toDigits unscaled.natAbs).1
  rw [bigDecimalNumeral, if_neg scaled]
  split
  · split
    · have occupied : (List.replicate (scale.toNat - (Nat.toDigits 10 unscaled.natAbs).length) '0' ++
          Nat.toDigits 10 unscaled.natAbs) ≠ [] := by simp
      simp [Numeral.isInteger, occupied]
    · have occupied : (Nat.toDigits 10 unscaled.natAbs).drop
          ((Nat.toDigits 10 unscaled.natAbs).length - scale.toNat) ≠ [] := by
        rw [ne_eq, List.drop_eq_nil_iff]
        omega
      simp [Numeral.isInteger, occupied]
  · rename_i scientific
    rw [Numeral.isInteger, Bool.and_eq_false_iff]
    by_cases single : (Nat.toDigits 10 unscaled.natAbs).length = 1
    · right
      have moved : -scale + ((Nat.toDigits 10 unscaled.natAbs).length - 1 : Int) ≠ 0 := by omega
      simp [adjustedExponent, moved]
    · left
      rw [List.isEmpty_eq_false_iff, ne_eq, List.drop_eq_nil_iff]
      omega

/-- The numeral of a finite number. -/
def JavaNumber.numeral : JavaNumber → Option Numeral
  | .integral _ value => some (integerNumeral value)
  | .float (.finite shown) => some shown.numeral
  | .double (.finite shown) => some shown.numeral
  | .bigDecimal unscaled scale => some (bigDecimalNumeral unscaled scale)
  | _ => none

theorem JavaNumber.numeral_spec {n : JavaNumber} {numeral : Numeral}
    (written : n.numeral = some numeral) :
    n.text = numeral.text ∧ numeral.Valid ∧ n.decimal = some numeral.decimal := by
  cases n with
  | integral kind value =>
    cases written
    exact ⟨rfl, integerNumeral_valid value, congrArg some (integerNumeral_decimal value).symm⟩
  | float value =>
    cases value with
    | finite shown => cases written; exact ⟨rfl, shown.valid, rfl⟩
    | _ => cases written
  | double value =>
    cases value with
    | finite shown => cases written; exact ⟨rfl, shown.valid, rfl⟩
    | _ => cases written
  | bigDecimal unscaled scale =>
    cases written
    exact ⟨rfl, bigDecimalNumeral_valid unscaled scale,
      congrArg some (bigDecimalNumeral_decimal unscaled scale).symm⟩

/-- A number without a numeral is written as a word. -/
theorem JavaNumber.text_of_no_numeral {n : JavaNumber} (word : n.numeral = none) :
    n.decimal = none ∧ (n.text = ['N', 'a', 'N'] ∨
      n.text = ['I', 'n', 'f', 'i', 'n', 'i', 't', 'y'] ∨
      n.text = ['-', 'I', 'n', 'f', 'i', 'n', 'i', 't', 'y']) := by
  have floating : ∀ value : Floating, (∀ shown, value ≠ .finite shown) →
      value.decimal = none ∧ (value.text = ['N', 'a', 'N'] ∨
        value.text = ['I', 'n', 'f', 'i', 'n', 'i', 't', 'y'] ∨
        value.text = ['-', 'I', 'n', 'f', 'i', 'n', 'i', 't', 'y']) := by
    intro value special
    cases value with
    | nan => exact ⟨rfl, .inl (by decide)⟩
    | infinite negative =>
      cases negative with
      | true => exact ⟨rfl, .inr (.inr (by decide))⟩
      | false => exact ⟨rfl, .inr (.inl (by decide))⟩
    | finite shown => exact absurd rfl (special shown)
  cases n with
  | integral kind value => cases word
  | float value =>
    refine floating value ?_
    rintro shown rfl
    cases word
  | double value =>
    refine floating value ?_
    rintro shown rfl
    cases word
  | bigDecimal unscaled scale => cases word

end Walaru.Agent
