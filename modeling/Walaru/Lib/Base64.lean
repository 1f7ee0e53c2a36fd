import Mathlib.Data.List.Basic

/-!
# Base64 with padding

The standard alphabet of RFC 4648. The decoder also takes a last unit without its
padding and ignores the bits that the padding stands for.
-/
namespace Walaru.Lib.Base64

def digit (n : Nat) : Char :=
  if n < 26 then Char.ofNat (65 + n)
  else if n < 52 then Char.ofNat (71 + n)
  else if n < 62 then Char.ofNat (n - 4)
  else if n = 62 then '+'
  else '/'

def value (c : Char) : Option Nat :=
  let n := c.toNat
  if 65 ≤ n && n ≤ 90 then some (n - 65)
  else if 97 ≤ n && n ≤ 122 then some (n - 71)
  else if 48 ≤ n && n ≤ 57 then some (n + 4)
  else if c = '+' then some 62
  else if c = '/' then some 63
  else none

def encode : List UInt8 → List Char
  | [] => []
  | [a] => [digit (a.toNat / 4), digit (a.toNat % 4 * 16), '=', '=']
  | [a, b] =>
    [digit (a.toNat / 4), digit (a.toNat % 4 * 16 + b.toNat / 16), digit (b.toNat % 16 * 4), '=']
  | a :: b :: c :: rest =>
    digit (a.toNat / 4) :: digit (a.toNat % 4 * 16 + b.toNat / 16) ::
      digit (b.toNat % 16 * 4 + c.toNat / 64) :: digit (c.toNat % 64) :: encode rest

/-- The one byte of a last unit of two digits. -/
def lastOne (p q : Char) : Option (List UInt8) := do
  let p ← value p
  let q ← value q
  return [UInt8.ofNat (p * 4 + q / 16)]

/-- The two bytes of a last unit of three digits. -/
def lastTwo (p q r : Char) : Option (List UInt8) := do
  let p ← value p
  let q ← value q
  let r ← value r
  return [UInt8.ofNat (p * 4 + q / 16), UInt8.ofNat (q % 16 * 16 + r / 4)]

def decode : List Char → Option (List UInt8)
  | [] => some []
  | [_] => none
  | [p, q] => lastOne p q
  | [p, q, r] => lastTwo p q r
  | p :: q :: r :: s :: rest =>
    if s = '=' ∧ rest = [] then
      if r = '=' then lastOne p q else lastTwo p q r
    else do
      let p ← value p
      let q ← value q
      let r ← value r
      let s ← value s
      let bytes ← decode rest
      return UInt8.ofNat (p * 4 + q / 16) :: UInt8.ofNat (q % 16 * 16 + r / 4) ::
        UInt8.ofNat (r % 4 * 64 + s) :: bytes

theorem value_digit {n : Nat} (bound : n < 64) : value (digit n) = some n := by
  have table : ∀ m : Fin 64, value (digit m) = some m.val := by decide
  exact table ⟨n, bound⟩

theorem digit_ne_pad {n : Nat} (bound : n < 64) : digit n ≠ '=' := by
  have table : ∀ m : Fin 64, digit m ≠ '=' := by decide
  exact table ⟨n, bound⟩

theorem ofNat_toNat_eq {n : Nat} {a : UInt8} (same : n = a.toNat) : UInt8.ofNat n = a := by
  rw [same, UInt8.ofNat_toNat]

/-- Decoding what was encoded gives the bytes back. -/
theorem decode_encode (bytes : List UInt8) : decode (encode bytes) = some bytes := by
  induction bytes using encode.induct with
  | case1 => rfl
  | case2 a =>
    have boundA := a.toNat_lt
    rw [encode, decode, if_pos ⟨rfl, rfl⟩, if_pos rfl, lastOne, value_digit (by omega),
      value_digit (by omega)]
    simp only [Option.bind_eq_bind, Option.bind_some, pure]
    rw [ofNat_toNat_eq (a := a) (by omega)]
  | case3 a b =>
    have boundA := a.toNat_lt
    have boundB := b.toNat_lt
    rw [encode, decode, if_pos ⟨rfl, rfl⟩, if_neg (digit_ne_pad (by omega)), lastTwo,
      value_digit (by omega), value_digit (by omega), value_digit (by omega)]
    simp only [Option.bind_eq_bind, Option.bind_some, pure]
    rw [ofNat_toNat_eq (a := a) (by omega), ofNat_toNat_eq (a := b) (by omega)]
  | case4 a b c rest ih =>
    have boundA := a.toNat_lt
    have boundB := b.toNat_lt
    have boundC := c.toNat_lt
    have unpadded : ¬ (digit (c.toNat % 64) = '=' ∧ encode rest = []) :=
      fun padded => digit_ne_pad (by omega) padded.1
    rw [encode, decode, if_neg unpadded, value_digit (by omega), value_digit (by omega),
      value_digit (by omega), value_digit (by omega), ih]
    simp only [Option.bind_eq_bind, Option.bind_some, pure]
    rw [ofNat_toNat_eq (a := a) (by omega), ofNat_toNat_eq (a := b) (by omega),
      ofNat_toNat_eq (a := c) (by omega)]

/-- The characters of an encoding. -/
theorem mem_encode {bytes : List UInt8} {c : Char} (inside : c ∈ encode bytes) :
    c = '=' ∨ ∃ n < 64, c = digit n := by
  induction bytes using encode.induct with
  | case1 => cases inside
  | case2 a =>
    have boundA := a.toNat_lt
    simp only [encode, List.mem_cons, List.not_mem_nil, or_false] at inside
    rcases inside with rfl | rfl | rfl | rfl
    · exact .inr ⟨_, by omega, rfl⟩
    · exact .inr ⟨_, by omega, rfl⟩
    · exact .inl rfl
    · exact .inl rfl
  | case3 a b =>
    have boundA := a.toNat_lt
    have boundB := b.toNat_lt
    simp only [encode, List.mem_cons, List.not_mem_nil, or_false] at inside
    rcases inside with rfl | rfl | rfl | rfl
    · exact .inr ⟨_, by omega, rfl⟩
    · exact .inr ⟨_, by omega, rfl⟩
    · exact .inr ⟨_, by omega, rfl⟩
    · exact .inl rfl
  | case4 a b c' rest ih =>
    have boundA := a.toNat_lt
    have boundB := b.toNat_lt
    have boundC := c'.toNat_lt
    simp only [encode, List.mem_cons] at inside
    rcases inside with rfl | rfl | rfl | rfl | later
    · exact .inr ⟨_, by omega, rfl⟩
    · exact .inr ⟨_, by omega, rfl⟩
    · exact .inr ⟨_, by omega, rfl⟩
    · exact .inr ⟨_, by omega, rfl⟩
    · exact ih later

theorem encode_eq_nil {bytes : List UInt8} : encode bytes = [] ↔ bytes = [] := by
  cases bytes using encode.induct <;> simp [encode]

example : encode [0x66, 0x6f, 0x6f, 0x62] = ['Z', 'm', '9', 'v', 'Y', 'g', '=', '='] := by decide

end Walaru.Lib.Base64
