import Mathlib.Data.List.Basic

/-!
# Texts of UTF-16 code units

A text is a list of code units, in which surrogates need not be paired. Decoding
puts a question mark for every unpaired one.
-/
namespace Walaru.Lib.Utf16

def isHigh (u : UInt16) : Bool := 0xD800 ≤ u.toNat && u.toNat < 0xDC00

def isLow (u : UInt16) : Bool := 0xDC00 ≤ u.toNat && u.toNat < 0xE000

/-- A unit on its own. -/
def unitChar (u : UInt16) : Char :=
  if isHigh u || isLow u then '?' else Char.ofNat u.toNat

/-- The character of a high and a low surrogate. -/
def pairChar (high low : UInt16) : Char :=
  Char.ofNat (0x10000 + (high.toNat - 0xD800) * 0x400 + (low.toNat - 0xDC00))

def decode : List UInt16 → List Char
  | [] => []
  | [u] => [unitChar u]
  | u :: v :: rest =>
    if isHigh u && isLow v then pairChar u v :: decode rest else unitChar u :: decode (v :: rest)

def encodeChar (c : Char) : List UInt16 :=
  if c.toNat < 0x10000 then [UInt16.ofNat c.toNat]
  else
    let offset := c.toNat - 0x10000
    [UInt16.ofNat (0xD800 + offset / 0x400), UInt16.ofNat (0xDC00 + offset % 0x400)]

/-- The units of a string. -/
def encode (s : String) : List UInt16 := s.toList.flatMap encodeChar

/-- A text that the text before it cannot pair with. -/
def Detached (text : List UInt16) : Prop := ∀ u, text.head? = some u → isLow u = false

theorem Detached.cons {u : UInt16} (apart : isLow u = false) (rest : List UInt16) :
    Detached (u :: rest) := by
  intro v first
  cases first
  exact apart

theorem decode_cons {u : UInt16} (low : isHigh u = false) (rest : List UInt16) :
    decode (u :: rest) = unitChar u :: decode rest := by
  cases rest with
  | nil => rfl
  | cons v rest => simp [decode, low]

theorem decode_unpaired {u : UInt16} {rest : List UInt16} (apart : Detached rest) :
    decode (u :: rest) = unitChar u :: decode rest := by
  cases rest with
  | nil => rfl
  | cons v rest => simp [decode, apart v rfl]

theorem toNat_ofNat {n : Nat} (bound : n < 0x10000) : (UInt16.ofNat n).toNat = n := by
  rw [UInt16.toNat_ofNat']
  omega

theorem toNat_char {n : Nat} (valid : n.isValidChar) : (Char.ofNat n).toNat = n := by
  rw [Char.ofNat, dif_pos valid]
  rfl

/-- A scalar value is not a surrogate. -/
theorem char_range (c : Char) : c.toNat < 0xD800 ∨ 0xE000 ≤ c.toNat ∧ c.toNat < 0x110000 := by
  have valid := c.valid
  simp only [UInt32.isValidChar, Nat.isValidChar] at valid
  have same : c.val.toNat = c.toNat := rfl
  omega

theorem decode_encodeChar (c : Char) (rest : List UInt16) :
    decode (encodeChar c ++ rest) = c :: decode rest := by
  have range := char_range c
  by_cases small : c.toNat < 0x10000
  · have unit := toNat_ofNat small
    have high : isHigh (UInt16.ofNat c.toNat) = false := by
      simp only [isHigh, unit, Bool.and_eq_false_iff, decide_eq_false_iff_not]
      omega
    have low : isLow (UInt16.ofNat c.toNat) = false := by
      simp only [isLow, unit, Bool.and_eq_false_iff, decide_eq_false_iff_not]
      omega
    rw [encodeChar, if_pos small, List.singleton_append, decode_cons high, unitChar, high, low, unit]
    simp
  · have first : (UInt16.ofNat (0xD800 + (c.toNat - 0x10000) / 0x400)).toNat =
        0xD800 + (c.toNat - 0x10000) / 0x400 := toNat_ofNat (by omega)
    have second : (UInt16.ofNat (0xDC00 + (c.toNat - 0x10000) % 0x400)).toNat =
        0xDC00 + (c.toNat - 0x10000) % 0x400 := toNat_ofNat (by omega)
    have high : isHigh (UInt16.ofNat (0xD800 + (c.toNat - 0x10000) / 0x400)) = true := by
      simp only [isHigh, first, Bool.and_eq_true, decide_eq_true_eq]
      omega
    have low : isLow (UInt16.ofNat (0xDC00 + (c.toNat - 0x10000) % 0x400)) = true := by
      simp only [isLow, second, Bool.and_eq_true, decide_eq_true_eq]
      omega
    have sum : 0x10000 + (0xD800 + (c.toNat - 0x10000) / 0x400 - 0xD800) * 0x400 +
        (0xDC00 + (c.toNat - 0x10000) % 0x400 - 0xDC00) = c.toNat := by
      omega
    rw [encodeChar, if_neg small]
    simp only [List.cons_append, List.nil_append, decode, high, low, Bool.and_self, if_true,
      pairChar, first, second, sum, Char.ofNat_toNat]

theorem decode_encode_append (s : String) (rest : List UInt16) :
    decode (encode s ++ rest) = s.toList ++ decode rest := by
  rw [encode]
  induction s.toList with
  | nil => rfl
  | cons c chars ih =>
    rw [List.flatMap_cons, List.append_assoc, decode_encodeChar, ih, List.cons_append]

theorem decode_encode_self (s : String) : decode (encode s) = s.toList := by
  simpa [decode] using decode_encode_append s []

theorem encode_injective {a b : String} (same : encode a = encode b) : a = b := by
  rw [← String.toList_inj, ← decode_encode_self, ← decode_encode_self, same]

end Walaru.Lib.Utf16
