import Mathlib.Algebra.Order.Ring.Nat
import Mathlib.Data.List.TakeWhile

/-!
# Lossy decoding of UTF-8

Bytes as text in which every maximal ill-formed piece is one replacement character.
-/
namespace Walaru.Lib.Utf8

def isContinuation (b : UInt8) : Bool := 0x80 ≤ b.toNat && b.toNat < 0xC0

/-- How many continuation bytes a lead byte needs, and where the first of them lies. -/
def leadByte (b : UInt8) : Option (Nat × Nat × Nat) :=
  let n := b.toNat
  if 0xC2 ≤ n ∧ n ≤ 0xDF then some (1, 0x80, 0xBF)
  else if n = 0xE0 then some (2, 0xA0, 0xBF)
  else if n = 0xED then some (2, 0x80, 0x9F)
  else if 0xE1 ≤ n ∧ n ≤ 0xEF then some (2, 0x80, 0xBF)
  else if n = 0xF0 then some (3, 0x90, 0xBF)
  else if 0xF1 ≤ n ∧ n ≤ 0xF3 then some (3, 0x80, 0xBF)
  else if n = 0xF4 then some (3, 0x80, 0x8F)
  else none

def leadBits (b : UInt8) (needed : Nat) : Nat := b.toNat % 2 ^ (6 - needed)

/-- The continuation bytes that follow, at most as many as are needed. -/
def continuations (needed low high : Nat) (rest : List UInt8) : List UInt8 :=
  match rest.take needed with
  | [] => []
  | first :: others =>
    if low ≤ first.toNat ∧ first.toNat ≤ high then first :: others.takeWhile isContinuation else []

/-- The first character of bytes that start with this one, and how many more it takes. -/
def firstChar (b : UInt8) (rest : List UInt8) : Char × Nat :=
  if b.toNat < 0x80 then (Char.ofNat b.toNat, 0)
  else
    match leadByte b with
    | none => ('\uFFFD', 0)
    | some (needed, low, high) =>
      let follow := continuations needed low high rest
      if follow.length = needed then
        (Char.ofNat (follow.foldl (fun code c => code * 64 + c.toNat % 64) (leadBits b needed)), needed)
      else ('\uFFFD', follow.length)

/-- `skip` counts the bytes of a character still to pass over. -/
def decodeGo : Nat → List UInt8 → List Char
  | _, [] => []
  | skip + 1, _ :: rest => decodeGo skip rest
  | 0, b :: rest =>
    let (c, more) := firstChar b rest
    c :: decodeGo more rest

/-- The text of these bytes. -/
def decodeLossy (bytes : List UInt8) : String := String.ofList (decodeGo 0 bytes)

theorem toNat_byte {n : Nat} (bound : n < 256) : (UInt8.ofNat n).toNat = n := by
  rw [UInt8.toNat_ofNat']
  omega

/-- A lead byte with the continuation bytes it needs is one character. -/
theorem firstChar_lead {b : UInt8} {needed low high : Nat} {first : UInt8} {others rest : List UInt8}
    (lead : leadByte b = some (needed, low, high)) (large : 0x80 ≤ b.toNat)
    (length : (first :: others).length = needed) (inside : low ≤ first.toNat ∧ first.toNat ≤ high)
    (more : ∀ o ∈ others, isContinuation o = true) :
    firstChar b (first :: others ++ rest) =
      (Char.ofNat ((first :: others).foldl (fun code c => code * 64 + c.toNat % 64)
        (leadBits b needed)), needed) := by
  have taken : (first :: others ++ rest).take needed = first :: others := by
    rw [← length, List.take_left']
    rfl
  have all : others.takeWhile isContinuation = others := by
    exact List.takeWhile_eq_self_iff.mpr more
  have follow : continuations needed low high (first :: others ++ rest) = first :: others := by
    rw [continuations, taken]
    simp only [inside, and_self, if_true, all]
  have small : ¬ b.toNat < 0x80 := by omega
  simp only [firstChar, if_neg small, lead, follow, length, if_true]

theorem isContinuation_ofNat {n : Nat} (range : 0x80 ≤ n ∧ n < 0xC0) :
    isContinuation (UInt8.ofNat n) = true := by
  simp only [isContinuation, toNat_byte (n := n) (by omega), Bool.and_eq_true, decide_eq_true_eq]
  exact range

theorem decodeGo_skip (bytes rest : List UInt8) :
    decodeGo bytes.length (bytes ++ rest) = decodeGo 0 rest := by
  induction bytes with
  | nil => rfl
  | cons b bytes ih => simpa [decodeGo] using ih

/-- The bytes of a well-formed sequence are passed over together. -/
theorem decodeGo_lead {b : UInt8} {rest : List UInt8} {c : Char} (follow : List UInt8)
    (first : firstChar b (follow ++ rest) = (c, follow.length)) :
    decodeGo 0 (b :: follow ++ rest) = c :: decodeGo 0 rest := by
  rw [List.cons_append, decodeGo, first]
  exact congrArg (c :: ·) (decodeGo_skip follow rest)

theorem leadByte_two {v : Nat} (range : 0x80 ≤ v ∧ v ≤ 0x7ff) :
    leadByte (UInt8.ofNat (v / 64 % 32 + 192)) = some (1, 0x80, 0xBF) := by
  have byte := toNat_byte (n := v / 64 % 32 + 192) (by omega)
  have lead : 0xC2 ≤ v / 64 % 32 + 192 ∧ v / 64 % 32 + 192 ≤ 0xDF := by omega
  simp only [leadByte, byte, if_pos lead]

theorem leadByte_three {v : Nat} (range : 0x800 ≤ v ∧ v ≤ 0xffff) (valid : v < 0xd800 ∨ 0xdfff < v) :
    ∃ low high, leadByte (UInt8.ofNat (v / 4096 % 16 + 224)) = some (2, low, high) ∧
      low ≤ v / 64 % 64 + 128 ∧ v / 64 % 64 + 128 ≤ high := by
  have byte := toNat_byte (n := v / 4096 % 16 + 224) (by omega)
  have above : ¬ (0xC2 ≤ v / 4096 % 16 + 224 ∧ v / 4096 % 16 + 224 ≤ 0xDF) := by omega
  simp only [leadByte, byte, if_neg above]
  by_cases least : v / 4096 % 16 + 224 = 0xE0
  · exact ⟨_, _, if_pos least, by omega, by omega⟩
  · rw [if_neg least]
    by_cases surrogate : v / 4096 % 16 + 224 = 0xED
    · exact ⟨_, _, if_pos surrogate, by omega, by omega⟩
    · rw [if_neg surrogate, if_pos (by omega)]
      exact ⟨_, _, rfl, by omega, by omega⟩

theorem leadByte_four {v : Nat} (range : 0x10000 ≤ v ∧ v < 0x110000) :
    ∃ low high, leadByte (UInt8.ofNat (v / 262144 % 8 + 240)) = some (3, low, high) ∧
      low ≤ v / 4096 % 64 + 128 ∧ v / 4096 % 64 + 128 ≤ high := by
  have byte := toNat_byte (n := v / 262144 % 8 + 240) (by omega)
  have two : ¬ (0xC2 ≤ v / 262144 % 8 + 240 ∧ v / 262144 % 8 + 240 ≤ 0xDF) := by omega
  have least3 : ¬ v / 262144 % 8 + 240 = 0xE0 := by omega
  have surrogate : ¬ v / 262144 % 8 + 240 = 0xED := by omega
  have three : ¬ (0xE1 ≤ v / 262144 % 8 + 240 ∧ v / 262144 % 8 + 240 ≤ 0xEF) := by omega
  simp only [leadByte, byte, if_neg two, if_neg least3, if_neg surrogate, if_neg three]
  by_cases least : v / 262144 % 8 + 240 = 0xF0
  · exact ⟨_, _, if_pos least, by omega, by omega⟩
  · rw [if_neg least]
    by_cases middle : 0xF1 ≤ v / 262144 % 8 + 240 ∧ v / 262144 % 8 + 240 ≤ 0xF3
    · exact ⟨_, _, if_pos middle, by omega, by omega⟩
    · rw [if_neg middle, if_pos (by omega)]
      exact ⟨_, _, rfl, by omega, by omega⟩

/-- The encoding of a character is read back. -/
theorem decodeGo_encodeChar (c : Char) (rest : List UInt8) :
    decodeGo 0 (String.utf8EncodeChar c ++ rest) = c :: decodeGo 0 rest := by
  have valid := c.valid
  simp only [UInt32.isValidChar, Nat.isValidChar] at valid
  have code : Char.ofNat c.val.toNat = c := Char.ofNat_toNat c
  unfold String.utf8EncodeChar
  dsimp only
  generalize c.val.toNat = v at *
  split
  · have byte := toNat_byte (n := v) (by omega)
    apply decodeGo_lead []
    simp only [firstChar, byte, if_pos (show v < 0x80 by omega), code]
    rfl
  · split
    · have lead := toNat_byte (n := v / 64 % 32 + 192) (by omega)
      have last := toNat_byte (n := v % 64 + 128) (by omega)
      refine decodeGo_lead [_] ?_
      rw [firstChar_lead (leadByte_two (by omega)) (by omega) rfl (by omega) (by simp), ← code]
      simp only [leadBits, lead, last, List.foldl_cons, List.foldl_nil, List.length_singleton]
      congr 2
      omega
    · split
      · have lead := toNat_byte (n := v / 4096 % 16 + 224) (by omega)
        have middle := toNat_byte (n := v / 64 % 64 + 128) (by omega)
        have last := toNat_byte (n := v % 64 + 128) (by omega)
        obtain ⟨low, high, known, above, below⟩ := leadByte_three (v := v) (by omega) (by omega)
        have inside : low ≤ (UInt8.ofNat (v / 64 % 64 + 128)).toNat ∧
            (UInt8.ofNat (v / 64 % 64 + 128)).toNat ≤ high := by
          rw [middle]
          exact ⟨above, below⟩
        refine decodeGo_lead [_, _] ?_
        rw [firstChar_lead known (by omega) rfl inside
          (List.forall_mem_singleton.mpr (isContinuation_ofNat (by omega))), ← code]
        simp only [leadBits, lead, middle, last, List.foldl_cons, List.foldl_nil, List.length_cons,
          List.length_nil]
        congr 2
        omega
      · have lead := toNat_byte (n := v / 262144 % 8 + 240) (by omega)
        have second := toNat_byte (n := v / 4096 % 64 + 128) (by omega)
        have third := toNat_byte (n := v / 64 % 64 + 128) (by omega)
        have last := toNat_byte (n := v % 64 + 128) (by omega)
        obtain ⟨low, high, known, above, below⟩ := leadByte_four (v := v) (by omega)
        have inside : low ≤ (UInt8.ofNat (v / 4096 % 64 + 128)).toNat ∧
            (UInt8.ofNat (v / 4096 % 64 + 128)).toNat ≤ high := by
          rw [second]
          exact ⟨above, below⟩
        refine decodeGo_lead [_, _, _] ?_
        rw [firstChar_lead known (by omega) rfl inside ?_, ← code]
        · simp only [leadBits, lead, second, third, last, List.foldl_cons, List.foldl_nil,
            List.length_cons, List.length_nil]
          congr 2
          omega
        · simp only [List.forall_mem_cons, List.not_mem_nil, false_imp_iff, implies_true, and_true]
          exact ⟨isContinuation_ofNat (by omega), isContinuation_ofNat (by omega)⟩

/-- Well-formed text is read as it is. -/
theorem decodeLossy_encode (s : String) : decodeLossy (s.toList.flatMap String.utf8EncodeChar) = s := by
  have chars : ∀ chars : List Char, decodeGo 0 (chars.flatMap String.utf8EncodeChar) = chars := by
    intro chars
    induction chars with
    | nil => rfl
    | cons c chars ih => rw [List.flatMap_cons, decodeGo_encodeChar, ih]
  rw [decodeLossy, chars, String.ofList_toList]

end Walaru.Lib.Utf8
