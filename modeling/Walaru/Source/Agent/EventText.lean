import Walaru.Source.Agent.EventWriter

/-!
# The characters of a written event

The writer works on code units; the file holds their characters. Decoding a written
value gives the same text over decoded strings, since every piece that the writer
puts around a string is ASCII.
-/
namespace Walaru.Agent
open Lib.Utf16 Lib.Decimals

/-- The escape of a character. -/
def escapeChar (c : Char) : List Char :=
  if c.toNat = 34 then ['\\', '"']
  else if c.toNat = 92 then ['\\', '\\']
  else if c.toNat = 10 then ['\\', 'n']
  else if c.toNat = 13 then ['\\', 'r']
  else if c.toNat = 9 then ['\\', 't']
  else if c.toNat < 32 then unicodeEscape c.toNat
  else [c]

def stringChars (value : Text) : List Char :=
  '"' :: ((decode value).flatMap escapeChar ++ ['"'])

mutual
def valueChars : EventValue → List Char
  | .null => ['n', 'u', 'l', 'l']
  | .bool value => if value then ['t', 'r', 'u', 'e'] else ['f', 'a', 'l', 's', 'e']
  | .number value => value.text
  | .text value => stringChars value
  | .map fields => '\x7b' :: (fieldsChars fields ++ ['\x7d'])
  | .list items => '[' :: (itemsChars items ++ [']'])
  | .other className => stringChars className

def fieldsChars : List (Text × EventValue) → List Char
  | [] => []
  | [(name, value)] => stringChars name ++ ':' :: valueChars value
  | (name, value) :: next :: fields =>
    stringChars name ++ ':' :: (valueChars value ++ ',' :: fieldsChars (next :: fields))

def itemsChars : List EventValue → List Char
  | [] => []
  | [item] => valueChars item
  | item :: next :: items => valueChars item ++ ',' :: itemsChars (next :: items)
end

theorem unitChar_toNat {u : UInt16} (plain : isHigh u = false ∧ isLow u = false) :
    (unitChar u).toNat = u.toNat := by
  have bound := u.toNat_lt
  have apart := plain
  simp only [isHigh, isLow, Bool.and_eq_false_iff, decide_eq_false_iff_not] at apart
  have valid : u.toNat.isValidChar := by
    simp only [Nat.isValidChar]
    omega
  rw [unitChar, plain.1, plain.2, Bool.or_false, if_neg Bool.false_ne_true,
    toNat_char valid]

/-- A surrogate is written as it is. -/
theorem escape_surrogate {u : UInt16} (surrogate : isHigh u = true ∨ isLow u = true) :
    escape u = [u] := by
  have large : 0xD800 ≤ u.toNat := by
    rcases surrogate with high | low
    · simp only [isHigh, Bool.and_eq_true, decide_eq_true_eq] at high
      omega
    · simp only [isLow, Bool.and_eq_true, decide_eq_true_eq] at low
      omega
  unfold escape
  repeat rw [if_neg (by omega)]

theorem escapeChar_large {c : Char} (large : 0xFF < c.toNat) : escapeChar c = [c] := by
  unfold escapeChar
  repeat rw [if_neg (by omega)]

/-- One escaped unit, with a text behind it that it cannot pair with. -/
theorem decode_escape {u : UInt16} {rest : Text} (apart : isHigh u = true → Detached rest) :
    decode (escape u ++ rest) = escapeChar (unitChar u) ++ decode rest := by
  by_cases surrogate : isHigh u = true ∨ isLow u = true
  · have mark : unitChar u = '?' := by
      rw [unitChar, if_pos]
      rcases surrogate with high | low
      · simp [high]
      · simp [low]
    rw [escape_surrogate surrogate, mark, List.singleton_append]
    have shown : escapeChar '?' = ['?'] := by decide
    rw [shown, List.singleton_append, ← mark]
    by_cases high : isHigh u = true
    · exact decode_unpaired (apart high)
    · exact decode_cons (by simpa using high) rest
  · rw [not_or, Bool.not_eq_true, Bool.not_eq_true] at surrogate
    have same := unitChar_toNat surrogate
    unfold escape escapeChar
    rw [same]
    split
    · exact decode_encode_append _ rest
    · split
      · exact decode_encode_append _ rest
      · split
        · exact decode_encode_append _ rest
        · split
          · exact decode_encode_append _ rest
          · split
            · exact decode_encode_append _ rest
            · split
              · rw [ascii, decode_encode_append, String.toList_ofList]
              · exact decode_cons surrogate.1 rest

/-- An escaped unit that is no low surrogate starts with none. -/
theorem detached_escape {u : UInt16} (apart : isLow u = false) (rest : Text) :
    Detached (escape u ++ rest) := by
  have backslash : ∀ chars : List Char, Detached (ascii (String.ofList ('\\' :: chars)) ++ rest) := by
    intro chars
    have head : ascii (String.ofList ('\\' :: chars)) = 92 :: chars.flatMap encodeChar := by
      rw [ascii, encode, String.toList_ofList, List.flatMap_cons]
      rfl
    rw [head]
    exact Detached.cons (by decide) _
  unfold escape
  split
  · exact backslash ['"']
  · split
    · exact backslash ['\\']
    · split
      · exact backslash ['n']
      · split
        · exact backslash ['r']
        · split
          · exact backslash ['t']
          · split
            · exact backslash _
            · exact Detached.cons apart rest

/-- Escaping and decoding change places. -/
theorem decode_escaped (value : Text) {rest : Text} (apart : Detached rest) :
    decode (value.flatMap escape ++ rest) = (decode value).flatMap escapeChar ++ decode rest := by
  induction value using decode.induct with
  | case1 => rfl
  | case2 u =>
    rw [List.flatMap_singleton, decode, List.flatMap_singleton]
    exact decode_escape fun _ => apart
  | case3 u v value pair ih =>
    have both := Bool.and_eq_true_iff.mp pair
    have first := both.1
    have second := both.2
    have large : escapeChar (pairChar u v) = [pairChar u v] := by
      have high := first
      have low := second
      simp only [isHigh, isLow, Bool.and_eq_true, decide_eq_true_eq] at high low
      refine escapeChar_large ?_
      have valid : (0x10000 + (u.toNat - 0xD800) * 0x400 + (v.toNat - 0xDC00)).isValidChar := by
        simp only [Nat.isValidChar]
        omega
      have value : (pairChar u v).toNat =
          0x10000 + (u.toNat - 0xD800) * 0x400 + (v.toNat - 0xDC00) := by
        rw [pairChar, toNat_char valid]
      omega
    rw [List.flatMap_cons, List.flatMap_cons, escape_surrogate (.inl first),
      escape_surrogate (.inr second)]
    simp only [List.cons_append, List.nil_append, decode, if_pos pair, ih, List.flatMap_cons, large]
  | case4 u v value pair ih =>
    rw [List.flatMap_cons, List.append_assoc, decode_escape, ih]
    · simp only [decode, if_neg pair, List.flatMap_cons, List.append_assoc]
    · intro high
      have low : isLow v = false := by simpa [high] using pair
      rw [List.flatMap_cons, List.append_assoc]
      exact detached_escape low _

theorem decode_ascii (s : String) (rest : Text) :
    decode (ascii s ++ rest) = s.toList ++ decode rest := decode_encode_append s rest

theorem decode_writeString (value : Text) (rest : Text) :
    decode (writeString value ++ rest) = stringChars value ++ decode rest := by
  have quote : ∀ tail : Text, Detached (ascii "\"" ++ tail) := fun tail =>
    Detached.cons (by decide) tail
  rw [writeString, List.append_assoc, List.append_assoc, decode_ascii,
    decode_escaped value (quote rest), decode_ascii]
  simp [stringChars]

mutual
/-- The characters of a written value. -/
theorem decode_writeValue : ∀ (value : EventValue) (rest : Text),
    decode (writeValue value ++ rest) = valueChars value ++ decode rest
  | .null, rest => decode_ascii _ rest
  | .bool value, rest => by
    rw [writeValue, decode_ascii, valueChars]
    cases value <;> rfl
  | .number value, rest => by
    rw [writeValue, decode_ascii, String.toList_ofList, valueChars]
  | .text value, rest => decode_writeString value rest
  | .map fields, rest => by
    rw [writeValue, List.append_assoc, List.append_assoc, decode_ascii, decode_writeFields,
      decode_ascii, valueChars]
    simp
  | .list items, rest => by
    rw [writeValue, List.append_assoc, List.append_assoc, decode_ascii, decode_writeItems,
      decode_ascii, valueChars]
    simp
  | .other className, rest => decode_writeString className rest

theorem decode_writeFields : ∀ (fields : List (Text × EventValue)) (rest : Text),
    decode (writeFields fields ++ rest) = fieldsChars fields ++ decode rest
  | [], _ => rfl
  | [(name, value)], rest => by
    rw [writeFields, List.append_assoc, List.append_assoc, decode_writeString, decode_ascii,
      decode_writeValue, fieldsChars]
    simp
  | (name, value) :: next :: fields, rest => by
    rw [writeFields, List.append_assoc, List.append_assoc, List.append_assoc, List.append_assoc,
      decode_writeString, decode_ascii, decode_writeValue, decode_ascii, decode_writeFields,
      fieldsChars]
    simp

theorem decode_writeItems : ∀ (items : List EventValue) (rest : Text),
    decode (writeItems items ++ rest) = itemsChars items ++ decode rest
  | [], _ => rfl
  | [item], rest => by
    rw [writeItems, decode_writeValue, itemsChars]
  | item :: next :: items, rest => by
    rw [writeItems, List.append_assoc, List.append_assoc, decode_writeValue, decode_ascii,
      decode_writeItems, itemsChars]
    simp
end

/-- The line of an event. -/
theorem eventLine_eq (fields : List (Text × EventValue)) :
    eventLine fields = valueChars (.map fields) ++ ['\n'] := by
  rw [eventLine, decode_writeValue, show ascii "\n" = ascii "\n" ++ [] by simp, decode_ascii]
  rfl

end Walaru.Agent
