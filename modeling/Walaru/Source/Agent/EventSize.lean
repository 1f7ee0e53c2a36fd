import Walaru.Source.Core.JsonWrite
import Walaru.Source.Agent.EventText
import Walaru.Source.Agent.NumberText

/-!
# How long a written value is

What the writer's pieces take in UTF-8: an escaped character, a string between quotes,
a number's text, and containers from the sizes of what they hold.
-/
namespace Walaru.Agent
open Lib.Utf16 Lib.Decimals Lib.Text

/-- What characters take in UTF-8. -/
def charsBytes (chars : List Char) : Nat := (chars.map Char.utf8Size).sum

@[simp] theorem charsBytes_nil : charsBytes [] = 0 := rfl

@[simp] theorem charsBytes_cons (c : Char) (chars : List Char) :
    charsBytes (c :: chars) = c.utf8Size + charsBytes chars := by
  simp [charsBytes]

@[simp] theorem charsBytes_append (a b : List Char) :
    charsBytes (a ++ b) = charsBytes a + charsBytes b := by
  simp [charsBytes]

/-- Visible ASCII, which takes one byte and is no line terminator. -/
def PlainChar (c : Char) : Prop := 32 < c.toNat ∧ c.toNat < 127

instance (c : Char) : Decidable (PlainChar c) := by
  unfold PlainChar
  infer_instance

theorem plain_of_all {chars : List Char}
    (every : chars.all (fun c => 32 < c.toNat && c.toNat < 127) = true) :
    ∀ c ∈ chars, PlainChar c := by
  intro c member
  simpa [PlainChar] using List.all_eq_true.mp every c member

theorem PlainChar.utf8Size {c : Char} (plain : PlainChar c) : c.utf8Size = 1 := by
  rw [Char.utf8Size_eq_one_iff, UInt32.le_iff_toNat_le]
  have bound := plain.2
  rw [Char.toNat] at bound
  change c.val.toNat ≤ 127
  omega

theorem charsBytes_plain {chars : List Char} (plain : ∀ c ∈ chars, PlainChar c) :
    charsBytes chars = chars.length := by
  induction chars with
  | nil => rfl
  | cons c chars ih =>
    obtain ⟨own, rest⟩ := List.forall_mem_cons.mp plain
    rw [charsBytes_cons, own.utf8Size, ih rest, List.length_cons, Nat.add_comm]

/-- What a character takes between quotes. -/
def writtenBytes (c : Char) : Nat :=
  if c.toNat = 34 ∨ c.toNat = 92 ∨ c.toNat = 10 ∨ c.toNat = 13 ∨ c.toNat = 9 then 2
  else if c.toNat < 32 then 6
  else c.utf8Size

/-- What a string takes with its quotes. -/
def textBytes (value : Text) : Nat := 2 + ((decode value).map writtenBytes).sum

theorem plain_digitChar {n : Nat} (digit : n < 16) : PlainChar (Nat.digitChar n) := by
  have table : ∀ i : Fin 16, PlainChar (Nat.digitChar i) := by decide
  exact table ⟨n, digit⟩

theorem plain_unicodeEscape {code : Nat} (unit : code < 65536) :
    ∀ c ∈ unicodeEscape code, PlainChar c := by
  simp only [unicodeEscape, List.forall_mem_cons]
  exact ⟨by decide, by decide, plain_digitChar (by omega), plain_digitChar (by omega),
    plain_digitChar (by omega), plain_digitChar (by omega), nofun⟩

theorem charsBytes_escapeChar (c : Char) : charsBytes (escapeChar c) = writtenBytes c := by
  have two : ∀ letter : Char, PlainChar letter → charsBytes ['\\', letter] = 2 := by
    intro letter plain
    rw [charsBytes_cons, charsBytes_cons, plain.utf8Size]
    rfl
  unfold writtenBytes
  by_cases short : c.toNat = 34 ∨ c.toNat = 92 ∨ c.toNat = 10 ∨ c.toNat = 13 ∨ c.toNat = 9
  · rw [if_pos short]
    unfold escapeChar
    rcases short with same | same | same | same | same
    all_goals
      simp only [same, Nat.reduceEqDiff, if_true, if_false]
      exact two _ (by decide)
  · simp only [not_or] at short
    rw [if_neg (by omega), escapeChar, if_neg short.1, if_neg short.2.1, if_neg short.2.2.1,
      if_neg short.2.2.2.1, if_neg short.2.2.2.2]
    split
    · exact charsBytes_plain (plain_unicodeEscape (by omega))
    · simp

theorem charsBytes_stringChars (value : Text) : charsBytes (stringChars value) = textBytes value := by
  have quote : ('"' : Char).utf8Size = 1 := rfl
  have inside : ∀ chars : List Char,
      charsBytes (chars.flatMap escapeChar) = (chars.map writtenBytes).sum := by
    intro chars
    induction chars with
    | nil => rfl
    | cons c chars ih =>
      rw [List.flatMap_cons, charsBytes_append, charsBytes_escapeChar, ih, List.map_cons,
        List.sum_cons]
  rw [stringChars, charsBytes_cons, charsBytes_append, inside, charsBytes_cons, quote, textBytes,
    charsBytes_nil]
  omega

theorem plain_digit {c : Char} (digit : c.isDigit = true) : PlainChar c := by
  simp only [Char.isDigit, Bool.and_eq_true, decide_eq_true_eq, UInt32.le_iff_toNat_le] at digit
  obtain ⟨low, high⟩ := digit
  change 48 ≤ c.toNat at low
  change c.toNat ≤ 57 at high
  exact ⟨by omega, by omega⟩

theorem plain_numeral {numeral : Numeral} (valid : numeral.Valid) :
    ∀ c ∈ numeral.text, PlainChar c := by
  have fraction : ∀ c ∈ fractionText numeral.fraction, PlainChar c := by
    unfold fractionText
    split
    · exact nofun
    · exact List.forall_mem_cons.mpr ⟨by decide, fun c member => plain_digit (valid.fraction c member)⟩
  have exponent : ∀ c ∈ exponentText numeral.exponent, PlainChar c := by
    cases written : numeral.exponent with
    | none => exact nofun
    | some e =>
      have digits := valid.exponent e written
      refine List.forall_mem_cons.mpr ⟨by decide, List.forall_mem_append.mpr ⟨?_, ?_⟩⟩
      · cases e.sign with
        | absent => exact nofun
        | plus => exact List.forall_mem_singleton.mpr (by decide)
        | minus => exact List.forall_mem_singleton.mpr (by decide)
      · exact fun c member => plain_digit (digits.2 c member)
  have sign : ∀ c ∈ (if numeral.negative then ['-'] else []), PlainChar c := by
    split
    · exact List.forall_mem_singleton.mpr (by decide)
    · exact nofun
  rw [Numeral.text]
  exact List.forall_mem_append.mpr ⟨List.forall_mem_append.mpr ⟨List.forall_mem_append.mpr
    ⟨sign, fun c member => plain_digit (valid.whole.2 c member)⟩, fraction⟩, exponent⟩

theorem plain_number (n : JavaNumber) : ∀ c ∈ n.text, PlainChar c := by
  cases written : n.numeral with
  | some numeral =>
    obtain ⟨text, valid, -⟩ := JavaNumber.numeral_spec written
    rw [text]
    exact plain_numeral valid
  | none =>
    obtain ⟨-, word | word | word⟩ := JavaNumber.text_of_no_numeral written
    all_goals
      rw [word]
      exact plain_of_all (by decide)

def boolBytes (value : Bool) : Nat := if value then 4 else 5

/-- A container of items of these sizes, with its brackets and commas. -/
def containerBytes (sizes : List Nat) : Nat := 2 + separatedBytes sizes

/-- A named item of a container. -/
def memberBytes (name : Text) (bytes : Nat) : Nat := textBytes name + 1 + bytes

mutual
/-- What a written value takes. -/
def valueBytes : EventValue → Nat
  | .null => 4
  | .bool value => boolBytes value
  | .number value => value.text.length
  | .text value => textBytes value
  | .map fields => containerBytes (fieldSizes fields)
  | .list items => containerBytes (itemSizes items)
  | .other className => textBytes className

def fieldSizes : List (Text × EventValue) → List Nat
  | [] => []
  | (name, value) :: fields => memberBytes name (valueBytes value) :: fieldSizes fields

def itemSizes : List EventValue → List Nat
  | [] => []
  | item :: items => valueBytes item :: itemSizes items
end

theorem fieldSizes_eq (fields : List (Text × EventValue)) :
    fieldSizes fields = fields.map fun field => memberBytes field.1 (valueBytes field.2) := by
  induction fields with
  | nil => rfl
  | cons field fields ih => rw [fieldSizes, ih, List.map_cons]

theorem itemSizes_eq (items : List EventValue) : itemSizes items = items.map valueBytes := by
  induction items with
  | nil => rfl
  | cons item items ih => rw [itemSizes, ih, List.map_cons]

theorem separatedBytes_cons (n m : Nat) (sizes : List Nat) :
    separatedBytes (n :: m :: sizes) = n + 1 + separatedBytes (m :: sizes) := by
  simp only [separatedBytes, List.sum_cons, List.length_cons]
  omega

mutual
theorem charsBytes_valueChars : ∀ value : EventValue, charsBytes (valueChars value) = valueBytes value
  | .null => rfl
  | .bool value => by cases value <;> rfl
  | .number value => charsBytes_plain (plain_number value)
  | .text value => charsBytes_stringChars value
  | .map fields => by
    have marks : ('\x7b' : Char).utf8Size = 1 ∧ ('\x7d' : Char).utf8Size = 1 := ⟨rfl, rfl⟩
    rw [valueChars, charsBytes_cons, charsBytes_append, charsBytes_fieldsChars fields, charsBytes_cons,
      marks.1, marks.2, charsBytes_nil, valueBytes, containerBytes]
    omega
  | .list items => by
    have marks : ('[' : Char).utf8Size = 1 ∧ (']' : Char).utf8Size = 1 := ⟨rfl, rfl⟩
    rw [valueChars, charsBytes_cons, charsBytes_append, charsBytes_itemsChars items, charsBytes_cons,
      marks.1, marks.2, charsBytes_nil, valueBytes, containerBytes]
    omega
  | .other className => charsBytes_stringChars className

theorem charsBytes_fieldsChars : ∀ fields : List (Text × EventValue),
    charsBytes (fieldsChars fields) = separatedBytes (fieldSizes fields)
  | [] => rfl
  | [(name, value)] => by
    have colon : (':' : Char).utf8Size = 1 := rfl
    rw [fieldsChars, charsBytes_append, charsBytes_stringChars, charsBytes_cons,
      charsBytes_valueChars value, colon]
    simp only [fieldSizes, memberBytes, separatedBytes, List.sum_cons, List.sum_nil,
      List.length_cons, List.length_nil]
    omega
  | (name, value) :: next :: fields => by
    have marks : (':' : Char).utf8Size = 1 ∧ (',' : Char).utf8Size = 1 := ⟨rfl, rfl⟩
    have rest := charsBytes_fieldsChars (next :: fields)
    rw [fieldsChars, charsBytes_append, charsBytes_stringChars, charsBytes_cons, charsBytes_append,
      charsBytes_valueChars value, charsBytes_cons, rest, marks.1, marks.2]
    simp only [fieldSizes_eq, List.map_cons, separatedBytes_cons, memberBytes]
    omega

theorem charsBytes_itemsChars : ∀ items : List EventValue,
    charsBytes (itemsChars items) = separatedBytes (itemSizes items)
  | [] => rfl
  | [item] => by
    rw [itemsChars, charsBytes_valueChars item]
    simp [itemSizes, separatedBytes]
  | item :: next :: items => by
    have comma : (',' : Char).utf8Size = 1 := rfl
    have rest := charsBytes_itemsChars (next :: items)
    rw [itemsChars, charsBytes_append, charsBytes_valueChars item, charsBytes_cons, rest, comma]
    simp only [itemSizes_eq, List.map_cons, separatedBytes_cons]
    omega
end

/-- The bytes that `EventWriter.write` appends. -/
def writtenEvent (fields : List (Text × EventValue)) : List UInt8 :=
  utf8 (String.ofList (eventLine fields))

theorem length_utf8 (chars : List Char) : (utf8 (String.ofList chars)).length = charsBytes chars := by
  rw [utf8, String.toList_ofList, charsBytes, List.length_flatMap]
  congr 1
  exact List.map_congr_left fun c _ => String.length_utf8EncodeChar c

/-- Only a newline is encoded with the byte of a newline. -/
theorem newline_utf8EncodeChar {c : Char} (newline : 10 ∈ String.utf8EncodeChar c) : c = '\n' := by
  have byte : ∀ n : Nat, 10 = UInt8.ofNat n → n % 256 = 10 := by
    intro n same
    have value := congrArg UInt8.toNat same
    rw [UInt8.toNat_ofNat'] at value
    exact value.symm
  unfold String.utf8EncodeChar at newline
  dsimp only at newline
  split at newline
  · have value := byte _ (List.mem_singleton.mp newline)
    have code : c.toNat = 10 := by
      change c.val.toNat = 10
      omega
    rw [← Char.ofNat_toNat c, code]
  · exfalso
    split at newline
    · simp only [List.mem_cons, List.not_mem_nil, or_false] at newline
      rcases newline with same | same
      all_goals
        have value := byte _ same
        omega
    · split at newline
      · simp only [List.mem_cons, List.not_mem_nil, or_false] at newline
        rcases newline with same | same | same
        all_goals
          have value := byte _ same
          omega
      · simp only [List.mem_cons, List.not_mem_nil, or_false] at newline
        rcases newline with same | same | same | same
        all_goals
          have value := byte _ same
          omega

theorem PlainChar.visible {chars : List Char} (plain : ∀ c ∈ chars, PlainChar c) :
    '\n' ∉ chars := fun member => absurd (plain _ member) (by decide)

theorem newline_escapeChar (c : Char) : '\n' ∉ escapeChar c := by
  by_cases control : c.toNat < 32
  · unfold escapeChar
    split_ifs
    all_goals first
      | exact PlainChar.visible (plain_unicodeEscape (by omega))
      | decide
  · have escaped : escapeChar c = ['\\', '"'] ∨ escapeChar c = ['\\', '\\'] ∨ escapeChar c = [c] := by
      unfold escapeChar
      split_ifs
      all_goals first
        | omega
        | simp
    rcases escaped with same | same | same
    · rw [same]
      decide
    · rw [same]
      decide
    · rw [same, List.mem_singleton]
      rintro rfl
      exact control (by decide)

theorem newline_stringChars (value : Text) : '\n' ∉ stringChars value := by
  have marks : '\n' ≠ '"' := by decide
  simp only [stringChars, List.mem_cons, List.mem_append, List.mem_flatMap, List.not_mem_nil, marks,
    false_or, or_false, not_exists, not_and]
  exact fun c _ => newline_escapeChar c

mutual
/-- A written value is one line. -/
theorem newline_valueChars : ∀ value : EventValue, '\n' ∉ valueChars value
  | .null => by decide
  | .bool value => by cases value <;> decide
  | .number value => PlainChar.visible (plain_number value)
  | .text value => newline_stringChars value
  | .map fields => by
    have inside := newline_fieldsChars fields
    simp [valueChars, inside]
  | .list items => by
    have inside := newline_itemsChars items
    simp [valueChars, inside]
  | .other className => newline_stringChars className

theorem newline_fieldsChars : ∀ fields : List (Text × EventValue), '\n' ∉ fieldsChars fields
  | [] => nofun
  | [(name, value)] => by
    have first := newline_stringChars name
    have second := newline_valueChars value
    simp [fieldsChars, first, second]
  | (name, value) :: next :: fields => by
    have first := newline_stringChars name
    have second := newline_valueChars value
    have rest := newline_fieldsChars (next :: fields)
    simp [fieldsChars, first, second, rest]

theorem newline_itemsChars : ∀ items : List EventValue, '\n' ∉ itemsChars items
  | [] => nofun
  | [item] => newline_valueChars item
  | item :: next :: items => by
    have first := newline_valueChars item
    have rest := newline_itemsChars (next :: items)
    simp [itemsChars, first, rest]
end

/-- The written event is its text, one newline, and no newline before. -/
theorem writtenEvent_line (fields : List (Text × EventValue)) :
    ∃ line, writtenEvent fields = line ++ [10] ∧ 10 ∉ line ∧
      line.length = valueBytes (.map fields) := by
  refine ⟨utf8 (String.ofList (valueChars (.map fields))), ?_, ?_, ?_⟩
  · simp only [writtenEvent, eventLine_eq, utf8, String.toList_ofList, List.flatMap_append]
    rfl
  · intro member
    rw [utf8, String.toList_ofList, List.mem_flatMap] at member
    obtain ⟨c, present, newline⟩ := member
    rw [newline_utf8EncodeChar newline] at present
    exact newline_valueChars _ present
  · rw [length_utf8, charsBytes_valueChars]

end Walaru.Agent
