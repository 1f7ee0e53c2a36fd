import Walaru.Source.Core.JsonText

/-!
# What the JSON parser reads

One lemma for each piece of a value, with any text behind it.
-/
namespace Walaru
open Lib.Decimals

theorem skipBlanks_cons {c : Char} (dark : isJsonBlank c = false) (rest : List Char) :
    skipBlanks (c :: rest) = c :: rest := by
  simp [skipBlanks, dark]

/-- A character that starts a number or nothing: no blank, quote, bracket or word. -/
def startsNoWord (c : Char) : Bool :=
  !isJsonBlank c && c != 'n' && c != 't' && c != 'f' && c != '"' && c != '[' && c != '\x7b'

theorem readScalar_numeral (floats : FloatReader) {c : Char} (start : startsNoWord c = true)
    (rest : List Char) :
    readScalar floats (c :: rest) = (readNumeral (c :: rest)).bind fun numeral =>
      (readNumber floats numeral.1).map fun number => (.number number, numeral.2) := by
  simp only [startsNoWord, Bool.and_eq_true, Bool.not_eq_true', bne_iff_ne, ne_eq] at start
  obtain ⟨⟨⟨⟨⟨⟨dark, notN⟩, notT⟩, notF⟩, notQuote⟩, -⟩, -⟩ := start
  rw [readScalar, skipBlanks_cons dark]
  split
  · rename_i same
    exact absurd (List.cons.inj same).1 notN
  · rename_i same
    exact absurd (List.cons.inj same).1 notT
  · rename_i same
    exact absurd (List.cons.inj same).1 notF
  · rename_i same
    exact absurd (List.cons.inj same).1 notQuote
  · cases readNumeral (c :: rest) with
    | none => rfl
    | some numeral =>
      obtain ⟨numeral, rest⟩ := numeral
      cases number : readNumber floats numeral with
      | none => simp [number]
      | some value => simp [number]

/-- A scalar is read whatever containers are still allowed. -/
theorem readValue_scalar (floats : FloatReader) (containers : Nat) {c : Char} {rest : List Char}
    (dark : isJsonBlank c = false) (list : c ≠ '[') (map : c ≠ '\x7b') :
    readValue floats containers (c :: rest) = readScalar floats (c :: rest) := by
  cases containers with
  | zero => rfl
  | succ containers =>
    rw [readValue, skipBlanks_cons dark]
    split
    · rename_i same
      exact absurd (List.cons.inj same).1 list
    · rename_i same
      exact absurd (List.cons.inj same).1 map
    · rfl

theorem readValue_numeral (floats : FloatReader) (containers : Nat) {c : Char}
    (start : startsNoWord c = true) (rest : List Char) :
    readValue floats containers (c :: rest) = (readNumeral (c :: rest)).bind fun numeral =>
      (readNumber floats numeral.1).map fun number => (.number number, numeral.2) := by
  have parts := start
  simp only [startsNoWord, Bool.and_eq_true, Bool.not_eq_true', bne_iff_ne, ne_eq] at parts
  rw [readValue_scalar floats containers parts.1.1.1.1.1.1 parts.1.2 parts.2,
    readScalar_numeral floats start]

theorem readValue_null (floats : FloatReader) (containers : Nat) (rest : List Char) :
    readValue floats containers ('n' :: 'u' :: 'l' :: 'l' :: rest) = some (.null, rest) := by
  rw [readValue_scalar floats containers (by decide) (by decide) (by decide)]
  rfl

theorem readValue_true (floats : FloatReader) (containers : Nat) (rest : List Char) :
    readValue floats containers ('t' :: 'r' :: 'u' :: 'e' :: rest) = some (.bool true, rest) := by
  rw [readValue_scalar floats containers (by decide) (by decide) (by decide)]
  rfl

theorem readValue_false (floats : FloatReader) (containers : Nat) (rest : List Char) :
    readValue floats containers ('f' :: 'a' :: 'l' :: 's' :: 'e' :: rest) =
      some (.bool false, rest) := by
  rw [readValue_scalar floats containers (by decide) (by decide) (by decide)]
  rfl

theorem readString_quote (rest : List Char) :
    readString ('"' :: rest) =
      (readChars 0 rest).map fun (chars, rest) => (String.ofList chars, rest) := rfl

theorem readValue_quote (floats : FloatReader) (containers : Nat) (rest : List Char) :
    readValue floats containers ('"' :: rest) =
      (readString ('"' :: rest)).map fun (s, rest) => (.string s, rest) := by
  rw [readValue_scalar floats containers (by decide) (by decide) (by decide)]
  rfl

theorem readValue_emptyArray (floats : FloatReader) (containers : Nat) (rest : List Char) :
    readValue floats (containers + 1) ('[' :: ']' :: rest) = some (.array [], rest) := rfl

theorem readValue_emptyObject (floats : FloatReader) (containers : Nat) (rest : List Char) :
    readValue floats (containers + 1) ('\x7b' :: '\x7d' :: rest) = some (.object [], rest) := rfl

theorem readValue_array (floats : FloatReader) (containers : Nat) {c : Char} {rest : List Char}
    (dark : isJsonBlank c = false) (item : c ≠ ']') :
    readValue floats (containers + 1) ('[' :: c :: rest) =
      (readItems (readValue floats containers) (rest.length + 1) (c :: rest)).map
        fun (items, rest) => (.array items, rest) := by
  rw [readValue, skipBlanks_cons (by decide)]
  simp only [skipBlanks_cons dark]
  split
  · rename_i same
    exact absurd (List.cons.inj same).1 item
  · rfl

theorem readValue_object (floats : FloatReader) (containers : Nat) {c : Char} {rest : List Char}
    (dark : isJsonBlank c = false) (member : c ≠ '\x7d') :
    readValue floats (containers + 1) ('\x7b' :: c :: rest) =
      (readMembers (readValue floats containers) (rest.length + 1) (c :: rest)).map
        fun (members, rest) => (.ofMembers members, rest) := by
  rw [readValue, skipBlanks_cons (by decide)]
  simp only [skipBlanks_cons dark]
  split
  · rename_i same
    exact absurd (List.cons.inj same).1 member
  · rfl

variable {value : List Char → Option (Json × List Char)}

theorem readItems_last {text rest : List Char} {answer : Option Json}
    (read : value text = answer.map fun item => (item, ']' :: rest)) (fuel : Nat) :
    readItems value (fuel + 1) text = answer.map fun item => ([item], rest) := by
  rw [readItems, read]
  cases answer with
  | none => rfl
  | some item => rfl

theorem readItems_more {text rest : List Char} {answer : Option Json}
    (read : value text = answer.map fun item => (item, ',' :: rest)) (fuel : Nat) :
    readItems value (fuel + 1) text = answer.bind fun item =>
      (readItems value fuel rest).map fun (items, rest) => (item :: items, rest) := by
  rw [readItems, read]
  cases answer with
  | none => rfl
  | some item => rfl

theorem readMember_colon {name : String} {text rest : List Char}
    (read : readString text = some (name, ':' :: rest)) :
    readMember value text = (value rest).map fun (member, rest) => ((name, member), rest) := by
  rw [readMember, read]
  rfl

theorem readMembers_last {text rest : List Char} {answer : Option (String × Json)}
    (read : readMember value text = answer.map fun member => (member, '\x7d' :: rest)) (fuel : Nat) :
    readMembers value (fuel + 1) text = answer.map fun member => ([member], rest) := by
  rw [readMembers, read]
  cases answer with
  | none => rfl
  | some member => rfl

theorem readMembers_more {text rest : List Char} {answer : Option (String × Json)}
    (read : readMember value text = answer.map fun member => (member, ',' :: rest)) (fuel : Nat) :
    readMembers value (fuel + 1) text = answer.bind fun member =>
      (readMembers value fuel rest).map fun (members, rest) => (member :: members, rest) := by
  rw [readMembers, read]
  cases answer with
  | none => rfl
  | some member => rfl

theorem hexValue_digitChar {d : Nat} (bound : d < 16) : hexValue (Nat.digitChar d) = some d := by
  have table : ∀ d : Fin 16, hexValue (Nat.digitChar d) = some d.val := by decide
  exact table ⟨d, bound⟩

/-- The unicode escape of a code unit that is no surrogate. -/
theorem readEscape_unicode {code : Nat} (bound : code < 0xD800) (rest : List Char) :
    readEscape ('u' :: Nat.digitChar (code / 4096) :: Nat.digitChar (code / 256 % 16) ::
      Nat.digitChar (code / 16 % 16) :: Nat.digitChar (code % 16) :: rest) =
      some (Char.ofNat code, 5) := by
  have first : hexValue (Nat.digitChar (code / 4096)) = some (code / 4096) :=
    hexValue_digitChar (by omega)
  have second : hexValue (Nat.digitChar (code / 256 % 16)) = some (code / 256 % 16) :=
    hexValue_digitChar (by omega)
  have third : hexValue (Nat.digitChar (code / 16 % 16)) = some (code / 16 % 16) :=
    hexValue_digitChar (by omega)
  have fourth : hexValue (Nat.digitChar (code % 16)) = some (code % 16) :=
    hexValue_digitChar (by omega)
  have sum : ((code / 4096 * 16 + code / 256 % 16) * 16 + code / 16 % 16) * 16 + code % 16 = code := by
    omega
  have unit : readUnit (Nat.digitChar (code / 4096) :: Nat.digitChar (code / 256 % 16) ::
      Nat.digitChar (code / 16 % 16) :: Nat.digitChar (code % 16) :: rest) = some (code, rest) := by
    simp [readUnit, first, second, third, fourth, sum]
  have high : ¬ (0xD800 ≤ code ∧ code < 0xDC00) := by omega
  have low : ¬ (0xDC00 ≤ code ∧ code < 0xE000) := by omega
  rw [readEscape, if_pos rfl, unit]
  simp [high, low]

theorem readChars_skip (escape rest : List Char) :
    readChars escape.length (escape ++ rest) = readChars 0 rest := by
  induction escape with
  | nil => rfl
  | cons c escape ih => exact ih

/-- An escape reads as its character. -/
theorem readChars_escape {escape rest : List Char} {c : Char}
    (known : readEscape (escape ++ rest) = some (c, escape.length)) :
    readChars 0 ('\\' :: (escape ++ rest)) =
      (readChars 0 rest).map fun (chars, rest) => (c :: chars, rest) := by
  rw [readChars, if_neg (by decide), if_pos rfl, known]
  simp only [readChars_skip]

theorem readChars_plain {c : Char} (notQuote : c ≠ '"') (notBackslash : c ≠ '\\')
    (printed : 32 ≤ c.toNat) (rest : List Char) :
    readChars 0 (c :: rest) = (readChars 0 rest).map fun (chars, rest) => (c :: chars, rest) := by
  rw [readChars, if_neg notQuote, if_neg notBackslash, if_neg (by omega)]

end Walaru
