import Walaru.Lib.Utf16
import Walaru.Source.Core.Analysis

/-!
# Searching assertion messages

The byte search of the analysis finds what a search over characters finds, because a needle
of ASCII letters stands at character boundaries. The parts of a message are therefore cut
without a panic.
-/
namespace Walaru
open Lib.Text Lib.Utf8Slices

def wordChar (c : Char) : Bool :=
  (48 ≤ c.toNat && c.toNat ≤ 57) || (65 ≤ c.toNat && c.toNat ≤ 90) ||
    (97 ≤ c.toNat && c.toNat ≤ 122) || c.toNat = 95

def asciiLower (c : Char) : Char := if 65 ≤ c.toNat && c.toNat ≤ 90 then Char.ofNat (c.toNat + 32) else c

/-- The needle is what `back` starts with, but for the case of letters, and a whole word. -/
def wordAt (needle front back : List Char) : Bool :=
  !front.getLast?.any wordChar && !((back.drop needle.length).head?.any wordChar) &&
    ((back.take needle.length).map asciiLower = needle)

/-- An ASCII character that is no uppercase letter. -/
def LowerAscii (c : Char) : Prop := c.toNat < 128 ∧ ¬(65 ≤ c.toNat ∧ c.toNat ≤ 90)

instance (c : Char) : Decidable (LowerAscii c) := inferInstanceAs (Decidable (_ ∧ _))

theorem encode_cons (c : Char) (text : List Char) :
    encode (c :: text) = String.utf8EncodeChar c ++ encode text := by
  unfold encode
  exact List.flatMap_cons

theorem encodeChar_of_ascii {c : Char} (ascii : c.toNat < 128) :
    String.utf8EncodeChar c = [UInt8.ofNat c.toNat] := by
  have code : c.val.toNat = c.toNat := rfl
  unfold String.utf8EncodeChar
  dsimp only
  rw [code, if_pos (by omega)]

theorem toNat_ascii {n : Nat} (ascii : n < 128) : (UInt8.ofNat n).toNat = n := by
  rw [UInt8.toNat_ofNat']
  omega

/-- Every byte of another character is none of ASCII. -/
theorem encodeChar_wide {c : Char} (wide : ¬c.toNat < 128) {b : UInt8}
    (inside : b ∈ String.utf8EncodeChar c) : ¬b.toNat < 128 := by
  intro ascii
  have code := (encodeChar_ascii inside ascii).2
  omega

theorem asciiWordByte_ascii {b : UInt8} (word : asciiWordByte b = true) : b.toNat < 128 := by
  unfold asciiWordByte at word
  simp only [Bool.or_eq_true, Bool.and_eq_true, decide_eq_true_eq] at word
  omega

theorem wordChar_ascii {c : Char} (word : wordChar c = true) : c.toNat < 128 := by
  unfold wordChar at word
  simp only [Bool.or_eq_true, Bool.and_eq_true, decide_eq_true_eq] at word
  omega

theorem asciiWordByte_ofNat {c : Char} (ascii : c.toNat < 128) :
    asciiWordByte (UInt8.ofNat c.toNat) = wordChar c := by
  unfold asciiWordByte wordChar
  rw [toNat_ascii ascii]

/-- Some byte of a character is a word byte exactly when it is a word character. -/
theorem any_word {c : Char} {b : UInt8} (inside : b ∈ String.utf8EncodeChar c) :
    asciiWordByte b = wordChar c := by
  by_cases ascii : c.toNat < 128
  · rw [encodeChar_of_ascii ascii] at inside
    rw [List.mem_singleton.mp inside, asciiWordByte_ofNat ascii]
  · have noByte : asciiWordByte b = false := by
      rw [Bool.eq_false_iff]
      exact fun word => encodeChar_wide ascii inside (asciiWordByte_ascii word)
    have noChar : wordChar c = false := by
      rw [Bool.eq_false_iff]
      exact fun word => ascii (wordChar_ascii word)
    rw [noByte, noChar]

theorem encodeChar_ne_nil (c : Char) : String.utf8EncodeChar c ≠ [] := by
  intro empty
  have length := length_encodeChar c
  rw [empty] at length
  have positive := c.utf8Size_pos
  simp only [List.length_nil] at length
  omega

/-- The first byte of a text is a word byte exactly when its first character is one of a word. -/
theorem head_word (text : List Char) :
    ((encode text)[0]?).any asciiWordByte = text.head?.any wordChar := by
  cases text with
  | nil => rfl
  | cons c text =>
    obtain ⟨b, rest, whole⟩ := List.exists_cons_of_ne_nil (encodeChar_ne_nil c)
    rw [encode_cons, whole, List.cons_append, List.getElem?_cons_zero]
    exact any_word (whole ▸ List.mem_cons_self)

/-- The same for the last byte and the last character. -/
theorem last_word (text : List Char) :
    (decide (0 < bytes text) && ((encode text)[bytes text - 1]?).any asciiWordByte) =
      text.getLast?.any wordChar := by
  rcases List.eq_nil_or_concat text with rfl | ⟨front, c, rfl⟩
  · rfl
  · have positive := c.utf8Size_pos
    have size : bytes (front ++ [c]) = bytes front + c.utf8Size := by
      rw [bytes_append, bytes_cons]
      rfl
    have last : (encode (front ++ [c]))[bytes (front ++ [c]) - 1]? =
        (String.utf8EncodeChar c)[c.utf8Size - 1]? := by
      rw [encode_append, size, List.getElem?_append_right (by unfold bytes; omega)]
      have place : bytes front + c.utf8Size - 1 - (encode front).length = c.utf8Size - 1 := by
        unfold bytes
        omega
      rw [place, encode_cons]
      exact List.getElem?_append_left (by rw [length_encodeChar]; omega)
    have inside : c.utf8Size - 1 < (String.utf8EncodeChar c).length := by
      rw [length_encodeChar]
      omega
    rw [List.concat_eq_append, last, decide_eq_true (by omega), Bool.true_and, List.getElem?_eq_getElem inside,
      List.getLast?_append, List.getLast?_singleton, Option.some_or]
    exact any_word (List.getElem_mem inside)

theorem asciiLowercase_ofNat {c : Char} (ascii : c.toNat < 128) :
    asciiLowercase (UInt8.ofNat c.toNat) = UInt8.ofNat (asciiLower c).toNat := by
  unfold asciiLowercase asciiLower
  rw [toNat_ascii ascii]
  by_cases upper : (65 ≤ c.toNat && c.toNat ≤ 90) = true
  · rw [if_pos upper, if_pos upper]
    have range : 65 ≤ c.toNat ∧ c.toNat ≤ 90 := by simpa using upper
    have valid : (c.toNat + 32).isValidChar := Or.inl (by omega)
    rw [Lib.Utf16.toNat_char valid]
    apply UInt8.toNat_inj.mp
    rw [UInt8.toNat_add, toNat_ascii ascii, toNat_ascii (by omega)]
    change (c.toNat + 32) % 256 = c.toNat + 32
    omega
  · rw [if_neg upper, if_neg upper]

theorem asciiLowercase_ascii {b : UInt8} : (asciiLowercase b).toNat < 128 ↔ b.toNat < 128 := by
  unfold asciiLowercase
  split
  · rename_i upper
    have range : 65 ≤ b.toNat ∧ b.toNat ≤ 90 := by simpa using upper
    rw [UInt8.toNat_add]
    change (b.toNat + 32) % 256 < 128 ↔ _
    omega
  · rfl

theorem asciiLower_ascii {c : Char} (ascii : c.toNat < 128) : (asciiLower c).toNat < 128 := by
  unfold asciiLower
  split
  · rename_i upper
    have range : 65 ≤ c.toNat ∧ c.toNat ≤ 90 := by simpa using upper
    have valid : (c.toNat + 32).isValidChar := Or.inl (by omega)
    rw [Lib.Utf16.toNat_char valid]
    omega
  · exact ascii

theorem asciiLower_wide {c : Char} (wide : ¬c.toNat < 128) : asciiLower c = c := by
  unfold asciiLower
  rw [if_neg]
  simp only [Bool.and_eq_true, decide_eq_true_eq]
  omega

theorem asciiLower_lower {c : Char} (lower : LowerAscii c) : asciiLower c = c := by
  unfold asciiLower
  rw [if_neg]
  have range := lower.2
  simpa using range

/-- Bytes and characters agree on whether a text starts with a needle. -/
theorem starts_iff {needle : List Char} (lower : ∀ c ∈ needle, LowerAscii c) (text : List Char) :
    eqIgnoreAsciiCase ((encode text).take needle.length) (encode needle) = true ↔
      (text.take needle.length).map asciiLower = needle := by
  unfold eqIgnoreAsciiCase
  rw [decide_eq_true_eq]
  induction needle generalizing text with
  | nil => simp [encode]
  | cons d needle ih =>
    obtain ⟨own, rest⟩ := List.forall_mem_cons.mp lower
    rw [encode_cons, encodeChar_of_ascii own.1, List.singleton_append, List.map_cons,
      asciiLowercase_ofNat own.1, asciiLower_lower own, List.length_cons]
    cases text with
    | nil => simp [encode]
    | cons c text =>
      by_cases ascii : c.toNat < 128
      · rw [encode_cons, encodeChar_of_ascii ascii, List.singleton_append, List.take_succ_cons,
          List.take_succ_cons, List.map_cons, List.map_cons, asciiLowercase_ofNat ascii,
          List.cons.injEq, List.cons.injEq, ih rest]
        refine and_congr_left fun _ => ⟨fun same => ?_, fun same => by rw [same]⟩
        have codes := congrArg UInt8.toNat same
        rw [toNat_ascii (asciiLower_ascii ascii), toNat_ascii own.1] at codes
        exact Char.toNat_inj.mp codes
      · obtain ⟨b, more, whole⟩ := List.exists_cons_of_ne_nil (encodeChar_ne_nil c)
        rw [encode_cons, whole, List.cons_append, List.take_succ_cons, List.take_succ_cons,
          List.map_cons, List.map_cons, asciiLower_wide ascii]
        have wide := encodeChar_wide ascii (whole ▸ List.mem_cons_self : b ∈ String.utf8EncodeChar c)
        constructor
        · intro same
          have byte := asciiLowercase_ascii (b := b)
          rw [(List.cons.inj same).1, toNat_ascii own.1] at byte
          exact absurd (byte.mp own.1) wide
        · intro same
          rw [(List.cons.inj same).1] at ascii
          exact absurd own.1 ascii

/-- The characters of an occurrence are as many as its bytes. -/
theorem starts_bytes {needle text : List Char} (lower : ∀ c ∈ needle, LowerAscii c)
    (starts : (text.take needle.length).map asciiLower = needle) :
    bytes (text.take needle.length) = needle.length := by
  induction needle generalizing text with
  | nil => rfl
  | cons d needle ih =>
    obtain ⟨own, rest⟩ := List.forall_mem_cons.mp lower
    cases text with
    | nil => cases starts
    | cons c text =>
      rw [List.length_cons, List.take_succ_cons, List.map_cons, List.cons.injEq] at starts
      have ascii : c.toNat < 128 := by
        by_contra wide
        rw [asciiLower_wide wide] at starts
        rw [starts.1] at wide
        exact wide own.1
      rw [List.length_cons, List.take_succ_cons, bytes_cons, ih rest starts.2, ← length_encodeChar,
        encodeChar_of_ascii ascii, List.length_singleton, Nat.add_comm]

/-- At a character boundary, bytes and characters agree on an occurrence. -/
theorem asciiWordAt_bytes {needle : List Char} (lower : ∀ c ∈ needle, LowerAscii c)
    (front back : List Char) :
    asciiWordAt (encode (front ++ back)) (encode needle) (bytes front) = wordAt needle front back := by
  have size : (encode needle).length = needle.length := by
    have same : needle.map asciiLower = needle.map id :=
      List.map_congr_left fun c inside => asciiLower_lower (lower c inside)
    have whole := @starts_bytes needle needle lower (by rw [List.take_length, same, List.map_id])
    rwa [List.take_length] at whole
  have before : (decide (0 < bytes front) &&
      ((encode (front ++ back))[bytes front - 1]?).any asciiWordByte) = front.getLast?.any wordChar := by
    rw [← last_word front, encode_append]
    by_cases some_ : 0 < bytes front
    · rw [List.getElem?_append_left (by unfold bytes at *; omega)]
    · rw [decide_eq_false some_, Bool.false_and, Bool.false_and]
  have behind : (encode (front ++ back)).drop (bytes front) = encode back := by
    rw [encode_append]
    exact List.drop_left
  unfold asciiWordAt wordAt
  rw [before, behind, size]
  by_cases starts : (back.take needle.length).map asciiLower = needle
  · have after : (encode (front ++ back))[bytes front + needle.length]? =
        (encode (back.drop needle.length))[0]? := by
      have split : encode back = encode (back.take needle.length) ++ encode (back.drop needle.length) := by
        rw [← encode_append, List.take_append_drop]
      rw [encode_append, List.getElem?_append_right (by unfold bytes; omega), split,
        List.getElem?_append_right (by have := starts_bytes lower starts; unfold bytes at *; omega)]
      congr 1
      have := starts_bytes lower starts
      unfold bytes at *
      omega
    rw [after, head_word, (starts_iff lower back).mpr starts, decide_eq_true starts]
  · have no : eqIgnoreAsciiCase ((encode back).take needle.length) (encode needle) = false := by
      rw [Bool.eq_false_iff]
      exact fun same => starts ((starts_iff lower back).mp same)
    rw [no, decide_eq_false starts, Bool.and_false, Bool.and_false]

/-- An occurrence stands at a character boundary. -/
theorem asciiWordAt_boundary {needle message : List Char} (lower : ∀ c ∈ needle, LowerAscii c)
    (occupied : needle ≠ []) {n : Nat} (found : asciiWordAt (encode message) (encode needle) n = true) :
    ∃ front back, message = front ++ back ∧ bytes front = n := by
  obtain ⟨d, rest, rfl⟩ := List.exists_cons_of_ne_nil occupied
  have own := (List.forall_mem_cons.mp lower).1
  unfold asciiWordAt eqIgnoreAsciiCase at found
  simp only [Bool.and_eq_true, decide_eq_true_eq] at found
  have same := found.2
  rw [encode_cons, encodeChar_of_ascii own.1, List.singleton_append, List.map_cons, List.length_cons] at same
  cases shape : (encode message).drop n with
  | nil =>
    rw [shape] at same
    cases same
  | cons b more =>
    rw [shape, List.take_succ_cons, List.map_cons, List.cons.injEq] at same
    have ascii : b.toNat < 128 := by
      rw [← asciiLowercase_ascii, same.1, asciiLowercase_ascii, toNat_ascii own.1]
      exact own.1
    have here : (encode message)[n]? = some b := by
      rw [← List.head?_drop, shape]
      rfl
    obtain ⟨front, c, back, whole, size, -⟩ := ascii_boundary here ascii
    exact ⟨front, c :: back, whole, size⟩

/-- The byte search behind a front finds the first occurrence over characters. -/
theorem find_eq {needle : String} (lower : ∀ c ∈ needle.toList, LowerAscii c)
    (occupied : needle.toList ≠ []) (front back : List Char) :
    findAsciiWordCaseInsensitive (front ++ back) needle (bytes front) =
      (firstSplit (wordAt needle.toList) front back).map fun sides => bytes sides.1 := by
  have boundary : ∀ n, bytes front ≤ n →
      asciiWordAt (encode (front ++ back)) (encode needle.toList) n = true →
      ∃ early late, back = early ++ late ∧ bytes (front ++ early) = n ∧
        wordAt needle.toList (front ++ early) late = true := by
    intro n after found
    obtain ⟨left, right, whole, size⟩ := asciiWordAt_boundary lower occupied found
    obtain ⟨early, rfl, inside⟩ := front_of_bytes_le whole (by omega)
    refine ⟨early, right, inside, size, ?_⟩
    rwa [← asciiWordAt_bytes lower, ← whole, size]
  have bytesOccupied : encode needle.toList ≠ [] := by
    intro empty
    exact occupied (bytes_eq_zero.mp (by rw [bytes, empty, List.length_nil]))
  unfold findAsciiWordCaseInsensitive
  dsimp only
  rw [if_neg bytesOccupied]
  cases found : firstSplit (wordAt needle.toList) front back with
  | none =>
    rw [Option.map_none, List.find?_range'_eq_none]
    intro n after _
    rw [Bool.not_eq_true', Bool.eq_false_iff]
    intro occurs
    obtain ⟨early, late, whole, -, word⟩ := boundary n after occurs
    rw [firstSplit_eq_none.mp found early late whole] at word
    cases word
  | some sides =>
    obtain ⟨left, right⟩ := sides
    obtain ⟨middle, rfl, rfl, word, earlier⟩ := firstSplit_eq_some.mp found
    have here : asciiWordAt (encode (front ++ (middle ++ right))) (encode needle.toList)
        (bytes (front ++ middle)) = true := by
      rw [← List.append_assoc, asciiWordAt_bytes lower]
      exact word
    have starts : (right.take needle.toList.length).map asciiLower = needle.toList := by
      unfold wordAt at word
      rw [Bool.and_eq_true] at word
      exact of_decide_eq_true word.2
    have fits : (encode needle.toList).length ≤ bytes right := by
      have size := starts_bytes lower starts
      have whole := congrArg bytes (List.take_append_drop needle.toList.length right)
      have needleSize := @starts_bytes needle.toList needle.toList lower (by
        rw [List.take_length]
        have same : needle.toList.map asciiLower = needle.toList.map id :=
          List.map_congr_left fun c inside => asciiLower_lower (lower c inside)
        rw [same, List.map_id])
      rw [List.take_length] at needleSize
      rw [bytes_append, size] at whole
      unfold bytes at *
      omega
    rw [Option.map_some, List.find?_range'_eq_some]
    refine ⟨here, ?_, fun n after before => ?_⟩
    · rw [List.mem_range'_1]
      have whole : (encode (front ++ (middle ++ right))).length =
          bytes front + (bytes middle + bytes right) := by
        rw [← bytes_append, ← bytes_append]
        rfl
      rw [bytes_append, whole]
      omega
    · rw [Bool.not_eq_true', Bool.eq_false_iff]
      intro occurs
      obtain ⟨early, late, inside, size, word'⟩ := boundary n after occurs
      obtain ⟨gap, split, rest⟩ := @front_of_bytes_le early late middle right inside.symm (by
        rw [bytes_append] at size before
        omega)
      have occupied' : gap ≠ [] := by
        rintro rfl
        rw [List.append_nil] at split
        rw [split, size] at before
        omega
      rw [rest, earlier early gap split occupied'] at word'
      cases word'

/-- The parts around the nearest marker behind a front, for a notion of occurrence. -/
def cutAtMarker (occurs : List Char → List Char → List Char → Bool) (front back : List Char) :
    Option (List Char × List Char) :=
  match firstSplit (occurs "but was".toList) front back, firstSplit (occurs "but found".toList) front back with
  | none, none => none
  | some was, none => some (was.1.drop front.length, was.2.drop 7)
  | none, some found => some (found.1.drop front.length, found.2.drop 9)
  | some was, some found =>
    if found.1.length < was.1.length then some (found.1.drop front.length, found.2.drop 9)
    else some (was.1.drop front.length, was.2.drop 7)

/-- What stands between the first `expected` and the nearest marker behind it, and behind that. -/
def cutMessage (occurs : List Char → List Char → List Char → Bool) (message : List Char) :
    Option (List Char × List Char) :=
  match firstSplit (occurs "expected".toList) [] message with
  | none => none
  | some (front, back) => cutAtMarker occurs (front ++ back.take 8) (back.drop 8)

/-- Both parts without blanks at their ends, when that leaves something of each. -/
def keptParts (blank : Char → Bool) (parts : List Char × List Char) : Option (List Char × List Char) :=
  let expected := (parts.1.dropWhile blank).rdropWhile blank
  let actual := (parts.2.dropWhile blank).rdropWhile blank
  if expected ≠ [] ∧ actual ≠ [] then some (expected, actual) else none

theorem lower_of_all {needle : String}
    (all : (needle.toList.all fun c => decide (LowerAscii c)) = true) : ∀ c ∈ needle.toList, LowerAscii c :=
  fun c inside => of_decide_eq_true (List.all_eq_true.mp all c inside)

theorem lower_expected : ∀ c ∈ "expected".toList, LowerAscii c := lower_of_all (by decide)
theorem lower_was : ∀ c ∈ "but was".toList, LowerAscii c := lower_of_all (by decide)
theorem lower_found : ∀ c ∈ "but found".toList, LowerAscii c := lower_of_all (by decide)

theorem wordAt_starts {needle front back : List Char} (word : wordAt needle front back = true) :
    (back.take needle.length).map asciiLower = needle := by
  unfold wordAt at word
  rw [Bool.and_eq_true] at word
  exact of_decide_eq_true word.2

/-- Around a marker that occurs behind a front, the message is cut without a panic. -/
theorem cut_marker {marker front back left right : List Char} (lower : ∀ c ∈ marker, LowerAscii c)
    (found : firstSplit (wordAt marker) front back = some (left, right)) :
    slice (front ++ back) (bytes front) (bytes left) = some (left.drop front.length) ∧
      splitBytes (bytes left + marker.length) (front ++ back) =
        some (left ++ right.take marker.length, right.drop marker.length) := by
  obtain ⟨middle, rfl, rfl, word, -⟩ := firstSplit_eq_some.mp found
  have size := starts_bytes lower (wordAt_starts word)
  constructor
  · rw [← List.append_assoc, slice_append, List.drop_left]
  · have whole : front ++ (middle ++ right) =
        (front ++ middle ++ right.take marker.length) ++ right.drop marker.length := by
      rw [List.append_assoc (front ++ middle), List.take_append_drop, List.append_assoc]
    have place : bytes (front ++ middle) + marker.length =
        bytes (front ++ middle ++ right.take marker.length) := by
      rw [bytes_append _ (right.take marker.length), size]
    rw [place, whole, splitBytes_append]

/-- The parts of an assertion message are found without a panic. -/
theorem assertionMismatch_eq (message : List Char) :
    assertionMismatch message = some ((cutMessage wordAt message).bind (keptParts trimmedCharacter)) := by
  have first := find_eq lower_expected (by decide) [] message
  rw [List.nil_append, show bytes [] = 0 from rfl] at first
  unfold assertionMismatch cutMessage
  rw [first]
  cases expected : firstSplit (wordAt "expected".toList) [] message with
  | none => rfl
  | some sides =>
    obtain ⟨front, back⟩ := sides
    obtain ⟨middle, front_, whole, word, -⟩ := firstSplit_eq_some.mp expected
    have size := starts_bytes lower_expected (wordAt_starts word)
    have message_ : message = (front ++ back.take 8) ++ back.drop 8 := by
      rw [List.append_assoc, List.take_append_drop, whole, front_, List.nil_append]
    have start : bytes front + 8 = bytes (front ++ back.take 8) := by
      rw [bytes_append]
      exact congrArg (bytes front + ·) size.symm
    rw [Option.map_some]
    dsimp only
    rw [start]
    generalize front ++ back.take 8 = before at *
    generalize back.drop 8 = behind at *
    rw [message_, find_eq lower_was (by decide), find_eq lower_found (by decide)]
    unfold cutAtMarker
    cases was : firstSplit (wordAt "but was".toList) before behind with
    | none =>
      cases found : firstSplit (wordAt "but found".toList) before behind with
      | none => rfl
      | some sides =>
        obtain ⟨middle, actual⟩ := cut_marker lower_found found
        dsimp only [Option.map_some, Option.map_none, nearest]
        rw [middle, actual]
        rfl
    | some wasSides =>
      obtain ⟨wasMiddle, wasActual⟩ := cut_marker lower_was was
      cases found : firstSplit (wordAt "but found".toList) before behind with
      | none =>
        dsimp only [Option.map_some, Option.map_none, nearest]
        rw [wasMiddle, wasActual]
        rfl
      | some foundSides =>
        obtain ⟨middle, actual⟩ := cut_marker lower_found found
        have order : bytes foundSides.1 < bytes wasSides.1 ↔
            foundSides.1.length < wasSides.1.length := by
          obtain ⟨_, left, rest, -, -⟩ := firstSplit_eq_some.mp found
          obtain ⟨_, left', rest', -, -⟩ := firstSplit_eq_some.mp was
          refine @bytes_lt_iff foundSides.1 foundSides.2 wasSides.1 wasSides.2 ?_
          rw [left, left', List.append_assoc, List.append_assoc, ← rest, ← rest']
        dsimp only [Option.map_some, nearest]
        by_cases nearer : foundSides.1.length < wasSides.1.length
        · rw [if_pos nearer, if_pos (order.mpr nearer)]
          dsimp only
          rw [middle, actual]
          rfl
        · rw [if_neg nearer, if_neg fun less => nearer (order.mp less)]
          dsimp only
          rw [wasMiddle, wasActual]
          rfl

end Walaru
