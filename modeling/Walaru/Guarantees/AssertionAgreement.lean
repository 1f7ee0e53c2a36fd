import Walaru.Guarantees.AssertionSearch
import Walaru.Lib.TrimmedLists
import Walaru.Source.Gradle.AssertionMismatch

/-!
# Two analysers of assertion messages

The Gradle report looks for the same words as the core, but without word boundaries and with
the case folding of its platform, and its notion of a blank is another one. The two agree on a
message exactly when what the report finds are whole words and no part ends in a character that
is blank for one of them only, or when both are left with nothing.
-/
namespace Walaru
open Lib.Text Lib.Utf8Slices Lib.TrimmedLists

/-- The needle is what `back` starts with, but for case. -/
def foldAt (needle _front back : List Char) : Bool := decide (needle <+: back.map Gradle.foldCase)

theorem foldCase_of_asciiLower {c d : Char} (lower : LowerAscii d) (same : asciiLower c = d) :
    Gradle.foldCase c = d := by
  unfold asciiLower at same
  unfold Gradle.foldCase
  by_cases upper : (65 ≤ c.toNat && c.toNat ≤ 90) = true
  · rwa [if_pos upper] at same ⊢
  · rw [if_neg upper] at same ⊢
    subst same
    have ascii := lower.1
    rw [if_neg (by simp only [Bool.or_eq_true, decide_eq_true_eq]; omega), if_neg (by omega),
      if_neg (by omega)]

theorem foldCase_lower {c : Char} (lower : LowerAscii c) : Gradle.foldCase c = c :=
  foldCase_of_asciiLower lower (asciiLower_lower lower)

theorem map_foldCase {needle : List Char} (lower : ∀ c ∈ needle, LowerAscii c) :
    needle.map Gradle.foldCase = needle := by
  have same : needle.map Gradle.foldCase = needle.map id :=
    List.map_congr_left fun c inside => foldCase_lower (lower c inside)
  rw [same, List.map_id]

/-- A whole word is an occurrence. -/
theorem foldAt_of_wordAt {needle : List Char} (lower : ∀ c ∈ needle, LowerAscii c)
    (front back : List Char) (word : wordAt needle front back = true) :
    foldAt needle front back = true := by
  have starts := wordAt_starts word
  have same : (back.take needle.length).map Gradle.foldCase = needle := by
    rw [← starts] at lower
    conv_rhs => rw [← starts]
    refine List.map_congr_left fun c inside => ?_
    exact foldCase_of_asciiLower (lower _ (List.mem_map_of_mem inside)) rfl
  unfold foldAt
  apply decide_eq_true
  conv_lhs => rw [← same]
  exact (List.take_prefix _ _).map _

theorem regionMatches_iff {needle : List Char} (lower : ∀ c ∈ needle, LowerAscii c)
    (value : List Char) (index : Nat) :
    Gradle.regionMatches value index needle = foldAt needle (value.take index) (value.drop index) := by
  unfold Gradle.regionMatches foldAt
  rw [map_foldCase lower, decide_eq_decide, List.prefix_iff_eq_take, List.map_take]
  exact eq_comm

/-- The search of the report finds the first occurrence behind a front. -/
theorem indexOfIgnoreCase_eq {needle : List Char} (lower : ∀ c ∈ needle, LowerAscii c)
    (occupied : needle ≠ []) (front back : List Char) :
    Gradle.indexOfIgnoreCase (front ++ back) needle front.length =
      (firstSplit (foldAt needle) front back).map fun sides => sides.1.length := by
  have place : ∀ early late, back = early ++ late →
      Gradle.regionMatches (front ++ back) (front.length + early.length) needle =
        foldAt needle (front ++ early) late := by
    rintro early late rfl
    rw [regionMatches_iff lower, ← List.append_assoc, ← List.length_append, List.take_left,
      List.drop_left]
  unfold Gradle.indexOfIgnoreCase
  rw [if_neg occupied]
  cases found : firstSplit (foldAt needle) front back with
  | none =>
    rw [Option.map_none, List.find?_range'_eq_none]
    intro index after before
    rw [List.length_append] at before
    have here := place (back.take (index - front.length)) (back.drop (index - front.length))
      (List.take_append_drop _ _).symm
    rw [List.length_take, firstSplit_eq_none.mp found _ _ (List.take_append_drop _ _).symm] at here
    rw [Bool.not_eq_true', ← here]
    have size := List.length_pos_of_ne_nil occupied
    congr 1
    omega
  | some sides =>
    obtain ⟨left, right⟩ := sides
    obtain ⟨middle, rfl, rfl, holds, earlier⟩ := firstSplit_eq_some.mp found
    have fits : needle.length ≤ right.length := by
      unfold foldAt at holds
      have size := (of_decide_eq_true holds).length_le
      rwa [List.length_map] at size
    rw [Option.map_some, List.find?_range'_eq_some]
    refine ⟨?_, ?_, fun index after before => ?_⟩
    · rw [List.length_append, place middle right rfl]
      exact holds
    · rw [List.mem_range'_1, List.length_append, List.length_append, List.length_append]
      have size := List.length_pos_of_ne_nil occupied
      omega
    · rw [List.length_append] at before
      have split : middle = middle.take (index - front.length) ++ middle.drop (index - front.length) :=
        (List.take_append_drop _ _).symm
      have here := place (middle.take (index - front.length))
        (middle.drop (index - front.length) ++ right) (by rw [← List.append_assoc, ← split])
      rw [earlier _ _ split (by
        intro none_
        have size := List.drop_eq_nil_iff.mp none_
        omega), List.length_take] at here
      rw [Bool.not_eq_true', ← here]
      congr 1
      omega

theorem isBlank_assertionValue (value : List Char) :
    Gradle.isBlank (Gradle.assertionValue value) = true ↔ Gradle.assertionValue value = [] := by
  constructor
  · intro blank
    cases shape : Gradle.assertionValue value with
    | nil => rfl
    | cons c rest =>
      have first : (trimList Gradle.assertionCharacter value).head? = some c := by
        change (Gradle.assertionValue value).head? = some c
        rw [shape]
        rfl
      have occupied := head?_trimList first
      unfold Gradle.isBlank at blank
      rw [shape, List.all_cons, Bool.and_eq_true] at blank
      unfold Gradle.assertionCharacter at occupied
      rw [blank.1, Bool.true_or] at occupied
      cases occupied
  · intro empty
    rw [empty]
    rfl

/-- What the report returns for two parts is what is kept of them. -/
theorem report_parts (expected actual : List Char) :
    (if Gradle.isBlank (Gradle.assertionValue expected) || Gradle.isBlank (Gradle.assertionValue actual) then
        none
      else some (Gradle.assertionValue expected, Gradle.assertionValue actual)) =
      keptParts Gradle.assertionCharacter (expected, actual) := by
  have left := isBlank_assertionValue expected
  have right := isBlank_assertionValue actual
  unfold keptParts
  change _ = if Gradle.assertionValue expected ≠ [] ∧ Gradle.assertionValue actual ≠ [] then
    some (Gradle.assertionValue expected, Gradle.assertionValue actual) else none
  by_cases none_ : Gradle.assertionValue expected ≠ [] ∧ Gradle.assertionValue actual ≠ []
  · rw [if_pos none_, if_neg]
    rw [Bool.or_eq_true, left, right]
    exact fun either => either.elim none_.1 none_.2
  · rw [if_neg none_, if_pos]
    rw [Bool.or_eq_true, left, right]
    by_contra neither
    exact none_ (not_or.mp neither)

theorem report_marker {marker : List Char} {front back left right : List Char}
    (found : firstSplit (foldAt marker) front back = some (left, right)) :
    ((front ++ back).take left.length).drop front.length = left.drop front.length ∧
      (front ++ back).drop (left.length + marker.length) = right.drop marker.length := by
  obtain ⟨middle, rfl, rfl, -, -⟩ := firstSplit_eq_some.mp found
  rw [← List.append_assoc, List.take_left]
  exact ⟨rfl, by rw [← List.drop_drop, List.drop_left]⟩

/-- The report cuts a message at the first occurrences, words or not. -/
theorem report_eq (message : List Char) :
    Gradle.assertionMismatch message =
      (cutMessage foldAt message).bind (keptParts Gradle.assertionCharacter) := by
  have first := indexOfIgnoreCase_eq lower_expected (by decide) [] message
  rw [List.nil_append, List.length_nil] at first
  unfold Gradle.assertionMismatch cutMessage
  rw [first]
  cases expected : firstSplit (foldAt "expected".toList) [] message with
  | none => rfl
  | some sides =>
    obtain ⟨front, back⟩ := sides
    have whole := firstSplit_append expected
    have holds := firstSplit_holds expected
    unfold foldAt at holds
    have fits := (of_decide_eq_true holds).length_le
    rw [List.length_map] at fits
    have start : front.length + "expected".toList.length = (front ++ back.take 8).length := by
      rw [List.length_append, List.length_take]
      change 8 ≤ back.length at fits
      change _ + 8 = _
      omega
    have message_ : message = (front ++ back.take 8) ++ back.drop 8 := by
      rw [List.append_assoc, List.take_append_drop, whole, List.nil_append]
    rw [Option.map_some, Option.bind_eq_bind, Option.bind_some]
    dsimp only
    rw [start]
    generalize front ++ back.take 8 = before at *
    generalize back.drop 8 = behind at *
    rw [message_, List.filterMap_cons, List.filterMap_cons, List.filterMap_nil,
      indexOfIgnoreCase_eq lower_was (by decide), indexOfIgnoreCase_eq lower_found (by decide)]
    unfold cutAtMarker
    cases was : firstSplit (foldAt "but was".toList) before behind with
    | none =>
      cases found : firstSplit (foldAt "but found".toList) before behind with
      | none => rfl
      | some sides =>
        obtain ⟨middle, actual⟩ := report_marker found
        dsimp only [Option.map_some, Option.map_none, Gradle.minByPosition, List.foldl_nil]
        rw [Option.bind_eq_bind, Option.bind_some]
        dsimp only
        rw [middle, actual, report_parts]
        rfl
    | some wasSides =>
      obtain ⟨wasMiddle, wasActual⟩ := report_marker was
      cases found : firstSplit (foldAt "but found".toList) before behind with
      | none =>
        dsimp only [Option.map_some, Option.map_none, Gradle.minByPosition, List.foldl_nil]
        rw [Option.bind_eq_bind, Option.bind_some]
        dsimp only
        rw [wasMiddle, wasActual, report_parts]
        rfl
      | some foundSides =>
        obtain ⟨middle, actual⟩ := report_marker found
        dsimp only [Option.map_some, Gradle.minByPosition, List.foldl_cons, List.foldl_nil]
        rw [Option.bind_eq_bind, Option.bind_some]
        by_cases nearer : foundSides.1.length < wasSides.1.length
        · rw [if_pos nearer, if_pos nearer]
          dsimp only
          rw [middle, actual, report_parts]
          rfl
        · rw [if_neg nearer, if_neg nearer]
          dsimp only
          rw [wasMiddle, wasActual, report_parts]
          rfl

theorem foldAt_iff {needle front back : List Char} :
    foldAt needle front back = true ↔ needle <+: back.map Gradle.foldCase := by
  unfold foldAt
  exact decide_eq_true_iff

/-- The second needle could stand so many places behind the start of the first. -/
def overlaps (first second : List Char) (distance : Nat) : Bool :=
  ((first.drop distance).zip second).all fun pair => pair.1 = pair.2

theorem zip_prefixes {a b text : List Char} (left : a <+: text) (right : b <+: text) :
    ((a.zip b).all fun pair => pair.1 = pair.2) = true := by
  induction text generalizing a b with
  | nil =>
    rw [List.prefix_nil.mp left]
    rfl
  | cons c text ih =>
    cases a with
    | nil => rfl
    | cons x a =>
      cases b with
      | nil => rfl
      | cons y b =>
        obtain ⟨one, more⟩ := List.cons_prefix_cons.mp left
        obtain ⟨other, others⟩ := List.cons_prefix_cons.mp right
        rw [List.zip_cons_cons, List.all_cons, ih more others, Bool.and_true]
        exact decide_eq_true (one.trans other.symm)

theorem occurrences_apart {first second message : List Char} {i j : Nat}
    (clash : ∀ distance < first.length, 0 < distance → overlaps first second distance = false)
    (here : first <+: (message.drop i).map Gradle.foldCase)
    (there : second <+: (message.drop j).map Gradle.foldCase) (order : i < j) :
    i + first.length ≤ j := by
  by_contra near
  have inside : first.drop (j - i) <+: (message.drop j).map Gradle.foldCase := by
    have later := here.drop (j - i)
    rwa [← List.map_drop, List.drop_drop, show i + (j - i) = j by omega] at later
  have apart := clash (j - i) (by omega) (by omega)
  unfold overlaps at apart
  rw [zip_prefixes inside there] at apart
  cases apart

def markers : List String := ["but was", "but found"]

theorem expected_apart : ∀ distance < 8, 0 < distance →
    overlaps "expected".toList "expected".toList distance = false := by decide

theorem marker_apart {marker other : String} (inside : marker ∈ markers) (inside' : other ∈ markers) :
    ∀ distance < marker.toList.length, 0 < distance →
      overlaps marker.toList other.toList distance = false := by
  unfold markers at inside inside'
  simp only [List.mem_cons, List.not_mem_nil, or_false] at inside inside'
  rcases inside with rfl | rfl <;> rcases inside' with rfl | rfl <;> decide

theorem marker_unique {marker other : String} {text : List Char} (inside : marker ∈ markers)
    (inside' : other ∈ markers) (here : marker.toList <+: text) (there : other.toList <+: text) :
    marker = other := by
  have same := zip_prefixes here there
  unfold markers at inside inside'
  simp only [List.mem_cons, List.not_mem_nil, or_false] at inside inside'
  rcases inside with rfl | rfl <;> rcases inside' with rfl | rfl
  · rfl
  · exact absurd same (by decide)
  · exact absurd same (by decide)
  · rfl

theorem lower_marker {marker : String} (inside : marker ∈ markers) :
    ∀ c ∈ marker.toList, LowerAscii c := by
  unfold markers at inside
  simp only [List.mem_cons, List.not_mem_nil, or_false] at inside
  rcases inside with rfl | rfl
  · exact lower_was
  · exact lower_found

/-- A character that is blank for neither analyser. -/
def solid (c : Char) : Bool := !Gradle.assertionCharacter c && !trimmedCharacter c

theorem solid_report {c : Char} (here : solid c = true) : Gradle.assertionCharacter c = false := by
  unfold solid at here
  simpa using (Bool.and_eq_true_iff.mp here).1

theorem solid_core {c : Char} (here : solid c = true) : trimmedCharacter c = false := by
  unfold solid at here
  simpa using (Bool.and_eq_true_iff.mp here).2

/-- A letter is blank for neither. -/
theorem solid_of_fold {c d : Char}
    (letter : 97 ≤ d.toNat ∧ d.toNat ≤ 122 ∧ d.toNat ≠ 105 ∧ d.toNat ≠ 115 ∧ d.toNat ≠ 107)
    (same : Gradle.foldCase c = d) : solid c = true := by
  have code : (65 ≤ c.toNat ∧ c.toNat ≤ 90) ∨ (97 ≤ c.toNat ∧ c.toNat ≤ 122) := by
    unfold Gradle.foldCase at same
    split at same
    · rename_i upper
      exact .inl (by simpa using upper)
    · split at same
      · subst same
        exact absurd rfl letter.2.2.1
      · split at same
        · subst same
          exact absurd rfl letter.2.2.2.1
        · split at same
          · subst same
            exact absurd rfl letter.2.2.2.2
          · subst same
            exact .inr ⟨letter.1, letter.2.1⟩
  have plain : c ∉ [':', '=', '<', '[', '(', '.', '>', ']', ')'] := by
    intro inside
    have range : ([':', '=', '<', '[', '(', '.', '>', ']', ')'].all fun d =>
        decide ¬((65 ≤ d.toNat ∧ d.toNat ≤ 90) ∨ (97 ≤ d.toNat ∧ d.toNat ≤ 122))) = true := by decide
    exact of_decide_eq_true (List.all_eq_true.mp range c inside) code
  unfold solid Gradle.assertionCharacter trimmedCharacter Gradle.isWhitespace whiteSpace
  rw [decide_eq_false plain]
  simp only [Bool.or_false, Bool.and_eq_true, Bool.not_eq_true', Bool.or_eq_false_iff,
    Bool.and_eq_false_iff, decide_eq_false_iff_not]
  omega

theorem countP_drop_lt {message : List Char} {i j k : Nat} {c : Char} (before : i ≤ j) (after : j < k)
    (here : message[j]? = some c) (holds : solid c = true) :
    (message.drop k).countP solid < (message.drop i).countP solid := by
  have inner : (message.drop (j + 1)).countP solid < (message.drop j).countP solid := by
    obtain ⟨inside, rfl⟩ := List.getElem?_eq_some_iff.mp here
    rw [List.drop_eq_getElem_cons inside, List.countP_cons_of_pos holds]
    exact Nat.lt_succ_self _
  have outer : (message.drop k).countP solid ≤ (message.drop (j + 1)).countP solid :=
    (List.drop_sublist_drop_left message after).countP_le
  have front : (message.drop j).countP solid ≤ (message.drop i).countP solid :=
    (List.drop_sublist_drop_left message before).countP_le
  omega

/-- An occurrence that starts with a letter is missed by what starts behind it. -/
theorem countP_occurrence {needle : List Char} {message : List Char} {d : Char} {i j k : Nat}
    (letter : 97 ≤ d.toNat ∧ d.toNat ≤ 122 ∧ d.toNat ≠ 105 ∧ d.toNat ≠ 115 ∧ d.toNat ≠ 107)
    (first : needle.head? = some d) (there : needle <+: (message.drop j).map Gradle.foldCase)
    (before : i ≤ j) (after : j < k) :
    (message.drop k).countP solid < (message.drop i).countP solid := by
  cases needle with
  | nil => cases first
  | cons e needle =>
    cases first
    obtain ⟨rest, whole⟩ := there
    have head : ((message.drop j).map Gradle.foldCase)[0]? = some d := by
      rw [← whole]
      rfl
    rw [List.getElem?_map, List.getElem?_drop, Nat.add_zero, Option.map_eq_some_iff] at head
    obtain ⟨c, here, same⟩ := head
    exact countP_drop_lt before after here (solid_of_fold letter same)

/-- The nearest marker behind a front stands between these two sides. -/
structure Nearest (occurs : List Char → List Char → List Char → Bool) (front back : List Char)
    (marker : String) (left right : List Char) : Prop where
  listed : marker ∈ markers
  first : firstSplit (occurs marker.toList) front back = some (left, right)
  nearest : ∀ other ∈ markers, ∀ left' right',
    firstSplit (occurs other.toList) front back = some (left', right') → left.length ≤ left'.length

variable {occurs : List Char → List Char → List Char → Bool}

theorem forall_markers {p : String → Prop} : (∀ marker ∈ markers, p marker) ↔ p "but was" ∧ p "but found" := by
  unfold markers
  rw [List.forall_mem_cons, List.forall_mem_singleton]

theorem cutAtMarker_eq_none {front back : List Char} :
    cutAtMarker occurs front back = none ↔
      ∀ marker ∈ markers, firstSplit (occurs marker.toList) front back = none := by
  rw [forall_markers]
  unfold cutAtMarker
  cases firstSplit (occurs "but was".toList) front back with
  | none =>
    cases firstSplit (occurs "but found".toList) front back with
    | none => exact ⟨fun _ => ⟨rfl, rfl⟩, fun _ => rfl⟩
    | some found => exact ⟨nofun, fun both => nomatch both.2⟩
  | some was =>
    refine ⟨fun cut => ?_, fun both => nomatch both.1⟩
    cases found : firstSplit (occurs "but found".toList) front back with
    | none =>
      rw [found] at cut
      cases cut
    | some sides =>
      rw [found] at cut
      dsimp only at cut
      split at cut <;> cases cut

theorem nearest_of_cut {front back : List Char}
    {parts : List Char × List Char} (cut : cutAtMarker occurs front back = some parts) :
    ∃ marker left right, Nearest occurs front back marker left right ∧
      parts = (left.drop front.length, right.drop marker.toList.length) := by
  unfold cutAtMarker at cut
  cases was : firstSplit (occurs "but was".toList) front back with
  | none =>
    cases found : firstSplit (occurs "but found".toList) front back with
    | none =>
      rw [was, found] at cut
      cases cut
    | some sides =>
      rw [was, found] at cut
      cases cut
      refine ⟨"but found", sides.1, sides.2, ⟨by decide, found, forall_markers.mpr ⟨?_, ?_⟩⟩, rfl⟩
      · intro left' right' here
        rw [was] at here
        cases here
      · intro left' right' here
        rw [found] at here
        cases here
        exact Nat.le_refl _
  | some wasSides =>
    cases found : firstSplit (occurs "but found".toList) front back with
    | none =>
      rw [was, found] at cut
      cases cut
      refine ⟨"but was", wasSides.1, wasSides.2, ⟨by decide, was, forall_markers.mpr ⟨?_, ?_⟩⟩, rfl⟩
      · intro left' right' here
        rw [was] at here
        cases here
        exact Nat.le_refl _
      · intro left' right' here
        rw [found] at here
        cases here
    | some sides =>
      rw [was, found] at cut
      dsimp only at cut
      by_cases nearer : sides.1.length < wasSides.1.length
      · rw [if_pos nearer] at cut
        cases cut
        refine ⟨"but found", sides.1, sides.2, ⟨by decide, found, forall_markers.mpr ⟨?_, ?_⟩⟩, rfl⟩
        · intro left' right' here
          rw [was] at here
          cases here
          exact nearer.le
        · intro left' right' here
          rw [found] at here
          cases here
          exact Nat.le_refl _
      · rw [if_neg nearer] at cut
        cases cut
        refine ⟨"but was", wasSides.1, wasSides.2, ⟨by decide, was, forall_markers.mpr ⟨?_, ?_⟩⟩, rfl⟩
        · intro left' right' here
          rw [was] at here
          cases here
          exact Nat.le_refl _
        · intro left' right' here
          rw [found] at here
          cases here
          exact Nat.le_of_not_lt nearer

/-- Sides of equal length are the same. -/
theorem sides_eq {left right left' right' : List Char} (whole : left ++ right = left' ++ right')
    (length : left.length = left'.length) : left = left' ∧ right = right' :=
  List.append_inj whole length

/-- The nearest marker is where the front is cut. -/
theorem cut_of_nearest {front back left right : List Char}
    {marker : String} (folds : ∀ marker ∈ markers, ∀ left right, occurs marker.toList left right = true →
      foldAt marker.toList left right = true) (near : Nearest occurs front back marker left right) :
    cutAtMarker occurs front back = some (left.drop front.length, right.drop marker.toList.length) := by
  cases cut : cutAtMarker occurs front back with
  | none =>
    have none_ := cutAtMarker_eq_none.mp cut marker near.listed
    rw [near.first] at none_
    cases none_
  | some parts =>
    obtain ⟨other, left', right', near', rfl⟩ := nearest_of_cut cut
    have whole := (firstSplit_append near.first).trans (firstSplit_append near'.first).symm
    obtain ⟨rfl, rfl⟩ := sides_eq whole
      (Nat.le_antisymm (near.nearest _ near'.listed _ _ near'.first)
        (near'.nearest _ near.listed _ _ near.first))
    have same := marker_unique near.listed near'.listed
      (foldAt_iff.mp (folds _ near.listed left right (firstSplit_holds near.first)))
      (foldAt_iff.mp (folds _ near'.listed left right (firstSplit_holds near'.first)))
    rw [same]

theorem cutMessage_eq_some {message : List Char}
    {parts : List Char × List Char} (cut : cutMessage occurs message = some parts) :
    ∃ front back, firstSplit (occurs "expected".toList) [] message = some (front, back) ∧
      cutAtMarker occurs (front ++ back.take 8) (back.drop 8) = some parts := by
  unfold cutMessage at cut
  cases expected : firstSplit (occurs "expected".toList) [] message with
  | none =>
    rw [expected] at cut
    cases cut
  | some sides =>
    rw [expected] at cut
    exact ⟨sides.1, sides.2, rfl, cut⟩

theorem cutMessage_of_expected {message front back : List Char}
    (expected : firstSplit (occurs "expected".toList) [] message = some (front, back)) :
    cutMessage occurs message = cutAtMarker occurs (front ++ back.take 8) (back.drop 8) := by
  unfold cutMessage
  rw [expected]

/-- What the search without word boundaries finds in a message are whole words. -/
structure WholeWords (message : List Char) : Prop where
  expected : ∀ front back, firstSplit (foldAt "expected".toList) [] message = some (front, back) →
    wordAt "expected".toList front back = true
  marker : ∀ front back, firstSplit (foldAt "expected".toList) [] message = some (front, back) →
    ∀ marker left right, Nearest foldAt (front ++ back.take 8) (back.drop 8) marker left right →
      wordAt marker.toList left right = true

theorem nearest_word {front back left right : List Char} {marker : String}
    (near : Nearest foldAt front back marker left right) (word : wordAt marker.toList left right = true) :
    Nearest wordAt front back marker left right where
  listed := near.listed
  first := firstSplit_of_weaker (foldAt_of_wordAt (lower_marker near.listed)) near.first word
  nearest := by
    intro other listed left' right' found
    obtain ⟨left'', right'', earlier, order⟩ :=
      firstSplit_weaker (foldAt_of_wordAt (lower_marker listed)) found
    exact (near.nearest other listed _ _ earlier).trans order

/-- Whole words are where both analysers cut. -/
theorem cut_of_wholeWords {message : List Char} (words : WholeWords message) :
    cutMessage foldAt message = cutMessage wordAt message := by
  cases expected : firstSplit (foldAt "expected".toList) [] message with
  | none =>
    have none_ := firstSplit_none_of_weaker (foldAt_of_wordAt lower_expected) expected
    unfold cutMessage
    rw [expected, none_]
  | some sides =>
    obtain ⟨front, back⟩ := sides
    have word := firstSplit_of_weaker (foldAt_of_wordAt lower_expected) expected
      (words.expected _ _ expected)
    rw [cutMessage_of_expected expected, cutMessage_of_expected word]
    cases cut : cutAtMarker foldAt (front ++ back.take 8) (back.drop 8) with
    | none =>
      refine (cutAtMarker_eq_none.mpr fun marker listed => ?_).symm
      exact firstSplit_none_of_weaker (foldAt_of_wordAt (lower_marker listed))
        (cutAtMarker_eq_none.mp cut marker listed)
    | some parts =>
      obtain ⟨marker, left, right, near, rfl⟩ := nearest_of_cut cut
      have near' := nearest_word near (words.marker _ _ expected _ _ _ near)
      exact (cut_of_nearest (fun marker listed => foldAt_of_wordAt (lower_marker listed)) near').symm

theorem place_of_expected {message front back : List Char}
    (folds : ∀ left right, occurs "expected".toList left right = true →
      foldAt "expected".toList left right = true)
    (expected : firstSplit (occurs "expected".toList) [] message = some (front, back)) :
    "expected".toList <+: (message.drop front.length).map Gradle.foldCase ∧
      (front ++ back.take 8).length = front.length + 8 ∧
      (front ++ back.take 8) ++ back.drop 8 = message := by
  have whole := firstSplit_append expected
  have here := foldAt_iff.mp (folds _ _ (firstSplit_holds expected))
  have fits := here.length_le
  rw [List.length_map] at fits
  change 8 ≤ back.length at fits
  rw [List.nil_append] at whole
  refine ⟨?_, ?_, ?_⟩
  · rwa [← whole, List.drop_left]
  · rw [List.length_append, List.length_take]
    omega
  · rw [List.append_assoc, List.take_append_drop, whole]

theorem place_of_nearest {message front back left right : List Char} {marker : String}
    (folds : ∀ left right, occurs marker.toList left right = true → foldAt marker.toList left right = true)
    (whole : front ++ back = message) (near : Nearest occurs front back marker left right) :
    marker.toList <+: (message.drop left.length).map Gradle.foldCase ∧ front.length ≤ left.length ∧
      right = message.drop left.length ∧
      (message.drop front.length).countP solid =
        (left.drop front.length).countP solid + (message.drop left.length).countP solid := by
  have here := foldAt_iff.mp (folds _ _ (firstSplit_holds near.first))
  obtain ⟨middle, rfl, rfl, -, -⟩ := firstSplit_eq_some.mp near.first
  have behind : message.drop (front ++ middle).length = right := by
    rw [← whole, ← List.append_assoc, List.drop_left]
  rw [behind]
  refine ⟨here, ?_, rfl, ?_⟩
  · rw [List.length_append]
    omega
  · rw [← whole, List.drop_left, List.drop_left, List.countP_append]

theorem head_marker {marker : String} (listed : marker ∈ markers) : marker.toList.head? = some 'b' := by
  exact (forall_markers (p := fun marker => marker.toList.head? = some 'b')).mpr ⟨rfl, rfl⟩ marker listed

theorem length_marker_pos {marker : String} (listed : marker ∈ markers) : 0 < marker.toList.length := by
  exact (forall_markers (p := fun marker => 0 < marker.toList.length)).mpr ⟨by decide, by decide⟩ marker listed

/-- The nearest marker is the same wherever the search for it finds one. -/
theorem nearest_unique {front back left right left' right' : List Char} {marker marker' : String}
    (near : Nearest foldAt front back marker left right)
    (near' : Nearest foldAt front back marker' left' right') :
    marker = marker' ∧ left = left' ∧ right = right' := by
  have whole := (firstSplit_append near.first).trans (firstSplit_append near'.first).symm
  obtain ⟨rfl, rfl⟩ := List.append_inj whole
    (Nat.le_antisymm (near.nearest _ near'.listed _ _ near'.first)
      (near'.nearest _ near.listed _ _ near.first))
  exact ⟨marker_unique near.listed near'.listed (foldAt_iff.mp (firstSplit_holds near.first))
    (foldAt_iff.mp (firstSplit_holds near'.first)), rfl, rfl⟩

/-- When both cuts leave as many solid characters in each part, they are cuts at whole words. -/
theorem wholeWords_of_counts {message : List Char} {report core : List Char × List Char}
    (cutReport : cutMessage foldAt message = some report) (cutCore : cutMessage wordAt message = some core)
    (expectedCount : report.1.countP solid = core.1.countP solid)
    (actualCount : report.2.countP solid = core.2.countP solid) : WholeWords message := by
  obtain ⟨front, back, expected, cut⟩ := cutMessage_eq_some cutReport
  obtain ⟨front', back', expected', cut'⟩ := cutMessage_eq_some cutCore
  obtain ⟨marker, left, right, near, rfl⟩ := nearest_of_cut cut
  obtain ⟨marker', left', right', near', rfl⟩ := nearest_of_cut cut'
  obtain ⟨here, start, whole⟩ := place_of_expected (fun _ _ holds => holds) expected
  obtain ⟨here', start', whole'⟩ := place_of_expected (foldAt_of_wordAt lower_expected) expected'
  obtain ⟨at_, after, rest, count⟩ := place_of_nearest (fun _ _ holds => holds) whole near
  obtain ⟨at', after', rest', count'⟩ :=
    place_of_nearest (foldAt_of_wordAt (lower_marker near'.listed)) whole' near'
  have firstOrder : front.length ≤ front'.length := by
    obtain ⟨_, _, earlier, order⟩ := firstSplit_weaker (foldAt_of_wordAt lower_expected) expected'
    rw [expected] at earlier
    cases earlier
    exact order
  have markerOrder : left.length ≤ left'.length := by
    have sides : left' ++ right' = (front ++ back.take 8) ++ back.drop 8 := by
      rw [firstSplit_append near'.first, whole', whole]
    obtain ⟨middle, inside⟩ : front ++ back.take 8 <+: left' :=
      List.prefix_of_prefix_length_le ⟨_, sides.symm⟩ (List.prefix_append _ _) (by omega)
    have behind : back.drop 8 = middle ++ right' := by
      rw [← inside, List.append_assoc] at sides
      exact (List.append_cancel_left sides).symm
    have holds := foldAt_of_wordAt (lower_marker near'.listed) _ _ (firstSplit_holds near'.first)
    rw [← inside] at holds
    obtain ⟨early, late, found, order⟩ := firstSplit_le holds
    rw [← behind] at found
    rw [inside] at order
    exact (near.nearest _ near'.listed _ _ found).trans order
  -- a later marker would be a part of what the report takes for the observed value
  have samePlace : left.length = left'.length := by
    by_contra differ
    have apart := occurrences_apart (marker_apart near.listed near'.listed) at_ at' (by omega)
    have less := countP_occurrence (by decide) (head_marker near'.listed) at' apart
      (Nat.lt_add_of_pos_right (length_marker_pos near'.listed))
    dsimp only at actualCount
    rw [rest, rest', List.drop_drop, List.drop_drop] at actualCount
    omega
  -- a later `expected` would be a part of what the report takes for the expected value
  have sameStart : front.length = front'.length := by
    by_contra differ
    have apart := @occurrences_apart "expected".toList "expected".toList message _ _ expected_apart here
      here' (by omega)
    have less := countP_occurrence (by decide) rfl here' apart
      (Nat.lt_add_of_pos_right (show 0 < 8 by decide))
    rw [start] at count
    rw [start'] at count'
    rw [samePlace] at count
    dsimp only at expectedCount
    change front.length + 8 ≤ front'.length at apart
    change (message.drop (front'.length + 8)).countP solid <
      (message.drop (front.length + 8)).countP solid at less
    rw [start, start'] at expectedCount
    omega
  obtain ⟨rfl, rfl⟩ := List.append_inj
    ((firstSplit_append expected).trans (firstSplit_append expected').symm) sameStart
  obtain ⟨rfl, rfl⟩ := List.append_inj
    ((firstSplit_append near.first).trans (firstSplit_append near'.first).symm) samePlace
  obtain rfl := marker_unique near.listed near'.listed at_ at'
  constructor
  · intro early late found
    rw [expected] at found
    cases found
    exact firstSplit_holds expected'
  · intro early late found other left' right' other_
    rw [expected] at found
    cases found
    obtain ⟨rfl, rfl, rfl⟩ := nearest_unique near other_
    exact firstSplit_holds near'.first

/-- Blank for exactly one of the two analysers. -/
def oneSided (c : Char) : Bool := c.toNat = 0x85 || (28 ≤ c.toNat && c.toNat ≤ 31)

theorem oneSided_iff (c : Char) :
    Gradle.assertionCharacter c = trimmedCharacter c ↔ oneSided c = false := by
  have plain : oneSided c = true → c ∉ [':', '=', '<', '[', '(', '.', '>', ']', ')'] := by
    intro range inside
    have apart : ([':', '=', '<', '[', '(', '.', '>', ']', ')'].all fun d => !oneSided d) = true := by
      decide
    have plain := List.all_eq_true.mp apart c inside
    rw [range] at plain
    cases plain
  unfold Gradle.assertionCharacter trimmedCharacter
  by_cases inside : c ∈ [':', '=', '<', '[', '(', '.', '>', ']', ')']
  · rw [decide_eq_true inside, Bool.or_true, Bool.or_true]
    refine ⟨fun _ => ?_, fun _ => rfl⟩
    rw [Bool.eq_false_iff]
    exact fun range => plain range inside
  · rw [decide_eq_false inside, Bool.or_false, Bool.or_false, Bool.eq_iff_iff]
    unfold Gradle.isWhitespace whiteSpace oneSided
    simp only [Bool.or_eq_true, Bool.and_eq_true, decide_eq_true_eq, Bool.or_eq_false_iff,
      Bool.and_eq_false_iff, decide_eq_false_iff_not]
    omega

def bothBlank (c : Char) : Bool := Gradle.assertionCharacter c && trimmedCharacter c

/-- Without the blanks of both, the part neither opens nor ends with a blank of one of them. -/
def PlainEnds (part : List Char) : Prop :=
  ∀ c, (trimList bothBlank part).head? = some c ∨ (trimList bothBlank part).getLast? = some c →
    oneSided c = false

theorem plainEnds_iff (part : List Char) :
    trimList Gradle.assertionCharacter part = trimList trimmedCharacter part ↔ PlainEnds part := by
  rw [trimList_eq_iff]
  unfold PlainEnds
  simp only [oneSided_iff]
  rfl

/-- Wherever the message is cut, one of the parts is blank. -/
def NothingLeft (occurs : List Char → List Char → List Char → Bool) (blank : Char → Bool)
    (message : List Char) : Prop :=
  ∀ parts, cutMessage occurs message = some parts →
    parts.1.all blank = true ∨ parts.2.all blank = true

/-- The messages that both analysers read alike. -/
def ReadAlike (message : List Char) : Prop :=
  (WholeWords message ∧
      ∀ parts, cutMessage foldAt message = some parts → PlainEnds parts.1 ∧ PlainEnds parts.2) ∨
    (NothingLeft foldAt Gradle.assertionCharacter message ∧ NothingLeft wordAt trimmedCharacter message)

theorem trimList_eq_nil {blank : Char → Bool} {part : List Char} :
    trimList blank part = [] ↔ part.all blank = true := by
  rw [List.all_eq_true]
  unfold trimList
  rw [List.rdropWhile_eq_nil_iff]
  constructor
  · intro rest c inside
    rw [← List.takeWhile_append_dropWhile (p := blank) (l := part)] at inside
    rcases List.mem_append.mp inside with first | last
    · exact List.mem_takeWhile_imp first
    · exact rest c last
  · exact fun all c inside => all c ((List.dropWhile_suffix blank).subset inside)

theorem keptParts_eq_none {blank : Char → Bool} {parts : List Char × List Char} :
    keptParts blank parts = none ↔ parts.1.all blank = true ∨ parts.2.all blank = true := by
  rw [← trimList_eq_nil, ← trimList_eq_nil]
  unfold keptParts
  change (if trimList blank parts.1 ≠ [] ∧ trimList blank parts.2 ≠ [] then
    some (trimList blank parts.1, trimList blank parts.2) else none) = none ↔ _
  rw [ite_eq_right_iff]
  constructor
  · intro never
    by_contra neither
    cases never (not_or.mp neither)
  · intro either both
    exact absurd either (not_or.mpr both)

theorem keptParts_eq_some {blank : Char → Bool} {parts kept : List Char × List Char}
    (some_ : keptParts blank parts = some kept) :
    kept = (trimList blank parts.1, trimList blank parts.2) := by
  unfold keptParts at some_
  change (if trimList blank parts.1 ≠ [] ∧ trimList blank parts.2 ≠ [] then
    some (trimList blank parts.1, trimList blank parts.2) else none) = some kept at some_
  exact (Option.some.inj (Option.ite_none_right_eq_some.mp some_).2).symm

theorem nothingLeft_iff {blank : Char → Bool}
    {message : List Char} :
    (cutMessage occurs message).bind (keptParts blank) = none ↔ NothingLeft occurs blank message := by
  unfold NothingLeft
  rw [Option.bind_eq_none_iff]
  simp only [keptParts_eq_none]

theorem keptParts_congr {blank blank' : Char → Bool} {parts : List Char × List Char}
    (expected : trimList blank parts.1 = trimList blank' parts.1)
    (actual : trimList blank parts.2 = trimList blank' parts.2) :
    keptParts blank parts = keptParts blank' parts := by
  unfold keptParts
  change (if trimList blank parts.1 ≠ [] ∧ trimList blank parts.2 ≠ [] then
    some (trimList blank parts.1, trimList blank parts.2) else none) = if trimList blank' parts.1 ≠ [] ∧
      trimList blank' parts.2 ≠ [] then some (trimList blank' parts.1, trimList blank' parts.2) else none
  rw [expected, actual]

/-- The report finds the parts that the core finds exactly in the messages that both read alike. -/
theorem analysers_agree_iff (message : List Char) :
    assertionMismatch message = some (Gradle.assertionMismatch message) ↔ ReadAlike message := by
  rw [assertionMismatch_eq, report_eq, Option.some_inj]
  constructor
  · intro same
    cases core : (cutMessage wordAt message).bind (keptParts trimmedCharacter) with
    | none =>
      rw [core] at same
      exact .inr ⟨nothingLeft_iff.mp same.symm, nothingLeft_iff.mp core⟩
    | some kept =>
      rw [core] at same
      obtain ⟨parts, cut, keeps⟩ := Option.bind_eq_some_iff.mp same.symm
      obtain ⟨parts', cut', keeps'⟩ := Option.bind_eq_some_iff.mp core
      have trims := (keptParts_eq_some keeps).symm.trans (keptParts_eq_some keeps')
      obtain ⟨expected, actual⟩ := Prod.mk.inj trims
      have counts : ∀ {part part' : List Char},
          trimList Gradle.assertionCharacter part = trimList trimmedCharacter part' →
            part.countP solid = part'.countP solid := by
        intro part part' same
        rw [← countP_trimList (fun c => solid_report) part, same, countP_trimList fun c => solid_core]
      have words := wholeWords_of_counts cut cut' (counts expected) (counts actual)
      rw [← cut_of_wholeWords words, cut, Option.some_inj] at cut'
      subst cut'
      refine .inl ⟨words, fun other found => ?_⟩
      rw [cut, Option.some_inj] at found
      subst found
      exact ⟨(plainEnds_iff _).mp expected, (plainEnds_iff _).mp actual⟩
  · rintro (⟨words, ends⟩ | ⟨report, core⟩)
    · rw [← cut_of_wholeWords words]
      cases cut : cutMessage foldAt message with
      | none => rfl
      | some parts =>
        obtain ⟨expected, actual⟩ := ends parts cut
        exact (keptParts_congr ((plainEnds_iff _).mpr expected) ((plainEnds_iff _).mpr actual)).symm
    · rw [nothingLeft_iff.mpr report, nothingLeft_iff.mpr core]

/-- The report takes the `expected` inside the first word of a message for the one it looks for. -/
theorem unexpected_differs :
    assertionMismatch "Unexpected exception ==> expected: <A> but was: <B>".toList =
        some (some (['A'], ['B'])) ∧
      Gradle.assertionMismatch "Unexpected exception ==> expected: <A> but was: <B>".toList =
        some ("exception ==> expected: <A".toList, ['B']) ∧
      ¬∀ message, assertionMismatch message = some (Gradle.assertionMismatch message) := by
  refine ⟨by decide +kernel, by decide +kernel, fun agree => ?_⟩
  exact absurd (agree "Unexpected exception ==> expected: <A> but was: <B>".toList) (by decide +kernel)

end Walaru
