import Mathlib.Data.List.Infix
import Walaru.Lib.TextParts

/-!
# The words of a text

A text cut at its blanks: the words are what trimming and collapsing blanks keep, and
joining them with single blanks loses nothing of them. A needle made of other characters
than a text's tail is found in front of the tail.
-/
namespace Walaru.Lib.Text

section Words
variable {blank : Char → Bool}

/-- The maximal runs of characters that are not blank. -/
def words (blank : Char → Bool) : List Char → List (List Char)
  | [] => []
  | c :: rest =>
    if blank c then words blank rest
    else if rest.head?.any fun next => !blank next then (words blank rest).modifyHead (c :: ·)
    else [c] :: words blank rest

theorem words_cons_blank {c : Char} (gap : blank c = true) (rest : List Char) :
    words blank (c :: rest) = words blank rest := by
  rw [words, if_pos gap]

theorem words_ne_nil {c : Char} (solid : blank c = false) (rest : List Char) :
    words blank (c :: rest) ≠ [] := by
  induction rest generalizing c with
  | nil => simp [words, solid]
  | cons next rest ih =>
    by_cases gap : blank next = true
    · simp [words, solid, gap]
    · have later := ih (by simpa using gap)
      obtain ⟨first, others, whole⟩ := List.exists_cons_of_ne_nil later
      simp [words, solid, gap] at whole ⊢
      simp [whole]

/-- A word grows at the front. -/
theorem words_cons_cons {c next : Char} (solid : blank c = false) (more : blank next = false)
    (rest : List Char) :
    words blank (c :: next :: rest) = (words blank (next :: rest)).modifyHead (c :: ·) := by
  rw [words, if_neg (by simp [solid]), if_pos (by simp [more])]

/-- A word that ends here. -/
theorem words_append {word : List Char} (solid : ∀ c ∈ word, blank c = false) (some_ : word ≠ [])
    {rest : List Char} (stops : ∀ c ∈ rest.head?, blank c = true) :
    words blank (word ++ rest) = word :: words blank rest := by
  induction word with
  | nil => exact absurd rfl some_
  | cons c word ih =>
    rw [List.forall_mem_cons] at solid
    cases word with
    | nil =>
      have last : (rest.head?.any fun next => !blank next) = false := by
        rw [Option.any_eq_false]
        intro next first
        simp [stops next first]
      rw [List.singleton_append, words, solid.1, if_neg Bool.false_ne_true, last,
        if_neg Bool.false_ne_true]
    | cons next word =>
      have grown := words_cons_cons solid.1 (solid.2 next (by simp)) (word ++ rest)
      rw [List.cons_append, List.cons_append, grown, ← List.cons_append,
        ih solid.2 (List.cons_ne_nil _ _)]
      rfl

/-- Nothing but the blanks is lost. -/
theorem flatten_words (text : List Char) :
    (words blank text).flatten = text.filter fun c => !blank c := by
  induction text with
  | nil => rfl
  | cons c rest ih =>
    by_cases gap : blank c = true
    · rw [words_cons_blank gap, ih]
      simp [gap]
    · have solid : blank c = false := by simpa using gap
      cases rest with
      | nil => simp [words, solid]
      | cons next rest =>
        by_cases ends : blank next = true
        · rw [words, if_neg (by simp [solid]), if_neg (by simp [ends]), List.flatten_cons, ih]
          simp [solid]
        · have more : blank next = false := by simpa using ends
          obtain ⟨first, others, whole⟩ := List.exists_cons_of_ne_nil (words_ne_nil more rest)
          rw [words_cons_cons solid more, List.filter_cons_of_pos (by simp [solid]), ← ih, whole]
          rfl

theorem mem_words {text word : List Char} (member : word ∈ words blank text) {c : Char}
    (inside : c ∈ word) : blank c = false := by
  have kept : c ∈ (words blank text).flatten := List.mem_flatten.mpr ⟨word, member, inside⟩
  rw [flatten_words, List.mem_filter] at kept
  simpa using kept.2

theorem nil_notMem_words (text : List Char) : [] ∉ words blank text := by
  induction text with
  | nil => simp [words]
  | cons c rest ih =>
    rw [words]
    split
    · exact ih
    · split
      · cases whole : words blank rest with
        | nil => simp
        | cons first others =>
          rw [whole] at ih
          simp only [List.modifyHead_cons, List.mem_cons, not_or] at ih ⊢
          exact ⟨(List.cons_ne_nil _ _).symm, ih.2⟩
      · simp [ih]

theorem count_words {c : Char} (solid : blank c = false) (text : List Char) :
    (words blank text).flatten.count c = text.count c := by
  rw [flatten_words, List.count_filter (by simp [solid])]

theorem words_dropWhile (text : List Char) : words blank (text.dropWhile blank) = words blank text := by
  induction text with
  | nil => rfl
  | cons c rest ih =>
    by_cases gap : blank c = true
    · rw [List.dropWhile_cons_of_pos gap, ih, words_cons_blank gap]
    · rw [List.dropWhile_cons_of_neg gap]

theorem words_concat {c : Char} (gap : blank c = true) (text : List Char) :
    words blank (text ++ [c]) = words blank text := by
  induction text with
  | nil => simp [words, gap]
  | cons d rest ih =>
    cases rest with
    | nil => simp [words, gap]
    | cons next rest =>
      change words blank (d :: (next :: rest ++ [c])) = _
      rw [words, words, ih]
      rfl

theorem words_rdropWhile (text : List Char) : words blank (text.rdropWhile blank) = words blank text := by
  induction text using List.reverseRecOn with
  | nil => rfl
  | append_singleton text c ih =>
    by_cases gap : blank c = true
    · rw [List.rdropWhile_concat_pos _ _ _ gap, ih, words_concat gap]
    · rw [List.rdropWhile_concat_neg _ _ _ gap]

/-- Words joined with single blanks are read back. -/
theorem words_intercalate {separator : Char} (gap : blank separator = true) {ws : List (List Char)}
    (solid : ∀ word ∈ ws, ∀ c ∈ word, blank c = false) (some_ : [] ∉ ws) :
    words blank ([separator].intercalate ws) = ws := by
  induction ws with
  | nil => rfl
  | cons word rest ih =>
    rw [List.mem_cons, not_or] at some_
    have here := solid word (by simp)
    have occupied : word ≠ [] := fun same => some_.1 same.symm
    cases rest with
    | nil =>
      have whole : words blank (word ++ []) = [word] := words_append here occupied (by simp)
      simpa [List.intercalate, words] using whole
    | cons next rest =>
      have later := ih (fun other member => solid other (List.mem_cons_of_mem _ member)) some_.2
      rw [List.intercalate_cons_cons, List.append_assoc, words_append here occupied (by simp [gap]),
        List.singleton_append, words_cons_blank gap, later]

end Words

theorem containsText_iff (needle s : String) :
    containsText needle s = true ↔ needle.toList <:+: s.toList := by
  rw [containsText, List.any_eq_true, List.infix_iff_prefix_suffix]
  constructor
  · rintro ⟨rest, tail, found⟩
    exact ⟨rest, List.isPrefixOf_iff_prefix.mp found, (List.mem_tails _ _).mp tail⟩
  · rintro ⟨rest, found, tail⟩
    exact ⟨rest, (List.mem_tails _ _).mpr tail, List.isPrefixOf_iff_prefix.mpr found⟩

theorem startsWith_iff (pre s : String) : startsWith pre s = true ↔ pre.toList <+: s.toList := by
  rw [startsWith, List.isPrefixOf_iff_prefix]

/-- A needle without the characters of the tail lies in front of it. -/
theorem infix_append_iff {needle text tail : List Char} (some_ : needle ≠ [])
    (other : ∀ c ∈ tail, c ∉ needle) : needle <:+: text ++ tail ↔ needle <:+: text := by
  refine ⟨fun found => ?_, fun found => found.trans (List.prefix_append _ _).isInfix⟩
  induction tail using List.reverseRecOn with
  | nil => simpa using found
  | append_singleton tail c ih =>
    rw [← List.append_assoc, List.infix_concat_iff] at found
    rcases found with last | earlier
    · have ends : c ∈ needle := by
        obtain ⟨front, whole⟩ := last
        rw [← List.dropLast_append_getLast some_, ← List.append_assoc] at whole
        have same := (List.append_inj' whole rfl).2
        rw [List.cons.injEq] at same
        exact same.1 ▸ List.getLast_mem some_
      exact absurd ends (other c (by simp))
    · exact ih (fun d member => other d (List.mem_append_left _ member)) earlier

theorem prefix_append_iff {needle text tail : List Char} (other : ∀ c ∈ tail.head?, c ∉ needle) :
    needle <+: text ++ tail ↔ needle <+: text := by
  refine ⟨fun found => ?_, fun found => found.trans (List.prefix_append _ _)⟩
  rcases List.prefix_or_prefix_of_prefix found (List.prefix_append text tail) with short | long
  · exact short
  · obtain ⟨more, rfl⟩ := long
    rw [List.prefix_append_right_inj] at found
    cases more with
    | nil => simp
    | cons c more =>
      obtain ⟨rest, rfl⟩ := found
      exact absurd (by simp) (other c (by simp))

end Walaru.Lib.Text
