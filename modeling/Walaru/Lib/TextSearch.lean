import Mathlib.Data.List.Infix

/-!
# Searching a text

The first and the last occurrence of a text in another, the part before a character and the
part behind it, and a start taken off once or as often as it stands there. A text that ends
with a separator is found only where a separator stands.
-/
namespace Walaru.Lib.TextSearch

variable {α : Type}

/-- An occurrence does not begin in a part without its first element. -/
theorem infix_append_of_free {a : α} {needle front text : List α} (free : a ∉ front)
    (inside : a :: needle <:+: front ++ text) : a :: needle <:+: text := by
  induction front with
  | nil => exact inside
  | cons c front ih =>
    rw [List.mem_cons, not_or] at free
    rcases List.infix_cons_iff.mp inside with starts | later
    · exact absurd (List.cons_prefix_cons.mp starts).1 free.1
    · exact ih free.2 later

/-- A start that ends with a separator lies in front of the next one or ends there. -/
theorem prefix_append_separator {separator : α} {stem text rest : List α} (free : separator ∉ stem)
    (starts : stem ++ [separator] <+: text ++ separator :: rest) :
    stem ++ [separator] <+: text ∨ stem = text := by
  induction stem generalizing text with
  | nil =>
    cases text with
    | nil => exact .inr rfl
    | cons c text =>
      obtain ⟨rfl, -⟩ := List.cons_prefix_cons.mp starts
      exact .inl (List.cons_prefix_cons.mpr ⟨rfl, List.nil_prefix⟩)
  | cons a stem ih =>
    rw [List.mem_cons, not_or] at free
    cases text with
    | nil =>
      obtain ⟨rfl, -⟩ := List.cons_prefix_cons.mp starts
      exact absurd rfl free.1
    | cons c text =>
      obtain ⟨rfl, later⟩ := List.cons_prefix_cons.mp starts
      rcases ih free.2 later with inside | same
      · exact .inl (List.cons_prefix_cons.mpr ⟨rfl, inside⟩)
      · exact .inr (congrArg _ same)

variable [DecidableEq α]

/-- The place of the first occurrence. -/
def findText (needle : List α) : List α → Option Nat
  | [] => none
  | c :: rest =>
    if needle.isPrefixOf (c :: rest) then some 0 else (findText needle rest).map (· + 1)

/-- What is behind the last occurrence. -/
def afterLast (needle : List α) : List α → Option (List α)
  | [] => none
  | c :: rest =>
    match afterLast needle rest with
    | some after => some after
    | none =>
      if needle.isPrefixOf (c :: rest) then some ((c :: rest).drop needle.length) else none

def stripStart (needle text : List α) : Option (List α) :=
  if needle.isPrefixOf text then some (text.drop needle.length) else none

/-- The start is taken off at most `fuel` times. -/
def stripRepeated (needle : List α) : Nat → List α → List α
  | 0, text => text
  | fuel + 1, text =>
    match stripStart needle text with
    | some rest => stripRepeated needle fuel rest
    | none => text

/-- The parts around the first occurrence of an element. -/
def splitAround (c : α) (text : List α) : Option (List α × List α) :=
  if c ∈ text then some (text.takeWhile (· ≠ c), (text.dropWhile (· ≠ c)).drop 1) else none

theorem findText_isSome {needle : List α} (occupied : needle ≠ []) (text : List α) :
    (findText needle text).isSome = true ↔ needle <:+: text := by
  induction text with
  | nil => simp [findText, occupied]
  | cons c rest ih =>
    rw [findText, List.infix_cons_iff, ← List.isPrefixOf_iff_prefix, ← ih]
    split
    · simp_all
    · simp_all

theorem afterLast_isSome {needle : List α} (occupied : needle ≠ []) (text : List α) :
    (afterLast needle text).isSome = true ↔ needle <:+: text := by
  induction text with
  | nil => simp [afterLast, occupied]
  | cons c rest ih =>
    rw [afterLast, List.infix_cons_iff, ← List.isPrefixOf_iff_prefix, ← ih]
    split
    · simp_all
    · split
      · simp_all
      · simp_all

theorem afterLast_none {needle text : List α} (occupied : needle ≠ []) (absent : ¬needle <:+: text) :
    afterLast needle text = none := by
  rw [← afterLast_isSome occupied text, Bool.not_eq_true, Option.isSome_eq_false_iff,
    Option.isNone_iff_eq_none] at absent
  exact absent

/-- In a text that does not hold it, a needle that ends with a separator is found at the
separator behind the text, when the text ends with what is before it. -/
theorem findText_boundary {separator : α} {stem text : List α} (free : separator ∉ stem)
    (absent : ¬stem ++ [separator] <:+: text) (rest : List α) :
    findText (stem ++ [separator]) (text ++ separator :: rest) =
      if stem <:+ text then some (text.length - stem.length)
      else (findText (stem ++ [separator]) rest).map (· + (text.length + 1)) := by
  induction text with
  | nil =>
    rw [List.nil_append, findText]
    cases stem with
    | nil => simp
    | cons a stem =>
      rw [List.mem_cons, not_or] at free
      have other : a ≠ separator := fun same => free.1 same.symm
      simp [other]
  | cons c text ih =>
    rw [List.infix_cons_iff, not_or] at absent
    rw [List.cons_append, findText, ← List.cons_append, ih absent.2]
    have starts : (stem ++ [separator]).isPrefixOf (c :: text ++ separator :: rest) = true ↔
        stem = c :: text := by
      rw [List.isPrefixOf_iff_prefix]
      constructor
      · intro inside
        exact (prefix_append_separator free inside).resolve_left absent.1
      · rintro rfl
        exact (List.prefix_append_right_inj _).mpr (List.cons_prefix_cons.mpr ⟨rfl, List.nil_prefix⟩)
    by_cases whole : stem = c :: text
    · rw [if_pos (starts.mpr whole), if_pos (whole ▸ List.suffix_refl _), whole, Nat.sub_self]
    · rw [if_neg (fun inside => whole (starts.mp inside))]
      have suffixes : stem <:+ c :: text ↔ stem <:+ text := by
        rw [List.suffix_cons_iff]
        exact or_iff_right whole
      by_cases ends : stem <:+ text
      · have short := ends.length_le
        rw [if_pos ends, if_pos (suffixes.mpr ends), Option.map_some, List.length_cons]
        congr 1
        omega
      · rw [if_neg ends, if_neg (fun there => ends (suffixes.mp there)), Option.map_map]
        rfl

theorem splitAround_append {c : α} {text : List α} (free : c ∉ text) (rest : List α) :
    splitAround c (text ++ c :: rest) = some (text, rest) := by
  have stop : ∀ d ∈ text, decide (d ≠ c) = true := by
    intro d inside
    rw [decide_eq_true_eq]
    rintro rfl
    exact free inside
  rw [splitAround, if_pos (List.mem_append_right _ List.mem_cons_self),
    List.takeWhile_append_of_pos stop, List.dropWhile_append_of_pos stop]
  simp

theorem stripStart_append (needle text : List α) : stripStart needle (needle ++ text) = some text := by
  rw [stripStart, if_pos (List.isPrefixOf_iff_prefix.mpr (List.prefix_append _ _)),
    List.drop_left]

theorem stripStart_none {needle text : List α} (absent : ¬needle <+: text) :
    stripStart needle text = none := by
  rw [stripStart, if_neg (fun inside => absent (List.isPrefixOf_iff_prefix.mp inside))]

theorem stripRepeated_none {needle text : List α} (absent : ¬needle <+: text) (fuel : Nat) :
    stripRepeated needle fuel text = text := by
  cases fuel with
  | zero => rfl
  | succ fuel => rw [stripRepeated, stripStart_none absent]

/-- A start that does not repeat is taken off once. -/
theorem stripRepeated_once {needle rest : List α} (occupied : needle ≠ []) (absent : ¬needle <+: rest) :
    stripRepeated needle (needle ++ rest).length (needle ++ rest) = rest := by
  obtain ⟨fuel, size⟩ := Nat.exists_eq_succ_of_ne_zero
    (Nat.ne_of_gt (List.length_pos_of_ne_nil (List.append_ne_nil_of_left_ne_nil occupied rest)))
  rw [size, stripRepeated, stripStart_append]
  exact stripRepeated_none absent fuel

theorem stripStart_suffix {needle text rest : List α} (taken : stripStart needle text = some rest) :
    rest <:+ text := by
  rw [stripStart] at taken
  split at taken
  · obtain rfl := Option.some.inj taken
    exact List.drop_suffix _ _
  · cases taken

theorem stripRepeated_suffix (needle : List α) (fuel : Nat) (text : List α) :
    stripRepeated needle fuel text <:+ text := by
  induction fuel generalizing text with
  | zero => exact List.suffix_refl _
  | succ fuel ih =>
    rw [stripRepeated]
    split
    · rename_i rest taken
      exact (ih rest).trans (stripStart_suffix taken)
    · exact List.suffix_refl _

/-- Nothing is taken off exactly when the text does not start so. -/
theorem stripRepeated_eq_iff {needle : List α} (occupied : needle ≠ []) {fuel : Nat}
    (positive : 0 < fuel) (text : List α) :
    stripRepeated needle fuel text = text ↔ ¬needle <+: text := by
  constructor
  · rintro same ⟨rest, rfl⟩
    obtain ⟨fuel, rfl⟩ := Nat.exists_eq_succ_of_ne_zero (Nat.ne_of_gt positive)
    rw [stripRepeated, stripStart_append] at same
    have short := congrArg List.length same
    have bound := (stripRepeated_suffix needle fuel rest).length_le
    have long := List.length_pos_of_ne_nil occupied
    simp only [List.length_append] at short bound
    omega
  · exact fun absent => stripRepeated_none absent fuel

end Walaru.Lib.TextSearch
