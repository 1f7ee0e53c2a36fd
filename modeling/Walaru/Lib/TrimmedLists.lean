import Mathlib.Data.List.DropRight
import Mathlib.Data.List.TakeWhile

/-!
# Trimmed lists

A list without the blanks at its two ends, and how two notions of blank differ in that.
-/
namespace Walaru.Lib.TrimmedLists

variable {α : Type*}

def trimList (blank : α → Bool) (list : List α) : List α := (list.dropWhile blank).rdropWhile blank

theorem reverse_trimList (blank : α → Bool) (list : List α) :
    (trimList blank list).reverse = ((list.dropWhile blank).reverse).dropWhile blank := by
  rw [trimList, List.rdropWhile, List.reverse_reverse]

/-- A list that opens and ends with no blank is trimmed. -/
theorem trimList_of_ends {blank : α → Bool} {list : List α}
    (opens : ∀ a, list.head? = some a → blank a = false)
    (ends : ∀ a, list.getLast? = some a → blank a = false) : trimList blank list = list := by
  have front : ∀ l : List α, (∀ a, l.head? = some a → blank a = false) → l.dropWhile blank = l := by
    intro l first
    cases l with
    | nil => rfl
    | cons a l => exact List.dropWhile_cons_of_neg (by simp [first a rfl])
  rw [trimList, front list opens, List.rdropWhile, front list.reverse fun a last => ends a (by
    rwa [List.head?_reverse] at last), List.reverse_reverse]

theorem head?_dropWhile {blank : α → Bool} {list : List α} {a : α}
    (first : (list.dropWhile blank).head? = some a) : blank a = false := by
  have stop := List.head?_dropWhile_not blank list
  rw [first] at stop
  simpa using stop

/-- A trimmed list ends with no blank. -/
theorem getLast?_trimList {blank : α → Bool} {list : List α} {a : α}
    (last : (trimList blank list).getLast? = some a) : blank a = false := by
  rw [← List.head?_reverse, reverse_trimList] at last
  exact head?_dropWhile last

/-- A trimmed list opens with no blank. -/
theorem head?_trimList {blank : α → Bool} {list : List α} {a : α}
    (first : (trimList blank list).head? = some a) : blank a = false := by
  obtain ⟨rest, whole⟩ := List.rdropWhile_prefix blank (list.dropWhile blank)
  refine @head?_dropWhile _ blank list a ?_
  rw [← whole, List.head?_append]
  change ((trimList blank list).head?).or _ = _
  rw [first, Option.some_or]

/-- A list that opens with no blank still opens with it when it is trimmed. -/
theorem head?_trimList_of {blank : α → Bool} {list : List α} {a : α} (first : list.head? = some a)
    (occupied : blank a = false) : (trimList blank list).head? = some a := by
  obtain ⟨rest, rfl⟩ : ∃ rest, list = a :: rest := by
    cases list with
    | nil => cases first
    | cons b rest =>
      cases first
      exact ⟨rest, rfl⟩
  have kept : (a :: rest).dropWhile blank = a :: rest := List.dropWhile_cons_of_neg (by simp [occupied])
  have whole := List.rdropWhile_prefix blank (a :: rest)
  rw [trimList, kept]
  cases shape : (a :: rest).rdropWhile blank with
  | nil =>
    have all := List.rdropWhile_eq_nil_iff.mp shape a List.mem_cons_self
    rw [occupied] at all
    cases all
  | cons b more =>
    rw [shape] at whole
    rw [(List.cons_prefix_cons.mp whole).1]
    rfl

/-- The list is its trimmed part between blanks. -/
theorem trimList_between (blank : α → Bool) (list : List α) :
    ∃ before after, list = before ++ trimList blank list ++ after ∧
      (∀ a ∈ before, blank a = true) ∧ ∀ a ∈ after, blank a = true := by
  refine ⟨list.takeWhile blank, ((list.dropWhile blank).reverse.takeWhile blank).reverse, ?_, ?_, ?_⟩
  · have rest : list.dropWhile blank =
        trimList blank list ++ ((list.dropWhile blank).reverse.takeWhile blank).reverse := by
      rw [trimList, List.rdropWhile, ← List.reverse_append, List.takeWhile_append_dropWhile,
        List.reverse_reverse]
    rw [List.append_assoc, ← rest, List.takeWhile_append_dropWhile]
  · exact fun a inside => List.mem_takeWhile_imp inside
  · exact fun a inside => List.mem_takeWhile_imp (List.mem_reverse.mp inside)

/-- Blanks at the ends make no difference. -/
theorem trimList_append (blank : α → Bool) {before after : List α} (list : List α)
    (opens : ∀ a ∈ before, blank a = true) (ends : ∀ a ∈ after, blank a = true) :
    trimList blank (before ++ list ++ after) = trimList blank list := by
  have back : ∀ l : List α, (l ++ after).rdropWhile blank = l.rdropWhile blank := by
    intro l
    rw [List.rdropWhile, List.rdropWhile, List.reverse_append,
      List.dropWhile_append_of_pos fun a inside => ends a (List.mem_reverse.mp inside)]
  rw [trimList, trimList, List.append_assoc, List.dropWhile_append_of_pos opens, List.dropWhile_append]
  split
  · rename_i empty
    have none_ : list.dropWhile blank = [] := List.isEmpty_iff.mp empty
    rw [none_, List.dropWhile_eq_nil_iff.mpr ends]
  · exact back _

/-- A coarser notion of blank trims what a finer one has left. -/
theorem trimList_trimList {fine coarse : α → Bool} (weaker : ∀ a, fine a = true → coarse a = true)
    (list : List α) : trimList coarse (trimList fine list) = trimList coarse list := by
  obtain ⟨before, after, whole, opens, ends⟩ := trimList_between fine list
  conv_rhs => rw [whole]
  exact (trimList_append coarse _ (fun a inside => weaker a (opens a inside))
    fun a inside => weaker a (ends a inside)).symm

/-- What is never blank is not trimmed. -/
theorem countP_trimList {blank solid : α → Bool} (apart : ∀ a, solid a = true → blank a = false)
    (list : List α) : (trimList blank list).countP solid = list.countP solid := by
  obtain ⟨before, after, whole, opens, ends⟩ := trimList_between blank list
  have silent : ∀ l : List α, (∀ a ∈ l, blank a = true) → l.countP solid = 0 := by
    intro l blanks
    rw [List.countP_eq_zero]
    intro a inside here
    have blank_ := blanks a inside
    rw [apart a here] at blank_
    cases blank_
  conv_rhs => rw [whole]
  rw [List.countP_append, List.countP_append, silent before opens, silent after ends, Nat.zero_add,
    Nat.add_zero]

/-- A list that ends with no blank still ends with it when it is trimmed. -/
theorem getLast?_trimList_of {blank : α → Bool} {list : List α} {a : α}
    (last : list.getLast? = some a) (occupied : blank a = false) :
    (trimList blank list).getLast? = some a := by
  obtain ⟨front, rfl⟩ := List.getLast?_eq_some_iff.mp last
  have kept : (front ++ [a]).dropWhile blank = front.dropWhile blank ++ [a] := by
    have single : [a].dropWhile blank = [a] := List.dropWhile_cons_of_neg (by simp [occupied])
    rw [List.dropWhile_append]
    split
    · rename_i empty
      rw [List.isEmpty_iff.mp empty, single, List.nil_append]
    · rfl
  rw [trimList, kept, List.rdropWhile_concat_neg _ _ _ (by simp [occupied]), List.getLast?_concat]

/-- A front with a blank at neither end is kept, and what follows it loses only its end. -/
theorem trimList_append_solid {blank : α → Bool} {a b : α} {front : List α} (back : List α)
    (opens : front.head? = some a) (first : blank a = false) (ends : front.getLast? = some b)
    (last : blank b = false) : trimList blank (front ++ back) = front ++ back.rdropWhile blank := by
  have kept : (front ++ back).dropWhile blank = front ++ back := by
    cases front with
    | nil => cases opens
    | cons c front =>
      cases opens
      exact List.dropWhile_cons_of_neg (by simp [first])
  have stops : front.rdropWhile blank = front := by
    obtain ⟨rest, rfl⟩ := List.getLast?_eq_some_iff.mp ends
    exact List.rdropWhile_concat_neg _ _ _ (by simp [last])
  rw [trimList, kept, List.rdropWhile, List.reverse_append, List.dropWhile_append]
  split
  · rename_i empty
    rw [List.rdropWhile, List.isEmpty_iff.mp empty, List.reverse_nil, List.append_nil]
    exact stops
  · rw [List.reverse_append, List.reverse_reverse, List.rdropWhile]

/-- Two notions of blank trim a list alike when they agree on what is left at its two ends by the
blanks of both. -/
theorem trimList_eq_iff (p q : α → Bool) (list : List α) :
    trimList p list = trimList q list ↔
      ∀ a, (trimList (fun a => p a && q a) list).head? = some a ∨
        (trimList (fun a => p a && q a) list).getLast? = some a → p a = q a := by
  have left : trimList p (trimList (fun a => p a && q a) list) = trimList p list :=
    trimList_trimList (fun a both => (Bool.and_eq_true_iff.mp both).1) list
  have right : trimList q (trimList (fun a => p a && q a) list) = trimList q list :=
    trimList_trimList (fun a both => (Bool.and_eq_true_iff.mp both).2) list
  have open_ : ∀ a, (trimList (fun a => p a && q a) list).head? = some a → (p a && q a) = false :=
    fun a => head?_trimList
  have close : ∀ a, (trimList (fun a => p a && q a) list).getLast? = some a → (p a && q a) = false :=
    fun a => getLast?_trimList
  rw [← left, ← right]
  generalize trimList (fun a => p a && q a) list = inner at *
  constructor
  · intro same a outer
    cases here : p a <;> cases there : q a
    · rfl
    · exfalso
      rcases outer with first | last
      · have kept := head?_trimList_of first here
        rw [same] at kept
        exact absurd (head?_trimList kept) (by rw [there]; decide)
      · have kept := getLast?_trimList_of last here
        rw [same] at kept
        exact absurd (getLast?_trimList kept) (by rw [there]; decide)
    · exfalso
      rcases outer with first | last
      · have kept := head?_trimList_of first there
        rw [← same] at kept
        exact absurd (head?_trimList kept) (by rw [here]; decide)
      · have kept := getLast?_trimList_of last there
        rw [← same] at kept
        exact absurd (getLast?_trimList kept) (by rw [here]; decide)
    · rfl
  · intro agree
    have neither : ∀ a, inner.head? = some a ∨ inner.getLast? = some a → p a = false ∧ q a = false := by
      intro a outer
      have same := agree a outer
      have some_ := outer.elim (open_ a) (close a)
      rw [same, Bool.and_self] at some_
      exact ⟨same.trans some_, some_⟩
    rw [trimList_of_ends (fun a first => (neither a (.inl first)).1) fun a last => (neither a (.inr last)).1,
      trimList_of_ends (fun a first => (neither a (.inl first)).2) fun a last => (neither a (.inr last)).2]

end Walaru.Lib.TrimmedLists
