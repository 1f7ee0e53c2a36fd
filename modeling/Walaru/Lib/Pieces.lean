import Mathlib.Data.List.Basic

/-!
# Pieces of a list

A list cut after each separator. The pieces join to the list, none is empty, and the
separator stands at the end of each of them and nowhere else; only the last one may lack
it. There is one such cut.
-/
namespace Walaru.Lib.Pieces

variable {α : Type} {separator : α}

/-- The list is cut after each separator. -/
structure Cut (separator : α) (whole : List α) (parts : List (List α)) : Prop where
  joined : parts.flatten = whole
  nonempty : ∀ part ∈ parts, part ≠ []
  inside : ∀ part ∈ parts, separator ∉ part.dropLast
  ended : ∀ part ∈ parts.dropLast, part.getLast? = some separator

/-- Induction by pieces: nothing, a last piece, or a piece and what is behind it. -/
theorem induction_on {motive : List α → Prop} (whole : List α) (empty : motive [])
    (last : ∀ line, separator ∉ line → line ≠ [] → motive line)
    (piece : ∀ line rest, separator ∉ line → motive rest → motive (line ++ separator :: rest)) :
    motive whole := by
  induction size : whole.length using Nat.strongRecOn generalizing whole with
  | _ n ih =>
    by_cases present : separator ∈ whole
    · obtain ⟨line, rest, rfl, free⟩ := List.eq_append_cons_of_mem present
      rw [List.length_append, List.length_cons] at size
      exact piece line rest free (ih rest.length (by omega) rest rfl)
    · by_cases nothing : whole = []
      · rw [nothing]
        exact empty
      · exact last whole present nothing

variable [DecidableEq α]

def pieces (separator : α) : List α → List (List α)
  | [] => []
  | a :: rest =>
    if a = separator then [a] :: pieces separator rest
    else
      match pieces separator rest with
      | [] => [[a]]
      | first :: more => (a :: first) :: more

theorem pieces_ended {line : List α} (free : separator ∉ line) (rest : List α) :
    pieces separator (line ++ separator :: rest) =
      (line ++ [separator]) :: pieces separator rest := by
  induction line with
  | nil => simp [pieces]
  | cons a line ih =>
    rw [List.mem_cons, not_or] at free
    have other : a ≠ separator := fun same => free.1 same.symm
    rw [List.cons_append, pieces, if_neg other, ih free.2, List.cons_append]

theorem pieces_free {line : List α} (free : separator ∉ line) (occupied : line ≠ []) :
    pieces separator line = [line] := by
  induction line with
  | nil => exact absurd rfl occupied
  | cons a line ih =>
    rw [List.mem_cons, not_or] at free
    have other : a ≠ separator := fun same => free.1 same.symm
    rw [pieces, if_neg other]
    cases line with
    | nil => rfl
    | cons b line => rw [ih free.2 (List.cons_ne_nil _ _)]

theorem pieces_cut (separator : α) (whole : List α) :
    Cut separator whole (pieces separator whole) := by
  induction whole using @induction_on _ separator with
  | empty => exact ⟨rfl, by simp [pieces], by simp [pieces], by simp [pieces]⟩
  | last line free occupied =>
    rw [pieces_free free occupied]
    refine ⟨by simp, by simpa using occupied, ?_, by simp⟩
    simpa using fun member => free (List.dropLast_subset _ member)
  | piece line rest free ih =>
    rw [pieces_ended free]
    refine ⟨by simp [ih.joined], ?_, ?_, ?_⟩
    · simpa using ih.nonempty
    · simpa [free] using ih.inside
    · cases later : pieces separator rest with
      | nil => simp
      | cons second more =>
        have ended := ih.ended
        rw [later] at ended
        rw [List.dropLast_cons_cons, List.forall_mem_cons]
        exact ⟨by simp, ended⟩

end Walaru.Lib.Pieces
