import Mathlib.Data.List.Sort
import Std.Data.ExtTreeMap

/-!
# Maps filled from a list

Each entry of the list replaces what the map had under its key, so the last entry of a
key stands. Sorting the list by the key first does not change which one that is.
-/
namespace Walaru.Lib.LastEntries

variable {α κ ν : Type*}

theorem filled_get? [Ord κ] [Std.TransOrd κ] [Std.LawfulEqOrd κ] [DecidableEq κ] (key : α → κ)
    (value : α → ν) (k : κ) (entries : List α) (map : Std.ExtTreeMap κ ν compare) :
    (entries.foldl (fun map entry => map.insert (key entry) (value entry)) map).get? k =
      ((entries.filter fun entry => key entry = k).getLast?.map value).or (map.get? k) := by
  induction entries generalizing map with
  | nil => rfl
  | cons entry rest ih =>
    rw [List.foldl_cons, ih]
    by_cases same : key entry = k
    · rw [List.filter_cons_of_pos (by simpa using same), List.getLast?_cons]
      cases (rest.filter fun entry => key entry = k).getLast? <;> simp [same]
    · rw [List.filter_cons_of_neg (by simpa using same)]
      simp [Std.ExtTreeMap.getElem?_insert, same]

/-- Sorting by a key keeps entries of one key in their order. -/
theorem filter_insertionSort [LinearOrder κ] (key : α → κ) (k : κ) (entries : List α) :
    ((entries.insertionSort fun a b => key a ≤ key b).filter fun entry => key entry = k) =
      entries.filter fun entry => key entry = k := by
  have equal : (entries.filter fun entry => key entry = k).Pairwise fun a b => key a ≤ key b := by
    refine List.pairwise_of_forall_mem_list fun a first b second => ?_
    rw [List.mem_filter, decide_eq_true_eq] at first second
    exact le_of_eq (first.2.trans second.2.symm)
  have kept := (List.sublist_insertionSort equal List.filter_sublist).filter
    (fun entry => decide (key entry = k))
  simp only [List.filter_filter, Bool.and_self] at kept
  refine (kept.eq_of_length ?_).symm
  exact ((List.perm_insertionSort _ entries).filter _).length_eq.symm

/-- Without repetition, an entry is the last one unless another one follows it. -/
theorem getLast?_iff {entries : List α} (nodup : entries.Nodup) {a : α} (member : a ∈ entries) :
    entries.getLast? = some a ↔ ¬ ∃ b, [a, b].Sublist entries := by
  constructor
  · intro last later
    obtain ⟨b, pair⟩ := later
    obtain ⟨front, rfl⟩ := List.getLast?_eq_some_iff.mp last
    obtain ⟨first, second, split, inFront, atEnd⟩ := List.sublist_append_iff.mp pair
    cases first with
    | nil =>
      have short := atEnd.length_le
      rw [← List.nil_append second, ← split] at short
      simp at short
    | cons c rest =>
      obtain ⟨rfl, -⟩ := List.cons.inj split
      have again := inFront.subset List.mem_cons_self
      exact (List.nodup_append.mp nodup).2.2 a again a (List.mem_singleton_self a) rfl
  · intro alone
    obtain ⟨front, behind, rfl⟩ := List.append_of_mem member
    cases behind with
    | nil => exact List.getLast?_concat
    | cons next rest =>
      have pair : [a, next].Sublist (a :: next :: rest) :=
        List.Sublist.cons_cons a (List.Sublist.cons_cons next (List.nil_sublist rest))
      exact absurd ⟨next, pair.trans (List.sublist_append_right front _)⟩ alone

end Walaru.Lib.LastEntries
