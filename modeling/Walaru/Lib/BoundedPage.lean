import Mathlib.Algebra.Order.Ring.Nat
import Mathlib.Algebra.BigOperators.Group.List.Basic

/-!
# Reading a page under an item and a byte limit

The loop takes rows while fewer than `limit` are taken and the next row still
fits the byte budget; the first row is taken whatever its size. Sizes add with
saturation at `cap`, the largest machine size. The page is always a prefix, and
it is the whole list exactly when the list fits.
-/
namespace Walaru.Lib.BoundedPage

section Page
variable {α : Type*} (cap : Nat) (size : α → Nat) (limit maxBytes : Nat)

def saturatingAdd (a b : Nat) : Nat := min (a + b) cap

/-- `taken` items of `bytes` bytes are on the page; the flag says that rows are left. -/
def fill (taken bytes : Nat) : List α → List α × Bool
  | [] => ([], false)
  | row :: rest =>
    if limit ≤ taken then ([], true)
    else if taken ≠ 0 ∧ maxBytes < saturatingAdd cap bytes (size row) then ([], true)
    else
      let more := fill (taken + 1) (saturatingAdd cap bytes (size row)) rest
      (row :: more.1, more.2)

@[simp] theorem fill_nil (taken bytes : Nat) :
    fill cap size limit maxBytes taken bytes [] = ([], false) := rfl

theorem fill_cons (taken bytes : Nat) (row : α) (rest : List α) :
    fill cap size limit maxBytes taken bytes (row :: rest) =
      if limit ≤ taken then ([], true)
      else if taken ≠ 0 ∧ maxBytes < saturatingAdd cap bytes (size row) then ([], true)
      else
        let more := fill cap size limit maxBytes (taken + 1) (saturatingAdd cap bytes (size row)) rest
        (row :: more.1, more.2) := rfl

/-- The rows fit one page: not too many, and within the byte budget unless there
is at most one. -/
def Fits (rows : List α) : Prop :=
  rows.length ≤ limit ∧ (rows.length ≤ 1 ∨ (rows.map size).sum ≤ maxBytes)

instance (rows : List α) : Decidable (Fits size limit maxBytes rows) := by
  unfold Fits
  infer_instance

theorem fill_begins (taken bytes : Nat) (rows : List α) :
    (fill cap size limit maxBytes taken bytes rows).1 <+: rows := by
  induction rows generalizing taken bytes with
  | nil => simp
  | cons row rest ih =>
    simp only [fill_cons]
    split
    · exact List.nil_prefix
    · split
      · exact List.nil_prefix
      · exact (List.prefix_cons_inj row).mpr (ih _ _)

theorem fill_length_le (taken bytes : Nat) (rows : List α) :
    (fill cap size limit maxBytes taken bytes rows).1.length ≤ limit - taken := by
  induction rows generalizing taken bytes with
  | nil => simp
  | cons row rest ih =>
    simp only [fill_cons]
    split
    · simp
    · split
      · simp
      · have := ih (taken + 1) (saturatingAdd cap bytes (size row))
        simp only [List.length_cons]
        omega

theorem maxBytes_lt_saturatingAdd (below : maxBytes < cap) (bytes more : Nat) :
    maxBytes < saturatingAdd cap bytes more ↔ maxBytes < bytes + more := by
  unfold saturatingAdd
  omega

/-- Once something is on the page, the rest is taken whole exactly when its count
and its bytes fit what is left. -/
theorem fill_whole_iff_of_taken (below : maxBytes < cap) (taken bytes : Nat)
    (started : taken ≠ 0) (rows : List α) :
    (fill cap size limit maxBytes taken bytes rows).1 = rows ↔
      rows = [] ∨ (taken + rows.length ≤ limit ∧ bytes + (rows.map size).sum ≤ maxBytes) := by
  induction rows generalizing taken bytes with
  | nil => simp
  | cons row rest ih =>
    have grown := maxBytes_lt_saturatingAdd cap maxBytes below bytes (size row)
    simp only [fill_cons, List.map_cons, List.sum_cons, List.length_cons, reduceCtorEq, false_or]
    split
    · simp only [reduceCtorEq, false_iff]
      omega
    · split
      · simp only [reduceCtorEq, false_iff]
        omega
      · rename_i room fits
        have exact_sum : saturatingAdd cap bytes (size row) = bytes + size row := by
          unfold saturatingAdd at grown fits ⊢
          omega
        simp only [List.cons.injEq, true_and]
        rw [ih (taken + 1) _ (by omega), exact_sum]
        constructor
        · rintro (rfl | ⟨count, total⟩)
          · simp only [List.length_nil, List.map_nil, List.sum_nil]
            omega
          · omega
        · intro whole
          omega

/-- A page read from the start holds every row exactly when the rows fit. -/
theorem fill_whole_iff (below : maxBytes < cap) (rows : List α) :
    (fill cap size limit maxBytes 0 0 rows).1 = rows ↔ Fits size limit maxBytes rows := by
  cases rows with
  | nil => simp [Fits]
  | cons row rest =>
    unfold Fits
    simp only [fill_cons, List.map_cons, List.sum_cons, List.length_cons]
    split
    · simp only [reduceCtorEq, false_iff]
      omega
    · simp only [ne_eq, not_true_eq_false, false_and, if_false, List.cons.injEq, true_and]
      cases rest with
      | nil =>
        simp only [fill_nil, List.length_nil, true_iff]
        omega
      | cons next more =>
        rw [fill_whole_iff_of_taken cap size limit maxBytes below _ _ (by omega)]
        simp only [reduceCtorEq, false_or, List.length_cons, List.map_cons, List.sum_cons]
        unfold saturatingAdd
        omega

/-- The page of the first rows is the beginning of the page of all rows. -/
theorem fill_of_take (taken bytes n : Nat) (rows : List α) :
    (fill cap size limit maxBytes taken bytes (rows.take n)).1 =
      (fill cap size limit maxBytes taken bytes rows).1.take n := by
  induction rows generalizing taken bytes n with
  | nil => simp
  | cons row rest ih =>
    cases n with
    | zero => simp
    | succ n =>
      simp only [List.take_succ_cons, fill_cons]
      split
      · rfl
      · split
        · rfl
        · simp [ih]

/-- A row is on the page exactly when the rows up to it fit. -/
theorem lt_fill_length_iff (below : maxBytes < cap) {rows : List α} {j : Nat}
    (inside : j < rows.length) :
    j < (fill cap size limit maxBytes 0 0 rows).1.length ↔
      Fits size limit maxBytes (rows.take (j + 1)) := by
  rw [← fill_whole_iff cap size limit maxBytes below, fill_of_take]
  obtain ⟨left, split⟩ := fill_begins cap size limit maxBytes 0 0 rows
  constructor
  · intro on_page
    rw [← split, List.take_append_of_le_length on_page]
    simp only [split]
  · intro whole
    have lengths := congrArg List.length whole
    simp only [List.length_take] at lengths
    omega

/-- The flag tells whether the page leaves rows over. -/
theorem fill_split (taken bytes : Nat) (rows : List α) :
    ∃ rest, rows = (fill cap size limit maxBytes taken bytes rows).1 ++ rest ∧
      ((fill cap size limit maxBytes taken bytes rows).2 = true ↔ rest ≠ []) := by
  induction rows generalizing taken bytes with
  | nil => exact ⟨[], by simp⟩
  | cons row rows ih =>
    simp only [fill_cons]
    split
    · exact ⟨row :: rows, by simp⟩
    · split
      · exact ⟨row :: rows, by simp⟩
      · obtain ⟨rest, split, left⟩ := ih (taken + 1) (saturatingAdd cap bytes (size row))
        exact ⟨rest, by simpa using split, left⟩

/-- A page of a listing that is not empty holds something. -/
theorem fill_ne_nil {rows : List α} (positive : 1 ≤ limit) (occupied : rows ≠ []) :
    (fill cap size limit maxBytes 0 0 rows).1 ≠ [] := by
  cases rows with
  | nil => exact absurd rfl occupied
  | cons row rows =>
    have room : ¬ limit ≤ 0 := by omega
    simp [fill_cons, room]

/-- Looking one row past the limit does not change the page. -/
theorem fill_take (taken bytes extra : Nat) (rows : List α) (room : limit < taken + extra) :
    (fill cap size limit maxBytes taken bytes (rows.take extra)).1 =
      (fill cap size limit maxBytes taken bytes rows).1 := by
  induction rows generalizing taken bytes extra with
  | nil => simp
  | cons row rest ih =>
    cases extra with
    | zero => simp [fill_cons, show limit ≤ taken by omega]
    | succ extra =>
      simp only [List.take_succ_cons, fill_cons]
      split
      · rfl
      · split
        · rfl
        · simp only [List.cons.injEq, true_and]
          exact ih (taken + 1) _ extra (by omega)

end Page

end Walaru.Lib.BoundedPage
