import Mathlib.Data.List.Basic
import Walaru.Lib.FileOps

/-!
# Files put in place in any order

Partial steps that commute, up to what their results show, may be taken in any order.
Files whose paths are no prefixes of each other are placed by such steps.
-/
namespace Walaru.Lib.FileTree

section Reordering
variable {σ α : Type} {step : σ → α → Option σ} {Same : σ → σ → Prop} {Apart : α → α → Prop}

/-- Steps that agree on states that look the same agree on what a run of them leads to. -/
theorem foldlM_same
    (congr : ∀ {s s' t a}, Same s s' → step s a = some t → ∃ t', step s' a = some t' ∧ Same t t')
    (items : List α) {s s' t : σ} (same : Same s s') (run : items.foldlM step s = some t) :
    ∃ t', items.foldlM step s' = some t' ∧ Same t t' := by
  induction items generalizing s s' t with
  | nil =>
    cases run
    exact ⟨s', rfl, same⟩
  | cons a items ih =>
    rw [List.foldlM_cons] at run
    obtain ⟨next, first, rest⟩ := Option.bind_eq_some_iff.mp run
    obtain ⟨next', first', same'⟩ := congr same first
    obtain ⟨last, rest', same''⟩ := ih same' rest
    exact ⟨last, by rw [List.foldlM_cons, first']; exact rest', same''⟩

/-- Steps that agree on states that look the same, and of which two that are apart may
be exchanged, lead to the same in any order. -/
theorem foldlM_perm (symm : ∀ {s t}, Same s t → Same t s)
    (trans : ∀ {s t u}, Same s t → Same t u → Same s u) (apart_symm : ∀ {a b}, Apart a b → Apart b a)
    (congr : ∀ {s s' t a}, Same s s' → step s a = some t → ∃ t', step s' a = some t' ∧ Same t t')
    (swap : ∀ {s t a b}, Same s s → Apart a b → (step s a).bind (step · b) = some t →
      ∃ t', (step s b).bind (step · a) = some t' ∧ Same t t')
    {items items' : List α} (perm : items.Perm items') (apart : items.Pairwise Apart) {s s' t : σ}
    (same : Same s s') (run : items.foldlM step s = some t) :
    ∃ t', items'.foldlM step s' = some t' ∧ Same t t' := by
  induction perm generalizing s s' t with
  | nil =>
    cases run
    exact ⟨s', rfl, same⟩
  | cons a perm ih =>
    rw [List.foldlM_cons] at run
    obtain ⟨next, first, rest⟩ := Option.bind_eq_some_iff.mp run
    obtain ⟨next', first', same'⟩ := congr same first
    obtain ⟨last, rest', same''⟩ := ih apart.tail same' rest
    exact ⟨last, by rw [List.foldlM_cons, first']; exact rest', same''⟩
  | swap b a items =>
    rw [List.foldlM_cons] at run
    obtain ⟨first, one, run⟩ := Option.bind_eq_some_iff.mp run
    rw [List.foldlM_cons] at run
    obtain ⟨second, two, rest⟩ := Option.bind_eq_some_iff.mp run
    have exchange : Apart a b := List.rel_of_pairwise_cons apart List.mem_cons_self
    have both : (step s a).bind (step · b) = some second := by rw [one, Option.bind_some, two]
    obtain ⟨other, swapped, alike⟩ := swap (trans same (symm same)) exchange both
    obtain ⟨middle, one', two'⟩ := Option.bind_eq_some_iff.mp swapped
    obtain ⟨middle', one'', same'⟩ := congr same one'
    obtain ⟨other', two'', same''⟩ := congr same' two'
    obtain ⟨last, run', same'''⟩ := foldlM_same congr items (trans alike same'') rest
    refine ⟨last, ?_, same'''⟩
    rw [List.foldlM_cons, one'', Option.bind_eq_bind, Option.bind_some, List.foldlM_cons, two'']
    exact run'
  | trans first second ih ih' =>
    obtain ⟨middle, run', same'⟩ := ih apart same run
    obtain ⟨last, run'', same''⟩ :=
      ih' (first.pairwise apart apart_symm) (trans (symm same) same) run'
    exact ⟨last, run'', trans same' same''⟩

end Reordering

namespace Entries
variable {ν φ : Type} [DecidableEq ν] {a b after : Entries ν φ} {p q : List ν} {x y : φ}

/-- Neither path leads to or through the other. -/
def Apart (p q : List ν) : Prop := ¬ p <+: q ∧ ¬ q <+: p

/-- Two trees, whose directories list no name twice, that show the same. -/
structure Same (a b : Entries ν φ) : Prop where
  distinct : a.distinct = true
  distinct' : b.distinct = true
  look : ∀ path, a.look path = b.look path

theorem Same.refl (distinct : a.distinct = true) : Same a a := ⟨distinct, distinct, fun _ => rfl⟩

theorem Same.symm (same : Same a b) : Same b a :=
  ⟨same.distinct', same.distinct, fun path => (same.look path).symm⟩

theorem Same.trans {c : Entries ν φ} (first : Same a b) (second : Same b c) : Same a c :=
  ⟨first.distinct, second.distinct', fun path => (first.look path).trans (second.look path)⟩

theorem Same.solid (same : Same a b) (path : List ν) : a.Solid path ↔ b.Solid path := by
  rw [Solid, Solid, same.look]

theorem Same.place (same : Same a b) (success : a.place p x = some after) :
    ∃ after', b.place p x = some after' ∧ Same after after' := by
  have open_ := (place_isSome same.distinct).mp (Option.isSome_of_mem success)
  have placed : (b.place p x).isSome = true := by
    rw [place_isSome same.distinct']
    exact ⟨open_.1, fun query above different => by
      rw [← same.solid]
      exact open_.2 query above different⟩
  obtain ⟨after', success'⟩ := Option.isSome_iff_exists.mp placed
  refine ⟨after', success', distinct_place same.distinct success,
    distinct_place same.distinct' success', fun path => ?_⟩
  rw [look_place same.distinct success, look_place same.distinct' success', same.look]

theorem place_swap (distinct : a.distinct = true) (apart : Apart p q)
    (success : (a.place p x).bind (place q y) = some after) :
    ∃ after', (a.place q y).bind (place p x) = some after' ∧ Same after after' := by
  obtain ⟨first, one, two⟩ := Option.bind_eq_some_iff.mp success
  have distinctFirst := distinct_place distinct one
  obtain ⟨occupied, open_⟩ := (place_isSome distinct).mp (Option.isSome_of_mem one)
  obtain ⟨occupied', open'⟩ := (place_isSome distinctFirst).mp (Option.isSome_of_mem two)
  have early : (a.place q y).isSome = true := by
    rw [place_isSome distinct]
    refine ⟨occupied', fun query above different solid => open' query above different ?_⟩
    rw [solid_place distinct one]
    exact .inr ⟨fun below => apart.1 (below.trans above), solid⟩
  obtain ⟨second, one'⟩ := Option.isSome_iff_exists.mp early
  have distinctSecond := distinct_place distinct one'
  have late : (second.place p x).isSome = true := by
    rw [place_isSome distinctSecond]
    refine ⟨occupied, fun query above different solid => ?_⟩
    rcases (solid_place distinct one' query).mp solid with rfl | ⟨-, before⟩
    · exact apart.2 above
    · exact open_ query above different before
  obtain ⟨after', two'⟩ := Option.isSome_iff_exists.mp late
  refine ⟨after', by rw [one', Option.bind_some, two'], distinct_place distinctFirst two,
    distinct_place distinctSecond two', fun query => ?_⟩
  rw [look_place distinctFirst two, look_place distinct one, look_place distinctSecond two',
    look_place distinct one']
  have notBoth : ¬ (p <+: query ∧ q <+: query) := fun both =>
    (List.prefix_or_prefix_of_prefix both.1 both.2).elim apart.1 apart.2
  by_cases belowP : p <+: query
  · have notQ : ¬ q <+: query := fun belowQ => notBoth ⟨belowP, belowQ⟩
    have otherQ : query ≠ q := by
      rintro rfl
      exact notQ (List.prefix_refl _)
    have aboveQ : ¬ query <+: q := fun above => apart.1 (belowP.trans above)
    simp [belowP, notQ, otherQ, aboveQ]
  · have otherP : query ≠ p := by
      rintro rfl
      exact belowP (List.prefix_refl _)
    by_cases belowQ : q <+: query
    · have aboveP : ¬ query <+: p := fun above => apart.2 (belowQ.trans above)
      simp [belowP, belowQ, otherP, aboveP]
    · have otherQ : query ≠ q := by
        rintro rfl
        exact belowQ (List.prefix_refl _)
      by_cases aboveP : query <+: p
      · simp [belowP, belowQ, otherP, otherQ, aboveP]
      · simp [belowP, belowQ, otherP, otherQ, aboveP]

end Entries
end Walaru.Lib.FileTree
