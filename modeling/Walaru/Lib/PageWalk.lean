import Mathlib.Algebra.Order.Ring.Nat
import Mathlib.Order.Basic
import Mathlib.Data.List.Basic

/-!
# Walking a listing page by page

A listing answers a cursor with some items and, while items are left, with the next
cursor. The rules say when following the cursors from the start meets every item once,
and how a cursor that is the last key of a page finds its place again.
-/
namespace Walaru.Lib.PageWalk

section Walk
variable {ε α γ : Type}

/-- Follow the returned cursors to a page without one, over at most `fuel` pages. -/
def walk (page : Option γ → Except ε (List α × Option γ)) : Nat → Option γ → Option (List (List α))
  | 0, _ => none
  | fuel + 1, cursor =>
    match page cursor with
    | .error _ => none
    | .ok (items, none) => some [items]
    | .ok (items, some next) => (walk page fuel (some next)).map fun pages => items :: pages

/-- The walk from the start ends after all items in order, and no page of it is empty
unless there is nothing to list. -/
def Visits (page : Option γ → Except ε (List α × Option γ)) (items : List α) : Prop :=
  ∃ fuel pages, walk page fuel none = some pages ∧ pages.flatten = items ∧
    (items ≠ [] → ∀ p ∈ pages, p ≠ [])

/-- Where a page ends: at the end of the listing, or behind at least one item and before
the position of its cursor. `position cursor rest` says what is left from a cursor on. -/
def Cuts (page : Option γ → Except ε (List α × Option γ)) (position : Option γ → List α → Prop) :
    Prop :=
  ∀ cursor rest, position cursor rest →
    page cursor = .ok (rest, none) ∨
      ∃ items more next, page cursor = .ok (items, some next) ∧ items ≠ [] ∧ more ≠ [] ∧
        rest = items ++ more ∧ position (some next) more

variable {page : Option γ → Except ε (List α × Option γ)} {position : Option γ → List α → Prop}

theorem Cuts.walk (cuts : Cuts page position) {cursor : Option γ} {rest : List α}
    (here : position cursor rest) :
    ∃ fuel pages, walk page fuel cursor = some pages ∧ pages.flatten = rest ∧
      (rest ≠ [] → ∀ p ∈ pages, p ≠ []) := by
  induction counted : rest.length using Nat.strongRecOn generalizing cursor rest with
  | ind n ih =>
    rcases cuts cursor rest here with last | ⟨items, more, next, answer, some_, left, split, there⟩
    · refine ⟨1, [rest], by simp [PageWalk.walk, last], by simp, ?_⟩
      simp
    · have shorter : more.length < n := by
        have grown := List.length_pos_of_ne_nil some_
        rw [← counted, split, List.length_append]
        omega
      obtain ⟨fuel, pages, walked, whole, occupied⟩ := ih more.length shorter there rfl
      refine ⟨fuel + 1, items :: pages, by simp [PageWalk.walk, answer, walked], by simp [whole, split], ?_⟩
      intro _ p member
      rcases List.mem_cons.mp member with rfl | later
      · exact some_
      · exact occupied left p later

theorem Cuts.visits (cuts : Cuts page position) {items : List α} (start : position none items) :
    Visits page items :=
  cuts.walk start

/-- A longer budget does not change a walk. -/
theorem walk_unique {fuel more : Nat} {cursor : Option γ} {pages others : List (List α)}
    (first : PageWalk.walk page fuel cursor = some pages)
    (second : PageWalk.walk page more cursor = some others) : pages = others := by
  induction fuel generalizing more cursor pages others with
  | zero => cases first
  | succ fuel ih =>
    cases more with
    | zero => cases second
    | succ more =>
      rw [PageWalk.walk] at first second
      cases answer : page cursor with
      | error e => simp [answer] at first
      | ok p =>
        obtain ⟨items, next⟩ := p
        cases next with
        | none =>
          simp only [answer] at first second
          exact Option.some.inj (first.symm.trans second)
        | some next =>
          simp only [answer, Option.map_eq_some_iff] at first second
          obtain ⟨rest, walked, rfl⟩ := first
          obtain ⟨rest', walked', rfl⟩ := second
          rw [ih walked walked']

theorem walk_map {β : Type} (f : α → β) (fuel : Nat) (cursor : Option γ) :
    PageWalk.walk (fun c => (page c).map fun p => (p.1.map f, p.2)) fuel cursor =
      (PageWalk.walk page fuel cursor).map (List.map (List.map f)) := by
  induction fuel generalizing cursor with
  | zero => rfl
  | succ fuel ih =>
    simp only [PageWalk.walk]
    cases page cursor with
    | error e => rfl
    | ok p =>
      obtain ⟨items, next⟩ := p
      cases next with
      | none => rfl
      | some next =>
        have rest := ih (some next)
        simp only [Except.map] at rest ⊢
        rw [rest]
        simp [Function.comp_def]

theorem Visits.map {β : Type} (f : α → β) {items : List α} (visits : Visits page items) :
    Visits (fun c => (page c).map fun p => (p.1.map f, p.2)) (items.map f) := by
  obtain ⟨fuel, pages, walked, whole, occupied⟩ := visits
  refine ⟨fuel, pages.map (List.map f), by rw [walk_map, walked]; rfl, ?_, ?_⟩
  · rw [← whole, List.map_flatten]
  · intro some_ p member
    obtain ⟨q, within, rfl⟩ := List.mem_map.mp member
    simpa using occupied (by simpa using some_) q within

/-- The page `p` is met at `cursor` on the walk from `start`. -/
inductive OnWalk (page : Option γ → Except ε (List α × Option γ)) :
    Option γ → Option γ → List α × Option γ → Prop where
  | here {start : Option γ} {p : List α × Option γ} (answer : page start = .ok p) :
      OnWalk page start start p
  | later {start cursor : Option γ} {next : γ} {items : List α} {p : List α × Option γ}
      (answer : page start = .ok (items, some next)) (rest : OnWalk page (some next) cursor p) :
      OnWalk page start cursor p

section Guarded
variable {β : Type} (fits : Option γ → List α × Option γ → Prop) [∀ c p, Decidable (fits c p)]
  (shown reduced : Option γ → List α × Option γ → β)

/-- A listing that answers a page as one item, and in place of a page that does not fit
something that has no cursor. -/
def guarded (page : Option γ → Except ε (List α × Option γ)) (cursor : Option γ) :
    Except ε (List β × Option γ) :=
  (page cursor).map fun p =>
    if fits cursor p then ([shown cursor p], p.2) else ([reduced cursor p], none)

variable {fits shown reduced} {start : Option γ} {fuel : Nat}

/-- Where every page of the walk fits, the answers are those pages. -/
theorem guarded_walk {pages : List (List α)} (walked : PageWalk.walk page fuel start = some pages)
    (all : ∀ c p, OnWalk page start c p → fits c p) :
    ∃ answers, PageWalk.walk (guarded fits shown reduced page) fuel start = some answers ∧
      List.Forall₂ (fun items answer => ∃ c p, p.1 = items ∧ answer = [shown c p]) pages answers := by
  induction fuel generalizing start pages with
  | zero => cases walked
  | succ fuel ih =>
    rw [PageWalk.walk] at walked ⊢
    cases answer : page start with
    | error e => simp [answer] at walked
    | ok p =>
      have fit := all _ _ (.here answer)
      obtain ⟨items, next⟩ := p
      cases next with
      | none =>
        simp only [answer, Option.some.injEq] at walked
        subst walked
        refine ⟨[[shown start (items, none)]], by simp [guarded, answer, Except.map, fit], ?_⟩
        exact .cons ⟨start, (items, none), rfl, rfl⟩ .nil
      | some next =>
        simp only [answer, Option.map_eq_some_iff] at walked
        obtain ⟨rest, walked, rfl⟩ := walked
        obtain ⟨answers, followed, same⟩ := ih walked fun c p on => all c p (.later answer on)
        refine ⟨[shown start (items, some next)] :: answers, ?_,
          .cons ⟨start, (items, some next), rfl, rfl⟩ same⟩
        simp [guarded, answer, Except.map, fit, followed]

/-- Where no answer of a walk is a reduced one, every page of it fits, and it meets all
pages. -/
theorem guarded_fits {answers : List (List β)}
    (walked : PageWalk.walk (guarded fits shown reduced page) fuel start = some answers)
    (whole : ∀ answer ∈ answers, ∀ c p, answer ≠ [reduced c p]) :
    (∀ c p, OnWalk page start c p → fits c p) ∧
      ∃ pages, PageWalk.walk page fuel start = some pages := by
  induction fuel generalizing start answers with
  | zero => cases walked
  | succ fuel ih =>
    rw [PageWalk.walk] at walked ⊢
    cases answer : page start with
    | error e => simp [guarded, answer, Except.map] at walked
    | ok p =>
      have fit : fits start p := by
        refine Decidable.byContradiction fun exceeds => ?_
        simp only [guarded, answer, Except.map, exceeds, if_false, Option.some.injEq] at walked
        subst walked
        exact whole _ (List.mem_singleton_self _) start p rfl
      obtain ⟨items, next⟩ := p
      cases next with
      | none =>
        refine ⟨fun c p on => ?_, [items], rfl⟩
        cases on with
        | here again =>
          rw [answer] at again
          cases again
          exact fit
        | later again => simp [answer] at again
      | some next =>
        simp only [guarded, answer, Except.map, fit, if_true, Option.map_eq_some_iff] at walked
        obtain ⟨rest, walked, rfl⟩ := walked
        obtain ⟨fits_, pages, followed⟩ := ih walked fun a member => whole a (List.mem_cons_of_mem _ member)
        refine ⟨fun c p on => ?_, items :: pages, by simp [followed]⟩
        cases on with
        | here again =>
          rw [answer] at again
          cases again
          exact fit
        | later again on =>
          rw [answer] at again
          cases again
          exact fits_ c p on

end Guarded

end Walk

section Keys
variable {α κ : Type} [LinearOrder κ] (key : α → κ)

/-- Behind the last key of a page lies what the page left over. -/
theorem filter_after_last {items more : List α} {last : α}
    (sorted : (items ++ more).Pairwise fun a b => key a < key b) (ends : items.getLast? = some last) :
    (items ++ more).filter (fun a => key last < key a) = more := by
  obtain ⟨front, rfl⟩ := List.getLast?_eq_some_iff.mp ends
  rw [List.append_assoc, List.pairwise_append] at sorted
  obtain ⟨-, tail, across⟩ := sorted
  have before : ∀ a ∈ front, ¬ key last < key a := by
    intro a member
    exact not_lt_of_gt (across a member last (by simp))
  rw [List.singleton_append, List.pairwise_cons] at tail
  rw [List.filter_append, List.filter_append, List.filter_eq_nil_iff.mpr (by simpa using before)]
  simpa using tail.1

/-- The rows of a table that `keep` selects behind a key, in key order. -/
def rowsAfter (table : List α) (keep : α → Bool) (after : κ) : List α :=
  (table.filter fun a => after < key a && keep a).mergeSort fun a b => key a ≤ key b

variable {table : List α} {keep : α → Bool}

theorem mem_rowsAfter {after : κ} {a : α} :
    a ∈ rowsAfter key table keep after ↔ a ∈ table ∧ after < key a ∧ keep a = true := by
  simp [rowsAfter, List.mem_mergeSort]

/-- The selected rows have different keys. -/
def KeysDiffer (table : List α) (keep : α → Bool) : Prop :=
  table.Pairwise fun a b => keep a = true → keep b = true → key a ≠ key b

theorem rowsAfter_sorted (differ : KeysDiffer key table keep) (after : κ) :
    (rowsAfter key table keep after).Pairwise fun a b => key a < key b := by
  have sorted : (rowsAfter key table keep after).Pairwise fun a b => key a ≤ key b := by
    have := @List.pairwise_mergeSort _ (fun a b => decide (key a ≤ key b))
      (fun a b c first second => by simpa using le_trans (by simpa using first) (by simpa using second))
      (fun a b => by simpa using le_total (key a) (key b))
      (table.filter fun a => after < key a && keep a)
    simpa [rowsAfter] using this
  have apart : (rowsAfter key table keep after).Pairwise fun a b => key a ≠ key b := by
    refine ((List.mergeSort_perm _ _).pairwise_iff fun different => different.symm).mpr ?_
    rw [List.pairwise_filter]
    refine differ.imp fun different first second => ?_
    exact different (by simpa using (Bool.and_eq_true_iff.mp first).2)
      (by simpa using (Bool.and_eq_true_iff.mp second).2)
  exact (sorted.and apart).imp fun both => lt_of_le_of_ne both.1 both.2

/-- A listing from the last key of a page on is what the page left over. -/
theorem rowsAfter_resume (differ : KeysDiffer key table keep) {after : κ} {kept more : List α} {last : α}
    (split : rowsAfter key table keep after = kept ++ more) (ends : kept.getLast? = some last) :
    rowsAfter key table keep (key last) = more := by
  have sorted := rowsAfter_sorted key differ after
  have later := rowsAfter_sorted key differ (key last)
  have inside : after < key last := by
    have member : last ∈ rowsAfter key table keep after := by
      rw [split]
      exact List.mem_append_left _ (List.mem_of_getLast? ends)
    exact ((mem_rowsAfter key).mp member).2.1
  have rest : (rowsAfter key table keep after).filter (fun a => key last < key a) = more := by
    rw [split] at sorted ⊢
    exact filter_after_last key sorted ends
  rw [← rest]
  refine List.Perm.eq_of_pairwise ?_ later (sorted.filter _) ?_
  · exact fun a b _ _ first second => absurd first (not_lt_of_gt second)
  · refine (List.perm_ext_iff_of_nodup ?_ ?_).mpr ?_
    · exact later.imp fun less same => absurd less (by simp [same])
    · exact (sorted.filter _).imp fun less same => absurd less (by simp [same])
    · intro a
      simp only [List.mem_filter, mem_rowsAfter, decide_eq_true_eq]
      constructor
      · rintro ⟨member, behind, kept⟩
        exact ⟨⟨member, inside.trans behind, kept⟩, behind⟩
      · rintro ⟨⟨member, -, kept⟩, behind⟩
        exact ⟨member, behind, kept⟩

end Keys

end Walaru.Lib.PageWalk
