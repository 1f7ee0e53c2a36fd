import Mathlib.Data.List.Perm.Basic

/-!
# Stable sorting by a key

Items sorted by `mergeSort` on a totally ordered key. The sorted keys depend on the items
only up to their order, and items with one key keep their order. So what the sorted items
show depends on the order of the items exactly when two with one key show different things.
-/
namespace Walaru.Lib.KeySort

/-- A comparison that orders its keys totally. -/
structure KeyOrder {κ : Type*} (le : κ → κ → Bool) : Prop where
  trans : ∀ a b c, le a b = true → le b c = true → le a c = true
  total : ∀ a b, (le a b || le b a) = true
  antisymm : ∀ a b, le a b = true → le b a = true → a = b

variable {α β κ : Type*} {le : κ → κ → Bool} {key : α → κ} {items others : List α}

def sortOn (le : κ → κ → Bool) (key : α → κ) (items : List α) : List α :=
  items.mergeSort fun a b => le (key a) (key b)

theorem sortOn_perm (le : κ → κ → Bool) (key : α → κ) (items : List α) :
    (sortOn le key items).Perm items :=
  List.mergeSort_perm items _

theorem sortOn_map (le : κ → κ → Bool) (key : β → κ) (f : α → β) (items : List α) :
    sortOn le key (items.map f) = (sortOn le (fun a => key (f a)) items).map f :=
  (List.map_mergeSort (f := f) fun _ _ _ _ => rfl).symm

theorem sortOn_congr {key' : α → κ} (same : ∀ a ∈ items, key a = key' a) :
    sortOn le key items = sortOn le key' items := by
  have sorted := List.map_mergeSort (f := id) (l := items)
    (r := fun a b => le (key a) (key b)) (s := fun a b => le (key' a) (key' b))
    fun a left b right => by rw [id, id, same a left, same b right]
  rwa [List.map_id, List.map_id] at sorted

theorem map_key_sortOn (le : κ → κ → Bool) (key : α → κ) (items : List α) :
    (sortOn le key items).map key = (items.map key).mergeSort le :=
  List.map_mergeSort fun _ _ _ _ => rfl

/-- Sorted items show the same where each item does. -/
theorem map_sortOn_inj {f g : α → β} :
    (sortOn le key items).map f = (sortOn le key items).map g ↔ ∀ a ∈ items, f a = g a := by
  rw [List.map_inj_left]
  constructor
  · exact fun same a member => same a ((sortOn_perm le key items).symm.subset member)
  · exact fun same a member => same a ((sortOn_perm le key items).subset member)

namespace KeyOrder
variable (order : KeyOrder le)
include order

theorem refl (k : κ) : le k k = true := by simpa using order.total k k

theorem pairwise_sortOn (key : α → κ) (items : List α) :
    (sortOn le key items).Pairwise fun a b => le (key a) (key b) = true :=
  List.pairwise_mergeSort (fun a b c => order.trans (key a) (key b) (key c))
    (fun a b => order.total (key a) (key b)) items

/-- The sorted keys do not depend on the order of the items. -/
theorem map_key_sortOn_eq {key' : β → κ} {more : List β}
    (same : (items.map key).Perm (more.map key')) :
    (sortOn le key items).map key = (sortOn le key' more).map key' := by
  rw [map_key_sortOn, map_key_sortOn]
  exact List.Perm.eq_of_pairwise (fun a b _ _ => order.antisymm a b)
    (List.pairwise_mergeSort order.trans order.total _)
    (List.pairwise_mergeSort order.trans order.total _)
    ((List.mergeSort_perm _ le).trans (same.trans (List.mergeSort_perm _ le).symm))

/-- When different items have different keys, the order of the items does not matter. -/
theorem sortOn_eq_of_perm (same : items.Perm others)
    (apart : ∀ a ∈ items, ∀ b ∈ items, key a = key b → a = b) :
    sortOn le key items = sortOn le key others := by
  have sorted : (sortOn le key items).Perm (sortOn le key others) :=
    (sortOn_perm le key items).trans (same.trans (sortOn_perm le key others).symm)
  refine sorted.eq_of_pairwise (fun a b left right first second => ?_)
    (order.pairwise_sortOn key items) (order.pairwise_sortOn key others)
  have inLeft := (sortOn_perm le key items).subset left
  have inRight := same.symm.subset ((sortOn_perm le key others).subset right)
  exact apart a inLeft b inRight (order.antisymm _ _ first second)

/-- When items with one key show the same, the order of the items does not show. -/
theorem map_sortOn_perm {f : α → β} (same : items.Perm others)
    (apart : ∀ a ∈ items, ∀ b ∈ items, key a = key b → f a = f b) :
    (sortOn le key items).map f = (sortOn le key others).map f := by
  have paired : sortOn le Prod.fst (items.map fun a => (key a, f a)) =
      sortOn le Prod.fst (others.map fun a => (key a, f a)) := by
    refine order.sortOn_eq_of_perm (same.map _) ?_
    intro p left q right level
    obtain ⟨a, inA, rfl⟩ := List.mem_map.mp left
    obtain ⟨b, inB, rfl⟩ := List.mem_map.mp right
    exact Prod.ext level (apart a inA b inB level)
  rw [sortOn_map, sortOn_map] at paired
  have shown := congrArg (List.map Prod.snd) paired
  rw [List.map_map, List.map_map] at shown
  exact shown

/-- Items with one key keep their order. -/
theorem filter_sortOn [DecidableEq κ] (key : α → κ) (items : List α) (k : κ) :
    (sortOn le key items).filter (fun a => key a = k) = items.filter (fun a => key a = k) := by
  have level : (items.filter fun a => key a = k).Pairwise fun a b => le (key a) (key b) = true := by
    refine List.pairwise_of_forall_mem_list fun a left b right => ?_
    have first : key a = k := by simpa using (List.mem_filter.mp left).2
    have second : key b = k := by simpa using (List.mem_filter.mp right).2
    rw [first, second]
    exact order.refl k
  have kept : (items.filter fun a => key a = k).Sublist (sortOn le key items) :=
    List.sublist_mergeSort (fun a b c => order.trans (key a) (key b) (key c))
      (fun a b => order.total (key a) (key b)) level List.filter_sublist
  have inside : (items.filter fun a => key a = k).Sublist
      ((sortOn le key items).filter fun a => key a = k) := by
    have filtered := kept.filter fun a => decide (key a = k)
    rwa [List.filter_filter, show (fun a => decide (key a = k) && decide (key a = k)) =
      fun a => decide (key a = k) from funext fun a => Bool.and_self _] at filtered
  refine (inside.eq_of_length ?_).symm
  exact ((sortOn_perm le key items).filter _).length_eq.symm

/-- Two different items with one key show which of them came first. -/
theorem sortOn_swap_ne [DecidableEq κ] {a b : α} (level : key a = key b) (differ : a ≠ b)
    (rest : List α) : sortOn le key (a :: b :: rest) ≠ sortOn le key (b :: a :: rest) := by
  intro equal
  have first := order.filter_sortOn key (a :: b :: rest) (key a)
  have second := order.filter_sortOn key (b :: a :: rest) (key a)
  rw [equal, second, List.filter_cons_of_pos (by simp [level]),
    List.filter_cons_of_pos (l := b :: rest) (by simp)] at first
  exact differ (List.cons.inj first).1.symm

/-- Two items with one key that show different things show which of them came first. -/
theorem map_sortOn_swap_ne [DecidableEq κ] {f : α → β} {a b : α} (level : key a = key b)
    (differ : f a ≠ f b) (rest : List α) :
    (sortOn le key (a :: b :: rest)).map f ≠ (sortOn le key (b :: a :: rest)).map f := by
  intro shown
  have keys : (sortOn le key (a :: b :: rest)).map key = (sortOn le key (b :: a :: rest)).map key :=
    order.map_key_sortOn_eq ((List.Perm.swap b a rest).map key)
  have paired : sortOn le Prod.fst ((a :: b :: rest).map fun x => (key x, f x)) =
      sortOn le Prod.fst ((b :: a :: rest).map fun x => (key x, f x)) := by
    rw [sortOn_map, sortOn_map, ← List.zip_map', ← List.zip_map', keys, shown]
  have apart : (key a, f a) ≠ (key b, f b) := fun same => differ (congrArg Prod.snd same)
  have swapped : ∀ more : List (κ × β), sortOn le Prod.fst ((key a, f a) :: (key b, f b) :: more) ≠
      sortOn le Prod.fst ((key b, f b) :: (key a, f a) :: more) :=
    order.sortOn_swap_ne level apart
  exact swapped _ paired

end KeyOrder

/-- The order by the first component, and by the second where the first are equal. -/
def pairLe [DecidableEq κ] (le : κ → κ → Bool) (a b : κ × κ) : Bool :=
  if a.1 = b.1 then le a.2 b.2 else le a.1 b.1

theorem KeyOrder.pair [DecidableEq κ] (order : KeyOrder le) : KeyOrder (pairLe le) where
  trans := by
    intro a b c first second
    unfold pairLe at *
    split at first
    · rename_i same
      split at second
      · rename_i again
        rw [if_pos (same.trans again)]
        exact order.trans _ _ _ first second
      · rename_i apart
        rw [if_neg (same ▸ apart), same]
        exact second
    · rename_i apart
      split at second
      · rename_i same
        rw [if_neg (same ▸ apart), ← same]
        exact first
      · rename_i further
        split
        · rename_i equal
          rw [← equal] at second
          exact absurd (order.antisymm _ _ first second) apart
        · exact order.trans _ _ _ first second
  total := by
    intro a b
    unfold pairLe
    by_cases same : a.1 = b.1
    · rw [if_pos same, if_pos same.symm]
      exact order.total _ _
    · rw [if_neg same, if_neg (Ne.symm same)]
      exact order.total _ _
  antisymm := by
    intro a b first second
    unfold pairLe at *
    by_cases same : a.1 = b.1
    · rw [if_pos same] at first
      rw [if_pos same.symm] at second
      exact Prod.ext same (order.antisymm _ _ first second)
    · rw [if_neg same] at first
      rw [if_neg (Ne.symm same)] at second
      exact absurd (order.antisymm _ _ first second) same

end Walaru.Lib.KeySort
