import Mathlib.Data.Finset.Card
import Mathlib.Data.List.Dedup

/-!
# Matching entries of one list

Two kinds of entries in a list, and a map that sends the places of the first kind to
places of the second. When the map never meets a place twice and there are as many entries
of either kind, every place of the second kind is met.
-/
namespace Walaru.Lib.Matching

variable {α : Type*}

/-- The places of a list whose entries have the property. -/
def places (l : List α) (p : α → Bool) : Finset ℕ :=
  (Finset.range l.length).filter fun i => (l[i]?).any p

theorem mem_places {l : List α} {p : α → Bool} {i : ℕ} :
    i ∈ places l p ↔ ∃ a, l[i]? = some a ∧ p a = true := by
  simp only [places, Finset.mem_filter, Finset.mem_range, Option.any_eq_true]
  constructor
  · exact fun both => both.2
  · rintro ⟨a, place, holds⟩
    exact ⟨(List.getElem?_eq_some_iff.mp place).1, a, place, holds⟩

theorem places_concat (l : List α) (p : α → Bool) (a : α) :
    places (l ++ [a]) p = if p a then insert l.length (places l p) else places l p := by
  ext i
  have old : i < l.length → (l ++ [a])[i]? = l[i]? := fun inside => List.getElem?_append_left inside
  have none_ : i ∈ places l p → i < l.length := fun member =>
    Finset.mem_range.mp (Finset.mem_filter.mp member).1
  by_cases inside : i < l.length
  · have other : i ≠ l.length := by omega
    split <;> simp [mem_places, old inside, other]
  · have absent : i ∉ places l p := fun member => inside (none_ member)
    by_cases last : i = l.length
    · subst last
      split
      · rename_i holds
        simp [mem_places, holds]
      · rename_i fails
        simp only [absent, iff_false, mem_places]
        rintro ⟨b, place, holds⟩
        simp only [List.getElem?_concat_length, Option.some.injEq] at place
        subst place
        exact fails holds
    · have beyond : (l ++ [a])[i]? = none := by
        rw [List.getElem?_eq_none_iff, List.length_append, List.length_singleton]
        omega
      split <;> simp [mem_places, beyond, last, absent]

theorem card_places (l : List α) (p : α → Bool) : (places l p).card = l.countP p := by
  induction l using List.reverseRecOn with
  | nil => simp [places]
  | append_singleton l a ih =>
    have fresh : l.length ∉ places l p := by
      simp [places]
    rw [places_concat, List.countP_append, List.countP_singleton]
    split
    · rw [Finset.card_insert_of_notMem fresh, ih]
    · rw [ih, Nat.add_zero]

/-- As many entries of either kind, each of the first at a place of its own of the second. -/
theorem matched_onto {l : List α} {p q : α → Bool} {partner : ℕ → ℕ}
    (maps : ∀ i a, l[i]? = some a → p a = true → ∃ b, l[partner i]? = some b ∧ q b = true)
    (apart : ∀ i j a b, l[i]? = some a → p a = true → l[j]? = some b → p b = true →
      partner i = partner j → i = j)
    (count : l.countP p = l.countP q) {j : ℕ} {b : α} (place : l[j]? = some b) (holds : q b = true) :
    ∃ i a, l[i]? = some a ∧ p a = true ∧ partner i = j := by
  have cards : (places l q).card ≤ (places l p).card := by
    rw [card_places, card_places, count]
  have inside : ∀ i ∈ places l p, partner i ∈ places l q := by
    intro i member
    obtain ⟨a, here, holds⟩ := mem_places.mp member
    exact mem_places.mpr (maps i a here holds)
  have injective : Set.InjOn partner (places l p) := by
    intro i first j second same
    obtain ⟨a, here, holds⟩ := mem_places.mp first
    obtain ⟨b, there, also⟩ := mem_places.mp second
    exact apart i j a b here holds there also same
  have onto := Finset.surjOn_of_injOn_of_card_le partner inside injective cards
  obtain ⟨i, member, same⟩ := onto (mem_places.mpr ⟨b, place, holds⟩)
  obtain ⟨a, here, also⟩ := mem_places.mp member
  exact ⟨i, a, here, also, same⟩

/-- A list whose distinct entries are as many as its entries repeats none. -/
theorem nodup_of_length [DecidableEq α] {l distinct : List α} (once : distinct.Nodup)
    (members : ∀ a, a ∈ distinct ↔ a ∈ l) (count : distinct.length = l.length) : l.Nodup := by
  have same : distinct.Perm l.dedup :=
    (List.perm_ext_iff_of_nodup once l.nodup_dedup).mpr fun a => by rw [members, List.mem_dedup]
  have whole : l.dedup = l := (List.dedup_sublist l).eq_of_length (same.length_eq ▸ count)
  exact List.dedup_eq_self.mp whole

end Walaru.Lib.Matching
