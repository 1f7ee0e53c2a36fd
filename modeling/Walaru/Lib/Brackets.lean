import Mathlib.Data.List.Basic
import Mathlib.Data.Option.Basic

/-!
# Nested scopes of a slot

A slot holds a value or none. A scope keeps the value of the slot before it, shows its own
value, and puts the kept one back at its end. Values can die at any time, and a dead value
counts as none. Two slots that show the same are told apart by nothing below.
-/
namespace Walaru.Lib.Brackets

variable {α : Type*}

structure Scope (α : Type*) where
  shown : Option α
  saved : Option α

/-- The slot shows what the innermost scope shows, and below each scope stands a slot that
shows what the scope has saved; the outermost has saved what `base` shows. -/
def Layered (alive : α → Bool) : Option α → List (Scope α) → Option α → Prop
  | slot, [], base => slot.filter alive = base.filter alive
  | slot, scope :: rest, base =>
    slot.filter alive = scope.shown.filter alive ∧ Layered alive scope.saved rest base

theorem filter_filter (alive : α → Bool) (slot : Option α) :
    (slot.filter alive).filter alive = slot.filter alive := by
  cases slot with
  | none => rfl
  | some value => cases live : alive value <;> simp [Option.filter, live]

theorem layered_congr {alive : α → Bool} {slot other : Option α} {scopes : List (Scope α)}
    {base : Option α} (same : slot.filter alive = other.filter alive) :
    Layered alive slot scopes base ↔ Layered alive other scopes base := by
  cases scopes with
  | nil => rw [Layered, Layered, same]
  | cons scope rest => rw [Layered, Layered, same]

/-- A scope opens: it keeps what the slot showed. -/
theorem Layered.push {alive : α → Bool} {slot next : Option α} {scopes : List (Scope α)}
    {base : Option α} (layered : Layered alive slot scopes base) {shown : Option α}
    (shows_ : next.filter alive = shown.filter alive) :
    Layered alive next (⟨shown, slot.filter alive⟩ :: scopes) base :=
  ⟨shows_, (layered_congr (filter_filter alive slot)).mpr layered⟩

/-- The innermost scope ends: its value is put back. -/
theorem Layered.pop {alive : α → Bool} {slot next : Option α} {scope : Scope α}
    {scopes : List (Scope α)} {base : Option α} (layered : Layered alive slot (scope :: scopes) base)
    (restored : next.filter alive = scope.saved.filter alive) : Layered alive next scopes base :=
  (layered_congr restored).mpr layered.2

/-- Every value that lives now has lived before, among those that `known` admits. -/
def Dies (known : α → Prop) (alive after : α → Bool) : Prop :=
  ∀ value, known value → after value = true → alive value = true

def Knows (known : α → Prop) (slot : Option α) : Prop := ∀ value, slot = some value → known value

theorem filter_dies {known : α → Prop} {alive after : α → Bool} (dies : Dies known alive after)
    {slot : Option α} (knows : Knows known slot) :
    (slot.filter alive).filter after = slot.filter after := by
  cases slot with
  | none => rfl
  | some value =>
    cases live : alive value with
    | true => simp [Option.filter, live]
    | false =>
      have dead : after value = false := by
        rw [Bool.eq_false_iff]
        intro later
        rw [dies value (knows value rfl) later] at live
        cases live
      simp [Option.filter, live, dead]

theorem filter_eq_of_dies {known : α → Prop} {alive after : α → Bool} (dies : Dies known alive after)
    {slot other : Option α} (left : Knows known slot) (right : Knows known other)
    (same : slot.filter alive = other.filter alive) : slot.filter after = other.filter after := by
  rw [← filter_dies dies left, same, filter_dies dies right]

theorem Layered.dies {known : α → Prop} {alive after : α → Bool} (dies : Dies known alive after)
    {slot base : Option α} {scopes : List (Scope α)} (layered : Layered alive slot scopes base)
    (slotKnown : Knows known slot) (baseKnown : Knows known base)
    (scopesKnown : ∀ scope ∈ scopes, Knows known scope.shown ∧ Knows known scope.saved) :
    Layered after slot scopes base := by
  induction scopes generalizing slot with
  | nil => exact filter_eq_of_dies dies slotKnown baseKnown layered
  | cons scope rest ih =>
    obtain ⟨⟨shown, saved⟩, others⟩ := List.forall_mem_cons.mp scopesKnown
    exact ⟨filter_eq_of_dies dies slotKnown shown layered.1, ih layered.2 saved others⟩

end Walaru.Lib.Brackets
