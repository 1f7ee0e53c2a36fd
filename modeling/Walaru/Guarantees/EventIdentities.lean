import Walaru.Lib.Framing
import Walaru.Lib.Utf8Slices
import Walaru.Source.Daemon.Events

/-!
# Event identities

An event identifier hashes five fields, each ended by a NUL. The test identifier is the
worker's text and may hold a NUL itself; the revision and the run stand before it, the
two numbers behind it.
-/
namespace Walaru
open Lib.Text Lib.Framing

/-- Text without a NUL character. -/
def NulFree (s : String) : Prop := Char.ofNat 0 ∉ s.toList

instance (s : String) : Decidable (NulFree s) :=
  inferInstanceAs (Decidable (¬Char.ofNat 0 ∈ s.toList))

theorem NulFree.bytes {s : String} (free : NulFree s) : 0 ∉ utf8 s := by
  intro member
  obtain ⟨c, inside, byte⟩ := List.mem_flatMap.mp member
  have code := (Lib.Utf8Slices.encodeChar_ascii byte (by decide)).2
  have nul : c = Char.ofNat 0 := by
    rw [← Char.ofNat_toNat c, code]
    rfl
  exact free (nul ▸ inside)

theorem nulFree_toString (n : Nat) : NulFree (toString n) := by
  intro member
  rw [Nat.toString_eq_ofList_toDigits, String.toList_ofList] at member
  have digit := Nat.isDigit_of_mem_toDigits (by decide) (by decide) member
  exact absurd digit (by decide)

namespace EventIdentity

theorem canonical_eq (identity : EventIdentity) :
    identity.canonical = terminated 0
      ([utf8 "event-v1", utf8 identity.revision, utf8 identity.runId] ++ utf8 identity.testId ::
        [utf8 (toString identity.sequence), utf8 (toString identity.threadId)]) := by
  simp [canonical, terminated]

/-- The parts that hold no NUL, whatever the test identifier is. -/
theorem parts_free {identity : EventIdentity} (revision : NulFree identity.revision)
    (run : NulFree identity.runId) :
    ∀ part ∈ [utf8 "event-v1", utf8 identity.revision, utf8 identity.runId] ++
      [utf8 (toString identity.sequence), utf8 (toString identity.threadId)], 0 ∉ part := by
  have version : NulFree "event-v1" := by decide
  simp only [List.cons_append, List.nil_append, List.forall_mem_cons]
  exact ⟨version.bytes, revision.bytes, run.bytes, (nulFree_toString _).bytes,
    (nulFree_toString _).bytes, List.forall_mem_nil _⟩

/-- Equal hashed bytes are one identity. -/
theorem canonical_inj {a b : EventIdentity} (revisionA : NulFree a.revision)
    (runA : NulFree a.runId) (revisionB : NulFree b.revision) (runB : NulFree b.runId) :
    a.canonical = b.canonical ↔ a.revision = b.revision ∧ a.runId = b.runId ∧
      a.testId = b.testId ∧ a.sequence = b.sequence ∧ a.threadId = b.threadId := by
  constructor
  · intro same
    rw [canonical_eq, canonical_eq] at same
    obtain ⟨front, test, back⟩ :=
      terminated_around (by rfl) (by rfl) (parts_free revisionA runA) (parts_free revisionB runB)
        same
    simp only [List.cons.injEq, true_and, and_true] at front back
    have number : ∀ m n : Nat, utf8 (toString m) = utf8 (toString n) → m = n := fun _ _ same =>
      decimal_injective (utf8_injective same)
    exact ⟨utf8_injective front.1, utf8_injective front.2, utf8_injective test,
      number _ _ back.1, number _ _ back.2⟩
  · intro ⟨revision, run, test, sequence, thread⟩
    unfold canonical
    rw [revision, run, test, sequence, thread]

/-- A NUL and digits in the test identifier do not pass for a sequence number. -/
theorem canonical_inj_demo :
    let nul := String.singleton (Char.ofNat 0)
    let a : EventIdentity := ⟨"rev", "run", "t" ++ nul ++ "1", 2, 3⟩
    let b : EventIdentity := ⟨"rev", "run", "t", 1, 2⟩
    NulFree "rev" ∧ NulFree "run" ∧ (a.canonical = b.canonical ↔
      a.revision = b.revision ∧ a.runId = b.runId ∧ a.testId = b.testId ∧
        a.sequence = b.sequence ∧ a.threadId = b.threadId) := by
  have revision : NulFree "rev" := by decide
  have run : NulFree "run" := by decide
  exact ⟨revision, run, canonical_inj revision run revision run⟩

end EventIdentity
end Walaru
