import Walaru.Source.Model.KotlinSourceMap

/-!
# Kotlin source maps return

The text of a source map is read without an exception, whatever it is. A position divides by
the output increment of the entry it finds, so it returns for every line exactly when no
entry with an increment of zero is the first to cover the line it starts at.
-/
namespace Walaru.SourceMaps
open Lib.JavaText

/-- The numbers of an entry are of the type `int`. -/
def Entry.Ints (e : Entry) : Prop :=
  IsInt e.inputStart ∧ IsInt e.outputStart ∧ IsInt e.count ∧ IsInt e.outputIncrement

theorem optionalInt_isInt {text : Option Text} {n : Int} (read : optionalInt text = some n) : IsInt n := by
  cases text with
  | none =>
    cases read
    decide
  | some text => exact parseInt_isInt read

theorem parseLine_ints {line : Text} {files : Files} {fallback : Text} {e : Entry}
    (read : parseLine line files fallback = some e) : e.Ints := by
  unfold parseLine at read
  simp only [Option.bind_eq_bind, Option.bind_eq_some_iff] at read
  obtain ⟨_, -, inputStart, first, outputStart, second, count, third, increment, fourth, built⟩ := read
  cases built
  exact ⟨parseInt_isInt first, parseInt_isInt second, optionalInt_isInt third, optionalInt_isInt fourth⟩

theorem Scan.fileLine_mappings (fallback : Text) (s : Scan) (line : Text) :
    (s.fileLine fallback line).mappings = s.mappings := by
  unfold Scan.fileLine
  split
  · dsimp only
    split <;> rfl
  · split
    · rfl
    · dsimp only
      split <;> rfl

theorem Scan.step_ints {fallback : Text} {s : Scan} (line : Text)
    (ints : ∀ e ∈ s.mappings, e.Ints) : ∀ e ∈ (s.step fallback line).mappings, e.Ints := by
  unfold Scan.step
  split
  · exact ints
  · split
    · exact ints
    · split
      · split <;> exact ints
      · split
        · exact ints
        · split
          · exact ints
          · split
            · exact ints
            · split
              · exact ints
              · split
                · rw [Scan.fileLine_mappings]
                  exact ints
                · split
                  · intro e member
                    rcases List.mem_append.mp member with old | new
                    · exact ints e old
                    · exact parseLine_ints (Option.mem_toList.mp new)
                  · exact ints

theorem Scan.finish_mappings (s : Scan) : s.finish.mappings = s.mappings := by
  unfold Scan.finish
  split <;> rfl

theorem parse_ints (debug source : Option Text) : ∀ e ∈ (parse debug source).entries, e.Ints := by
  have scanned : ∀ (fallback : Text) (lines : List Text) (s : Scan), (∀ e ∈ s.mappings, e.Ints) →
      ∀ e ∈ (lines.foldl (Scan.step fallback) s).mappings, e.Ints := by
    intro fallback lines
    induction lines with
    | nil => exact fun s ints => ints
    | cons line lines ih => exact fun s ints => ih _ (Scan.step_ints line ints)
  unfold parse
  dsimp only
  split
  · exact nofun
  · split
    · rw [Scan.finish_mappings]
      exact scanned _ _ _ nofun
    · exact nofun

/-- An entry with an increment of zero covers the line it starts at, and no other. -/
theorem Entry.covers_of_zero {e : Entry} (ints : e.Ints) (zero : e.outputIncrement = 0) (line : Int) :
    e.covers line = true ↔ line = e.outputStart := by
  have last : e.last = e.outputStart := by
    unfold Entry.last
    rw [zero, Int.mul_zero, wrap_of_isInt (by decide : IsInt 0), Int.add_zero, wrap_of_isInt ints.2.1]
  unfold Entry.covers
  rw [last, Bool.and_eq_true, decide_eq_true_eq, decide_eq_true_eq]
  omega

/-- Every position returns exactly when each entry with an output increment of zero comes after
one that covers the line it starts at. -/
theorem position_returns_iff (debug source : Option Text) :
    (∀ line, IsInt line → ((parse debug source).position line).isSome = true) ↔
      ∀ before e after, (parse debug source).entries = before ++ e :: after →
        e.outputIncrement = 0 → ∃ earlier ∈ before, earlier.covers e.outputStart = true := by
  have ints := parse_ints debug source
  constructor
  · intro returns before e after whole zero
    by_contra none_
    simp only [not_exists, not_and, Bool.not_eq_true] at none_
    have own : e.Ints := ints e (whole ▸ List.mem_append_right _ List.mem_cons_self)
    have found : (parse debug source).entries.find? (·.covers e.outputStart) = some e := by
      rw [List.find?_eq_some_iff_append]
      refine ⟨(Entry.covers_of_zero own zero _).mpr rfl, before, after, whole, fun x inside => ?_⟩
      rw [none_ x inside]
      rfl
    have returned := returns e.outputStart own.2.1
    unfold KotlinSourceMap.position at returned
    rw [found] at returned
    dsimp only at returned
    rw [if_pos zero] at returned
    cases returned
  · intro shadowed line _
    unfold KotlinSourceMap.position
    split
    · rfl
    · rename_i e found
      split
      · rename_i zero
        obtain ⟨covered, before, after, whole, free⟩ := List.find?_eq_some_iff_append.mp found
        obtain ⟨earlier, inside, covers⟩ := shadowed before e after whole zero
        have own : e.Ints := ints e (whole ▸ List.mem_append_right _ List.mem_cons_self)
        rw [← (Entry.covers_of_zero own zero line).mp covered] at covers
        simp only [Bool.not_eq_eq_eq_not, Bool.not_true] at free
        exact absurd covers (by simpa using free earlier inside)
      · rfl

/-- A mapping with an output increment of zero. -/
def zeroIncrement : Text :=
  ascii "SMAP\nCaller.kt\nKotlin\n*S Kotlin\n*F\n1 Caller.kt\n*L\n8#1:100,0\n*E\n"

/-- The line of that mapping has no position. -/
theorem zero_increment_throws :
    ¬ ∀ (debug source : Option Text) (line : Int), IsInt line →
      ((parse debug source).position line).isSome = true := by
  intro claim
  have returned := claim (some zeroIncrement) none 100 (by decide)
  revert returned
  decide +kernel

end Walaru.SourceMaps
