import Mathlib.Data.List.Basic
import Walaru.Source.Daemon.Events

/-!
# Reading one line of an event file

`read_bounded_line` over a buffered reader. The buffer fills at any boundaries, so the
reader is the chunks still to come; the end of the file is the end of the chunks.
-/
namespace Walaru

/-- `read_bounded_line`: what has been read, or the error, and what is left to read. -/
def readBoundedLine (maxBytes : Nat) :
    List UInt8 → List (List UInt8) → Except String (List UInt8 × List (List UInt8))
  | output, [] => .ok (output, [])
  | output, available :: rest =>
    let newline := available.findIdx? fun byte => byte = 10
    let consumed := newline.elim available.length fun index => index + 1
    if maxBytes < output.length + consumed then
      .error ("JVM event line exceeds " ++ toString maxBytes ++ " bytes")
    else if newline.isSome then
      .ok (output ++ available.take consumed, available.drop consumed :: rest)
    else readBoundedLine maxBytes (output ++ available.take consumed) rest

/-- However the buffer fills, the line is read when it fits. -/
def AcceptsLine (maxBytes : Nat) (line : List UInt8) : Prop :=
  ∀ (chunks : List (List UInt8)) (rest : List UInt8), chunks.flatten = line ++ rest →
    ∃ left, readBoundedLine maxBytes [] chunks = .ok (line, left) ∧ left.flatten = rest

theorem findIdx?_newline {line : List UInt8} (silent : 10 ∉ line) (rest : List UInt8) :
    (line ++ 10 :: rest).findIdx? (fun byte => byte = 10) = some line.length := by
  induction line with
  | nil => rfl
  | cons byte line ih =>
    rw [List.mem_cons, not_or] at silent
    have other : byte ≠ 10 := fun same => silent.1 same.symm
    simp [List.findIdx?_cons, other, ih silent.2]

theorem findIdx?_silent {bytes : List UInt8} (silent : 10 ∉ bytes) :
    bytes.findIdx? (fun byte => byte = 10) = none := by
  rw [List.findIdx?_eq_none_iff]
  intro byte member
  rw [decide_eq_false_iff_not]
  rintro rfl
  exact silent member

/-- A line that does not fit is refused, one that fits is read up to its newline. -/
theorem readBoundedLine_line (maxBytes : Nat) (output line rest : List UInt8)
    (chunks : List (List UInt8)) (silent : 10 ∉ line)
    (whole : chunks.flatten = line ++ 10 :: rest) :
    if output.length + line.length + 1 ≤ maxBytes then
      ∃ left, readBoundedLine maxBytes output chunks = .ok (output ++ (line ++ [10]), left) ∧
        left.flatten = rest
    else ∃ message, readBoundedLine maxBytes output chunks = .error message := by
  induction chunks generalizing output line with
  | nil => simp at whole
  | cons available more ih =>
    rw [List.flatten_cons] at whole
    rcases List.append_eq_append_iff.mp whole with ⟨part, inside, later⟩ | ⟨part, inside, later⟩
    · -- The newline is not in this chunk.
      subst inside
      rw [List.mem_append, not_or] at silent
      have next := ih (output ++ available) part silent.2 later
      rw [readBoundedLine, findIdx?_silent silent.1]
      simp only [Option.elim_none, List.take_length, Option.isSome_none, Bool.false_eq_true, if_false]
      simp only [List.length_append] at next ⊢
      by_cases fits : output.length + (available.length + part.length) + 1 ≤ maxBytes
      · rw [if_pos (by omega)] at next
        rw [if_pos fits, if_neg (by omega)]
        simpa only [List.append_assoc] using next
      · rw [if_neg (by omega)] at next
        rw [if_neg fits]
        split
        · exact ⟨_, rfl⟩
        · exact next
    · cases part with
      | nil =>
        rw [List.append_nil] at inside
        subst inside
        have next := ih (output ++ available) [] (by simp) later.symm
        rw [readBoundedLine, findIdx?_silent silent]
        simp only [Option.elim_none, List.take_length, Option.isSome_none, Bool.false_eq_true,
          if_false]
        simp only [List.length_append, List.length_nil, Nat.add_zero] at next ⊢
        by_cases fits : output.length + available.length + 1 ≤ maxBytes
        · rw [if_pos fits] at next
          rw [if_pos fits, if_neg (by omega)]
          simpa only [List.append_assoc, List.nil_append] using next
        · rw [if_neg fits] at next
          rw [if_neg fits]
          split
          · exact ⟨_, rfl⟩
          · exact next
      | cons byte tail =>
        obtain ⟨rfl, rfl⟩ := List.cons.inj later
        subst inside
        rw [readBoundedLine, findIdx?_newline silent]
        simp only [Option.elim_some, Option.isSome_some, if_true]
        have taken : (line ++ 10 :: tail).take (line.length + 1) = line ++ [10] := by
          rw [List.take_append, List.take_of_length_le (by omega)]
          simp
        have dropped : (line ++ 10 :: tail).drop (line.length + 1) = tail := by
          rw [List.drop_append, List.drop_of_length_le (by omega)]
          simp
        rw [taken, dropped]
        split
        · rw [if_neg (by omega)]
          exact ⟨_, rfl, by simp⟩
        · rw [if_pos (by omega)]
          exact ⟨_, rfl⟩

/-- A line within the bound is read whole, whatever the boundaries; a longer one stops
the reader. -/
theorem acceptsLine_iff (maxBytes : Nat) {line : List UInt8} (silent : 10 ∉ line) :
    AcceptsLine maxBytes (line ++ [10]) ↔ (line ++ [10]).length ≤ maxBytes := by
  rw [List.length_append, List.length_singleton]
  constructor
  · intro accepted
    obtain ⟨left, read, -⟩ := accepted [line ++ [10]] [] (by simp)
    have spec := readBoundedLine_line maxBytes [] line [] [line ++ [10]] silent (by simp)
    by_contra long
    rw [if_neg (by simpa using long)] at spec
    obtain ⟨message, failed⟩ := spec
    rw [read] at failed
    cases failed
  · intro fits chunks rest whole
    have spec := readBoundedLine_line maxBytes [] line rest chunks silent (by simpa using whole)
    rw [if_pos (by simpa using fits)] at spec
    simpa using spec

end Walaru
