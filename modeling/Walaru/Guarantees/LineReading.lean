import Walaru.Lib.Pieces
import Walaru.Source.Daemon.EventStream

/-!
# Reading an event file line by line

Repeated calls of `read_bounded_line` return the pieces of the file, cut after each
newline, up to the first that is longer than the bound; where the buffer of the reader
ends plays no part. The output never holds more than the bound, also when a call fails.
-/
namespace Walaru
open Lib.Pieces

/-- `read_bounded_line` with each value that the output takes. -/
def readTraced (maxBytes : Nat) : List UInt8 → List (List UInt8) →
    List (List UInt8) × Except String (List UInt8 × List (List UInt8))
  | output, [] => ([output], .ok (output, []))
  | output, available :: rest =>
    let newline := available.findIdx? fun byte => byte = 10
    let consumed := newline.elim available.length fun index => index + 1
    let longer := output ++ available.take consumed
    if maxBytes < output.length + consumed then
      ([output], .error ("JVM event line exceeds " ++ toString maxBytes ++ " bytes"))
    else if newline.isSome then ([output, longer], .ok (longer, available.drop consumed :: rest))
    else
      let later := readTraced maxBytes longer rest
      (output :: later.1, later.2)

theorem readTraced_result (maxBytes : Nat) (output : List UInt8) (chunks : List (List UInt8)) :
    (readTraced maxBytes output chunks).2 = readBoundedLine maxBytes output chunks := by
  induction chunks generalizing output with
  | nil => rfl
  | cons available rest ih =>
    simp only [readTraced, readBoundedLine]
    split
    · rfl
    · split
      · rfl
      · exact ih _

theorem readTraced_bounded {maxBytes : Nat} {output : List UInt8} (fits : output.length ≤ maxBytes)
    (chunks : List (List UInt8)) :
    ∀ buffer ∈ (readTraced maxBytes output chunks).1, buffer.length ≤ maxBytes := by
  induction chunks generalizing output with
  | nil => simpa [readTraced] using fits
  | cons available rest ih =>
    simp only [readTraced]
    split
    · simpa using fits
    · rename_i short
      have longer : (output ++ available.take ((available.findIdx? fun byte => byte = 10).elim
          available.length fun index => index + 1)).length ≤ maxBytes := by
        rw [List.length_append, List.length_take]
        omega
      split
      · simp only [List.mem_cons, List.not_mem_nil, or_false, forall_eq_or_imp, forall_eq]
        exact ⟨fits, longer⟩
      · rw [List.forall_mem_cons]
        exact ⟨fits, ih longer⟩

/-- A last line without a newline. -/
theorem readBoundedLine_last {maxBytes : Nat} {output : List UInt8} {chunks : List (List UInt8)}
    (fits : output.length ≤ maxBytes) (silent : 10 ∉ chunks.flatten) :
    if output.length + chunks.flatten.length ≤ maxBytes then
      ∃ left, readBoundedLine maxBytes output chunks = .ok (output ++ chunks.flatten, left) ∧
        left.flatten = []
    else ∃ message, readBoundedLine maxBytes output chunks = .error message := by
  induction chunks generalizing output with
  | nil =>
    rw [List.flatten_nil, List.length_nil, Nat.add_zero, if_pos fits, List.append_nil]
    exact ⟨[], rfl, rfl⟩
  | cons available rest ih =>
    rw [List.flatten_cons, List.mem_append, not_or] at silent
    rw [readBoundedLine, findIdx?_silent silent.1]
    simp only [Option.elim_none, List.take_length, Option.isSome_none, Bool.false_eq_true, if_false,
      List.flatten_cons, List.length_append]
    by_cases long : maxBytes < output.length + available.length
    · rw [if_neg (by omega), if_pos long]
      exact ⟨_, rfl⟩
    · have longer : (output ++ available).length ≤ maxBytes := by
        rw [List.length_append]
        omega
      have next := ih longer silent.2
      rw [if_neg long]
      simpa only [List.length_append, List.append_assoc, Nat.add_assoc] using next

section Calls
variable {maxBytes : Nat} {chunks left : List (List UInt8)}

theorem readLines_end (read : readBoundedLine maxBytes [] chunks = .ok ([], left)) :
    readLines maxBytes chunks = ([], none) := by
  rw [readLines]
  split <;> simp_all

/-- Nothing to read is the end. -/
theorem readLines_nothing (nothing : chunks.flatten = []) :
    readLines maxBytes chunks = ([], none) := by
  have read := @readBoundedLine_last maxBytes [] chunks maxBytes.zero_le (by simp [nothing])
  rw [nothing, if_pos (by simp)] at read
  obtain ⟨left, read, -⟩ := read
  exact readLines_end read

theorem readLines_error {message : String}
    (failed : readBoundedLine maxBytes [] chunks = .error message) :
    readLines maxBytes chunks = ([], some (lineTooLong maxBytes)) := by
  have known := readBoundedLine_error failed
  rw [readLines]
  split <;> simp_all

theorem readLines_line {line : List UInt8} (occupied : line ≠ [])
    (read : readBoundedLine maxBytes [] chunks = .ok (line, left)) :
    readLines maxBytes chunks =
      (line :: (readLines maxBytes left).1, (readLines maxBytes left).2) := by
  rw [readLines]
  split <;> simp_all

end Calls

/-- Each value that the line of the loop takes, over all its calls. -/
def lineBuffers (maxBytes : Nat) (chunks : List (List UInt8)) : List (List UInt8) :=
  (readTraced maxBytes [] chunks).1 ++
    match _read : readBoundedLine maxBytes [] chunks with
    | .ok (_ :: _, left) => lineBuffers maxBytes left
    | _ => []
termination_by chunks.flatten.length
decreasing_by
  have whole := congrArg List.length (readBoundedLine_ok _read)
  simp only [List.length_append, List.length_cons, List.length_nil] at whole
  omega

theorem lineBuffers_bounded (maxBytes : Nat) (chunks : List (List UInt8)) :
    ∀ buffer ∈ lineBuffers maxBytes chunks, buffer.length ≤ maxBytes := by
  induction size : chunks.flatten.length using Nat.strongRecOn generalizing chunks with
  | _ n ih =>
    have call := @readTraced_bounded maxBytes [] maxBytes.zero_le chunks
    rw [lineBuffers, List.forall_mem_append]
    refine ⟨call, ?_⟩
    split
    · rename_i byte line left read
      have whole := congrArg List.length (readBoundedLine_ok read)
      simp only [List.length_append, List.length_cons, List.length_nil] at whole
      exact ih left.flatten.length (by omega) left rfl
    · exact List.forall_mem_nil _

/-- The pieces that fit, up to the first that does not, which is an error. -/
def boundedPieces (maxBytes : Nat) (parts : List (List UInt8)) : List (List UInt8) × Option String :=
  (parts.takeWhile fun part => part.length ≤ maxBytes,
    if parts.all fun part => part.length ≤ maxBytes then none else some (lineTooLong maxBytes))

theorem boundedPieces_fits {maxBytes : Nat} {part : List UInt8} (fits : part.length ≤ maxBytes)
    (parts : List (List UInt8)) : boundedPieces maxBytes (part :: parts) =
      (part :: (boundedPieces maxBytes parts).1, (boundedPieces maxBytes parts).2) := by
  simp [boundedPieces, fits]

theorem boundedPieces_long {maxBytes : Nat} {part : List UInt8} (long : ¬part.length ≤ maxBytes)
    (parts : List (List UInt8)) :
    boundedPieces maxBytes (part :: parts) = ([], some (lineTooLong maxBytes)) := by
  simp [boundedPieces, long]

theorem readLines_pieces (maxBytes : Nat) (chunks : List (List UInt8)) :
    readLines maxBytes chunks = boundedPieces maxBytes (pieces 10 chunks.flatten) := by
  generalize bytes : chunks.flatten = whole
  induction whole using @induction_on _ (10 : UInt8) generalizing chunks with
  | empty => exact readLines_nothing bytes
  | last line silent occupied =>
    have read := @readBoundedLine_last maxBytes [] chunks maxBytes.zero_le (bytes ▸ silent)
    rw [bytes, List.length_nil, Nat.zero_add, List.nil_append] at read
    rw [pieces_free silent occupied]
    by_cases fits : line.length ≤ maxBytes
    · rw [if_pos fits] at read
      obtain ⟨left, read, nothing⟩ := read
      rw [readLines_line occupied read, readLines_nothing nothing, boundedPieces_fits fits]
      rfl
    · rw [if_neg fits] at read
      obtain ⟨message, failed⟩ := read
      rw [readLines_error failed, boundedPieces_long fits]
  | piece line rest silent ih =>
    have read := readBoundedLine_line maxBytes [] line rest chunks silent bytes
    rw [List.length_nil, Nat.zero_add, List.nil_append] at read
    rw [pieces_ended silent]
    have size : (line ++ [10]).length = line.length + 1 := by simp
    by_cases fits : line.length + 1 ≤ maxBytes
    · rw [if_pos fits] at read
      obtain ⟨left, read, later⟩ := read
      rw [readLines_line (by simp) read, ih left later, boundedPieces_fits (by omega)]
    · rw [if_neg fits] at read
      obtain ⟨message, failed⟩ := read
      rw [readLines_error failed, boundedPieces_long (by omega)]

/-- Whatever the chunks are, the calls return the pieces of the file up to the first that is
too long, and the output is never longer than the bound. -/
theorem read_lines_exact (maxBytes : Nat) (chunks : List (List UInt8)) :
    Cut 10 chunks.flatten (pieces 10 chunks.flatten) ∧
      readLines maxBytes chunks = boundedPieces maxBytes (pieces 10 chunks.flatten) ∧
      ∀ buffer ∈ lineBuffers maxBytes chunks, buffer.length ≤ maxBytes :=
  ⟨pieces_cut 10 _, readLines_pieces maxBytes chunks, lineBuffers_bounded maxBytes chunks⟩

end Walaru
