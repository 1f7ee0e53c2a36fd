import Walaru.Source.Daemon.BoundedLine
import Walaru.Source.Daemon.Ingest

/-!
# The lines of an event file

`ingest_events` calls `read_bounded_line` until it answers no byte or fails.
-/
namespace Walaru

/-- What a call reads and what it leaves are what there was to read. -/
theorem readBoundedLine_ok {maxBytes : Nat} {output line : List UInt8}
    {chunks left : List (List UInt8)}
    (read : readBoundedLine maxBytes output chunks = .ok (line, left)) :
    line ++ left.flatten = output ++ chunks.flatten := by
  induction chunks generalizing output with
  | nil =>
    simp only [readBoundedLine, Except.ok.injEq, Prod.mk.injEq] at read
    obtain ⟨rfl, rfl⟩ := read
    rfl
  | cons available rest ih =>
    simp only [readBoundedLine] at read
    split at read
    · cases read
    · split at read
      · simp only [Except.ok.injEq, Prod.mk.injEq] at read
        rw [← read.1, ← read.2, List.flatten_cons, List.flatten_cons, List.append_assoc,
          ← List.append_assoc (List.take _ _), List.take_append_drop]
      · rename_i last
        rw [ih read]
        rw [Bool.not_eq_true, Option.isSome_eq_false_iff, Option.isNone_iff_eq_none] at last
        simp [last]

/-- The only error of the reader over a file that can be read. -/
def lineTooLong (maxBytes : Nat) : String :=
  "JVM event line exceeds " ++ toString maxBytes ++ " bytes"

theorem readBoundedLine_error {maxBytes : Nat} {output : List UInt8} {chunks : List (List UInt8)}
    {message : String} (failed : readBoundedLine maxBytes output chunks = .error message) :
    message = lineTooLong maxBytes := by
  induction chunks generalizing output with
  | nil => cases failed
  | cons available rest ih =>
    simp only [readBoundedLine] at failed
    split at failed
    · exact (Except.error.inj failed).symm
    · split at failed
      · cases failed
      · exact ih failed

/-- The lines read before the end of the file or an error, and that error. -/
def readLines (maxBytes : Nat) (chunks : List (List UInt8)) : List (List UInt8) × Option String :=
  match _read : readBoundedLine maxBytes [] chunks with
  | .error message => ([], some message)
  | .ok ([], _) => ([], none)
  | .ok (byte :: line, left) =>
    let later := readLines maxBytes left
    ((byte :: line) :: later.1, later.2)
termination_by chunks.flatten.length
decreasing_by
  have whole := congrArg List.length (readBoundedLine_ok _read)
  simp only [List.length_append, List.length_cons, List.length_nil] at whole
  omega

end Walaru
