import Walaru.Lib.Trace

/-!
# Reading the response line

`WalaruClient.execute` and its `readBoundedLine`. The child process writes to a pipe and
exits, the main thread waits for the exit and sets the flag, and a reader polls the pipe;
their steps interleave in any order. Bytes that are available are there to be read, so
`read` is never at the end. Timeouts and interrupts, behind which `execute` throws, are
left out, and so are errors of the pipe.
-/
namespace Walaru.Client

structure BoundedBytes where
  bytes : List UInt8
  exceeded : Bool
  deriving DecidableEq, Repr

inductive PipeReader where
  /-- At the head of the loop. -/
  | polling
  /-- Nothing was available. -/
  | checking
  | reading (available : Nat)
  | returned (result : BoundedBytes)
  deriving DecidableEq, Repr

structure Exchange where
  /-- All that the child has written. -/
  written : List UInt8
  /-- What of it has not been read. -/
  pipe : List UInt8
  exited : Bool
  processFinished : Bool
  kept : List UInt8
  total : Nat
  reader : PipeReader
  deriving DecidableEq, Repr

def Exchange.init : Exchange where
  written := []
  pipe := []
  exited := false
  processFinished := false
  kept := []
  total := 0
  reader := .polling

inductive PipeAction where
  | write (bytes : List UInt8)
  | exit
  /-- `waitFor` has returned. -/
  | finish
  | available
  | check
  | read (count : Nat)
  deriving DecidableEq, Repr

/-- The loop over a chunk: what is kept, the total, and whether the line has ended. -/
def keepChunk (maximum : Nat) (kept : List UInt8) (total : Nat) :
    List UInt8 → List UInt8 × Nat × Bool
  | [] => (kept, total, false)
  | byte :: rest =>
    if byte = 10 then (kept, total, true)
    else keepChunk maximum (if total < maximum then kept ++ [byte] else kept) (total + 1) rest

def Exchange.result (maximum : Nat) (s : Exchange) : BoundedBytes := ⟨s.kept, decide (maximum < s.total)⟩

/-- `input.read(chunk, 0, Math.min(available, chunk.length))`. -/
def Exchange.readSome (maximum count : Nat) (s : Exchange) : Exchange :=
  let (kept, total, ended) := keepChunk maximum s.kept s.total (s.pipe.take count)
  let read := { s with pipe := s.pipe.drop count, kept := kept, total := total }
  { read with reader := if ended then .returned (read.result maximum) else .polling }

def Exchange.step (maximum : Nat) (s : Exchange) : PipeAction → Option Exchange
  | .write bytes =>
    if s.exited then none
    else some { s with written := s.written ++ bytes, pipe := s.pipe ++ bytes }
  | .exit => if s.exited then none else some { s with exited := true }
  | .finish =>
    if s.exited && !s.processFinished then some { s with processFinished := true } else none
  | .available =>
    match s.reader with
    | .polling =>
      some { s with reader := if s.pipe = [] then .checking else .reading s.pipe.length }
    | _ => none
  | .check =>
    match s.reader with
    | .checking =>
      some { s with
        reader := if s.processFinished then .returned (s.result maximum) else .polling }
    | _ => none
  | .read count =>
    match s.reader with
    | .reading available =>
      if 1 ≤ count ∧ count ≤ min available 8192 then some (s.readSome maximum count) else none
    | _ => none

end Walaru.Client
