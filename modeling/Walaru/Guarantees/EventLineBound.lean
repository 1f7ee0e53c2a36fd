import Mathlib.Algebra.Order.BigOperators.Group.List
import Mathlib.Algebra.Order.Group.Nat
import Walaru.Lib.Sha256
import Walaru.Source.Agent.ObservationSize
import Walaru.Source.Agent.StateHash
import Walaru.Source.Daemon.BoundedLine

/-!
# Event lines under the daemon's bound

The capture bounds the depth, the number of elements and fields and the length of a
string, but not their product, and a number, a class name or an input is written in full.
What an event takes is a sum over its fields; the daemon reads its line exactly when that
sum stays below the bound.
-/
namespace Walaru.Agent
open Lib.Sha256 Lib.Text Lib.Utf16

/-- The hash field of an event. -/
def stateHashText (fields : Fields) : Text := ascii (stateHash sha256 fields)

/-- The line that the agent appends for an observation. -/
def emittedLine (heap : Heap) (context : EventContext) (observation : Observation) : List UInt8 :=
  writtenEvent (eventFields stateHashText heap context observation)

theorem length_sha256 (message : List UInt8) : (sha256 message).length = 32 := by
  rw [sha256, List.length_map]
  rfl

theorem writtenBytes_hexDigit {n : Nat} (digit : n < 16) : writtenBytes (hexDigit n) = 1 := by
  have table : ∀ i : Fin 16, writtenBytes (hexDigit i) = 1 := by decide
  exact table ⟨n, digit⟩

theorem textBytes_hexEncode (bytes : List UInt8) :
    textBytes (ascii (hexEncode bytes)) = 2 + 2 * bytes.length := by
  rw [textBytes, ascii, decode_encode_self, hexEncode, String.toList_ofList]
  induction bytes with
  | nil => rfl
  | cons byte bytes ih =>
    have high := writtenBytes_hexDigit (n := byte.toNat / 16) (by have := byte.toNat_lt; omega)
    have low := writtenBytes_hexDigit (n := byte.toNat % 16) (by omega)
    rw [List.flatMap_cons, List.map_append, List.sum_append, List.length_cons]
    simp only [List.map_cons, List.map_nil, List.sum_cons, List.sum_nil, high, low]
    omega

theorem textBytes_stateHashText (fields : Fields) :
    textBytes (stateHashText fields) = stateHashBytes := by
  rw [stateHashText, stateHash, textBytes_hexEncode, List.length_take, length_sha256]
  rfl

/-- The line of an event: its text, one newline, and no newline before. -/
theorem emittedLine_eq (heap : Heap) (context : EventContext) (observation : Observation) :
    ∃ line, emittedLine heap context observation = line ++ [10] ∧ 10 ∉ line ∧
      line.length = membersBytes (eventSizes heap context observation) := by
  obtain ⟨line, written, silent, length⟩ :=
    writtenEvent_line (eventFields stateHashText heap context observation)
  have sized := eventFields_sized textBytes_stateHashText heap context observation
  exact ⟨line, written, silent, length.trans sized.bytes⟩

/-- The daemon accepts the line of an event exactly when the sizes of the event's fields,
with their names and punctuation, sum to less than the bound. -/
theorem event_line_accepted_iff (heap : Heap) (context : EventContext) (observation : Observation) :
    ((emittedLine heap context observation).length ≤ maxEventLineBytes ∧
        AcceptsLine maxEventLineBytes (emittedLine heap context observation)) ↔
      membersBytes (eventSizes heap context observation) < maxEventLineBytes := by
  obtain ⟨line, written, silent, length⟩ := emittedLine_eq heap context observation
  rw [written, acceptsLine_iff maxEventLineBytes silent, and_self, List.length_append, length,
    List.length_singleton, Nat.succ_le_iff]

/-- An array of 32 arrays of 32 arrays of 32 times one string. -/
def gridHeap (text : Text) : Heap := fun identity =>
  ⟨ascii "[Ljava.lang.Object;", ascii "java.lang.Object[]", true,
    .array (List.replicate 32 (if identity < 2 then .object (identity + 1) else .string text)), []⟩

theorem le_containerBytes {n : Nat} {sizes : List Nat} (member : n ∈ sizes) :
    n ≤ containerBytes sizes := by
  have bound := List.single_le_sum (fun _ _ => Nat.zero_le _) n member
  rw [containerBytes, separatedBytes]
  omega

theorem le_membersBytes {name : String} {bytes : Nat} {sizes : Sizes}
    (member : (name, bytes) ∈ sizes) : bytes ≤ membersBytes sizes := by
  have named : bytes ≤ memberBytes (ascii name) bytes := by
    rw [memberBytes]
    omega
  exact Nat.le_trans named (le_containerBytes (List.mem_map.mpr ⟨(name, bytes), member, rfl⟩))

theorem le_sequenceBytes (typeName : Text) (length : Nat) (key : String) (items : List Nat) :
    items.sum ≤ sequenceBytes typeName length key items := by
  have inside : items.sum ≤ memberBytes (ascii key) (containerBytes items) := by
    rw [memberBytes, containerBytes, separatedBytes]
    omega
  refine Nat.le_trans inside (le_containerBytes ?_)
  simp

/-- An array takes more than each of its 32 elements times 32. -/
theorem gridHeap_array {text : Text} {levels : Nat} {seen : List Nat} {identity : Nat}
    (fresh : identity ∉ seen) {n : Nat}
    (inner : n ≤ captureBytes (gridHeap text) levels (identity :: seen)
      (if identity < 2 then .object (identity + 1) else .string text)) :
    32 * n ≤ captureBytes (gridHeap text) (levels + 1) seen (.object identity) := by
  rw [captureBytes, if_neg fresh]
  have items := le_sequenceBytes (ascii "java.lang.Object[]") 32 "items"
    (List.replicate 32 (captureBytes (gridHeap text) levels (identity :: seen)
      (if identity < 2 then .object (identity + 1) else .string text)))
  rw [List.sum_replicate_nat] at items
  exact Nat.le_trans (Nat.mul_le_mul_left 32 inner) items

/-- A text of 256 letters. -/
def longText : Text := List.replicate 256 97

theorem captureSize_grid : 32 * (32 * (32 * 258)) ≤ captureSize (gridHeap longText) (.object 0) := by
  have leaf : 258 ≤ captureBytes (gridHeap longText) 0 [2, 1, 0] (.string longText) := by
    have shown : secretValue longText = false ∧ textBytes (truncate longText) = 258 := by
      decide +kernel
    rw [captureBytes, shown.1, if_neg Bool.false_ne_true, shown.2]
  have third := @gridHeap_array longText 0 [1, 0] 2 (by decide) _ leaf
  have second := @gridHeap_array longText 1 [0] 1 (by decide) _ third
  exact @gridHeap_array longText 2 [] 0 (by decide) _ second

/-- The public interface captures the outermost array. -/
def gridCapture : Observation :=
  .apiCapture ⟨ascii "demo/AppTest", ascii "works", [], ascii "AppTest.java", 7, none⟩ (ascii "grid")
    (.object 0) false

def gridContext : EventContext :=
  ⟨1, 1, ascii "main", false, ascii ":", some (ascii "id", ascii "demo.AppTest#works")⟩

/-- Every array has 32 elements, every string 256 units and nothing nests deeper than
three objects, yet the line is over the bound. -/
theorem grid_exceeds_bound :
    ¬ ∀ (heap : Heap) (context : EventContext) (observation : Observation),
      (emittedLine heap context observation).length ≤ maxEventLineBytes := by
  intro claim
  have fits := claim (gridHeap longText) gridContext gridCapture
  obtain ⟨line, written, -, length⟩ := emittedLine_eq (gridHeap longText) gridContext gridCapture
  rw [written, List.length_append, length, List.length_singleton] at fits
  have long := captureSize_grid
  have shown : shownSize (gridHeap longText) (ascii "grid") (.object 0) false =
      captureSize (gridHeap longText) (.object 0) := by
    have plain : secretName (ascii "grid") = false := by decide +kernel
    rw [shownSize, namedSize, plain]
    rfl
  generalize captureSize (gridHeap longText) (.object 0) = bytes at long shown
  have value := @le_membersBytes "value" bytes
    [nameSize (ascii "grid"), ("value", bytes), boolSize "redacted" false] (by simp)
  have inside := @le_membersBytes "values"
    (membersBytes [nameSize (ascii "grid"), ("value", bytes), boolSize "redacted" false])
    (eventSizes (gridHeap longText) gridContext gridCapture) (by
      simp [eventSizes, gridCapture, gridContext, Observation.sizes, codeSizes, putSizes, putSize,
        textSize, intSize, boolSize, mapSize, shown])
  have bound : maxEventLineBytes = 1048576 := rfl
  omega

end Walaru.Agent
