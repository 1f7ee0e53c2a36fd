import Mathlib.Data.String.Basic
import Walaru.Lib.PageWalk
import Walaru.Source.Core.Store

/-!
# Pages of the store

The three listings that a client reads page by page: the events of a run, the tests and
the coverage of a subject. A cursor is a text; that of an event page is the sequence of
its last event, that of a coverage page the row id of its last point.
-/
namespace Walaru
open Lib.PageWalk

/-- `str::parse::<i64>().ok()`. -/
def parseI64 (text : String) : Option Int :=
  let magnitude (digits : List Char) : Option Nat :=
    if digits ≠ [] ∧ digits.all Char.isDigit then some (Nat.ofDigitChars 10 digits 0) else none
  match text.toList with
  | '-' :: digits => (magnitude digits).bind fun n => if n ≤ 2 ^ 63 then some (-(n : Int)) else none
  | '+' :: digits => (magnitude digits).bind fun n => if n < 2 ^ 63 then some (n : Int) else none
  | digits => (magnitude digits).bind fun n => if n < 2 ^ 63 then some (n : Int) else none

/-- A test as it is listed. -/
structure TestRecord where
  id : String
  displayName : String
  module : String
  lastStatus : Option String
  lastFailureId : Option String
  deriving DecidableEq, Repr

/-- A coverage point as it is listed. -/
structure CoverageRecord where
  testId : String
  path : String
  line : Nat
  symbol : String
  deriving DecidableEq, Repr

def CoverageRow.record (row : CoverageRow) : CoverageRecord :=
  ⟨row.testId, row.path, if row.line < 2 ^ 32 then row.line else 2 ^ 32 - 1, row.symbol⟩

structure ItemPage (α : Type) where
  items : List α
  nextCursor : Option String
  deriving DecidableEq

namespace Store
variable {Payload : Type}

/-- Reads an ordered, byte-bounded event page. -/
def eventsFrom (s : Store Payload) (runId : String) (testId : Option String) (cursor : Option String)
    (limit maxBytes : Nat) : Except StoreError EventPage :=
  s.eventsMatching runId testId ((cursor.bind parseI64).getD (-1)) limit maxBytes

/-- `Store::events`. -/
def eventPage (s : Store Payload) (runId : String) (cursor : Option String) (limit maxBytes : Nat) :
    Except StoreError EventPage :=
  s.eventsFrom runId none cursor limit maxBytes

/-- Rows up to a limit, and the cursor of the last when one more has been fetched. -/
def limitedPage {α β : Type} (rows : List α) (item : α → β) (cursorOf : α → String) (limit : Nat) :
    Except StoreError (ItemPage β) :=
  let requested := max limit 1
  let fetch := min (requested + 1) usizeMax
  if 2 ^ 63 ≤ fetch then .error (.integerRange (2 ^ 64 - 1))
  else
    let fetched := rows.take fetch
    let kept := fetched.take requested
    .ok ⟨kept.map item,
      if requested < fetched.length then kept.getLast?.map cursorOf else none⟩

/-- The failure of a test that was saved last. -/
def lastFailureId (s : Store Payload) (testId : String) : Option String :=
  ((s.failures.filter fun row => row.testId = testId).getLast?).map fun row => row.id

def testRecord (s : Store Payload) (row : TestRow) : TestRecord :=
  ⟨row.id, row.displayName, row.module, row.lastStatus, s.lastFailureId row.id⟩

/-- The tests behind an identifier, in identifier order. -/
def testRows (s : Store Payload) (after : String) : List TestRow :=
  (s.tests.filter fun row => after < row.id).mergeSort fun a b => a.id ≤ b.id

/-- `Store::tests`. -/
def testPage (s : Store Payload) (cursor : Option String) (limit : Nat) :
    Except StoreError (ItemPage TestRecord) :=
  limitedPage (s.testRows (cursor.getD "")) s.testRecord TestRow.id limit

/-- The coverage of a test, a path or a symbol behind a row id, in row order. -/
def coverageRows (s : Store Payload) (subject : String) (after : Int) : List CoverageRow :=
  (s.coverage.filter fun row =>
    after < (row.rowid : Int) &&
      (row.testId = subject || row.path = subject || row.symbol = subject)).mergeSort
    fun a b => a.rowid ≤ b.rowid

/-- `Store::coverage`. -/
def coveragePage (s : Store Payload) (subject : String) (cursor : Option String) (limit : Nat) :
    Except StoreError (ItemPage CoverageRecord) :=
  limitedPage (s.coverageRows subject ((cursor.bind parseI64).getD 0)) CoverageRow.record
    (fun row => toString row.rowid) limit

/-- The run of a test that started last. -/
def latestRunOf (s : Store Payload) (testId : String) : Option String :=
  ((s.events.filter fun row => row.testId = testId).foldl (fun best row =>
    match s.runs.find? fun run => run.id = row.runId with
    | none => best
    | some run =>
      match best with
      | none => some run
      | some old => if old.startedAt < run.startedAt then some run else some old) none).map
    fun run : RunRow => run.id

/-- `Store::trace`: the events of a run, or of a test in its last run. -/
def trace (s : Store Payload) (subject : String) (cursor : Option String) (limit maxBytes : Nat) :
    Except StoreError EventPage :=
  if s.hasRun subject then s.eventPage subject cursor limit maxBytes
  else
    match s.latestRunOf subject with
    | some runId => s.eventsFrom runId (some subject) cursor limit maxBytes
    | none => .ok ⟨[], none⟩

/-- What the keys of the schema say of the rows that are listed: sequences are unique in
a run and those of the events, test identifiers and row ids are unique, and a row id is
a positive machine integer. -/
structure Keyed (s : Store Payload) : Prop where
  sequences : s.events.Pairwise fun a b => a.runId = b.runId → a.sequence ≠ b.sequence
  stored : ∀ row ∈ s.events, row.payload.content.sequence = row.sequence ∧ row.sequence < 2 ^ 63
  testIds : (s.tests.map TestRow.id).Nodup
  rowids : (s.coverage.map CoverageRow.rowid).Nodup
  integers : ∀ row ∈ s.coverage, 0 < row.rowid ∧ row.rowid < 2 ^ 63

end Store

end Walaru
