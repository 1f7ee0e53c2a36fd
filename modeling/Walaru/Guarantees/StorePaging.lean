import Walaru.Source.Core.StorePages

/-!
# Walking the store

Following the cursors of `Store::events`, `Store::tests` and `Store::coverage` from the
start visits every row once, in key order.
-/
namespace Walaru
open Lib.PageWalk Lib.BoundedPage

theorem parseI64_toString {n : Nat} (small : n < 2 ^ 63) : parseI64 (toString n) = some (n : Int) := by
  have chars : (toString n).toList = Nat.toDigits 10 n := by simp [toString, Nat.repr]
  have digits : ∀ c ∈ Nat.toDigits 10 n, c.isDigit = true := fun c member =>
    Nat.isDigit_of_mem_toDigits (by decide) (by decide) member
  have all : (Nat.toDigits 10 n).all Char.isDigit = true := List.all_eq_true.mpr digits
  obtain ⟨first, rest, shape⟩ := List.exists_cons_of_ne_nil (Nat.toDigits_ne_nil (n := n) (b := 10))
  have read : Nat.ofDigitChars 10 (first :: rest) 0 = n := by
    rw [← shape, Nat.ofDigitChars_ten_toDigits]
  rw [shape] at all digits
  have digit := digits first (List.mem_cons_self ..)
  unfold parseI64
  rw [chars, shape]
  split
  · rename_i same
    obtain ⟨rfl, -⟩ := List.cons.inj same
    cases digit
  · rename_i same
    obtain ⟨rfl, -⟩ := List.cons.inj same
    cases digit
  · have numeral : first :: rest ≠ [] ∧ (first :: rest).all Char.isDigit = true := ⟨by simp, all⟩
    dsimp only
    rw [if_pos numeral, read, Option.bind_some, if_pos small]

section Table
variable {ε α β κ : Type} [LinearOrder κ] {key : α → κ} {table : List α} {keep : α → Bool}
  {decode : String → Option κ} {start : κ} {cursorOf : α → String}

/-- The rows behind a cursor. -/
def rowsFrom (key : α → κ) (table : List α) (keep : α → Bool) (decode : String → Option κ) (start : κ)
    (cursor : Option String) : List α :=
  rowsAfter key table keep ((cursor.bind decode).getD start)

theorem rowsFrom_resume (differ : KeysDiffer key table keep)
    (decoded : ∀ a ∈ table, decode (cursorOf a) = some (key a)) {cursor : Option String}
    {kept more : List α} {last : α} (split : rowsFrom key table keep decode start cursor = kept ++ more)
    (ends : kept.getLast? = some last) :
    rowsFrom key table keep decode start (some (cursorOf last)) = more := by
  have member : last ∈ table := by
    have here : last ∈ rowsFrom key table keep decode start cursor := by
      rw [split]
      exact List.mem_append_left _ (List.mem_of_getLast? ends)
    exact ((mem_rowsAfter key).mp here).1
  have resumed := rowsAfter_resume key differ split ends
  simpa [rowsFrom, decoded last member] using resumed

/-- Pages that keep a beginning of what is left, and give the cursor of its last row
exactly when they leave rows over, visit the table. -/
theorem visits_of_pages {page : Option String → Except ε (List β × Option String)} {item : α → β}
    (differ : KeysDiffer key table keep) (decoded : ∀ a ∈ table, decode (cursorOf a) = some (key a))
    (pages : ∀ cursor, ∃ kept more, rowsFrom key table keep decode start cursor = kept ++ more ∧
      page cursor = .ok (kept.map item, if more ≠ [] then kept.getLast?.map cursorOf else none) ∧
      (more ≠ [] → kept ≠ [])) :
    Visits page ((rowsFrom key table keep decode start none).map item) := by
  suffices cuts : Cuts page fun cursor rest =>
      rest = (rowsFrom key table keep decode start cursor).map item from cuts.visits rfl
  rintro cursor rest rfl
  obtain ⟨kept, more, split, answer, some_⟩ := pages cursor
  by_cases left : more = []
  · subst left
    left
    simpa [split] using answer
  · right
    obtain ⟨front, last, rfl⟩ : ∃ front last, kept = front ++ [last] :=
      List.eq_nil_or_concat kept |>.resolve_left (some_ left) |>.imp fun _ => .imp fun _ => by simp
    refine ⟨(front ++ [last]).map item, more.map item, cursorOf last, ?_, by simp, by simpa using left,
      by simp [split], ?_⟩
    · simpa [left] using answer
    · exact congrArg (List.map item) (rowsFrom_resume differ decoded split (by simp)).symm

variable (decode start cursorOf) in
/-- The listings that look one row past their limit. -/
theorem limitedPage_visits (item : α → β) {limit : Nat} (positive : 1 ≤ limit)
    (addressable : limit < 2 ^ 63 - 1) (differ : KeysDiffer key table keep)
    (decoded : ∀ a ∈ table, decode (cursorOf a) = some (key a)) :
    Visits (fun cursor => (Store.limitedPage (rowsFrom key table keep decode start cursor) item cursorOf
        limit).map fun page => (page.items, page.nextCursor))
      ((rowsFrom key table keep decode start none).map item) := by
  refine visits_of_pages differ decoded fun cursor => ?_
  generalize rowsFrom key table keep decode start cursor = rows
  have requested : max limit 1 = limit := Nat.max_eq_left positive
  have fetch : min (limit + 1) usizeMax = limit + 1 := by
    unfold usizeMax
    omega
  refine ⟨rows.take limit, rows.drop limit, (List.take_append_drop limit rows).symm, ?_, ?_⟩
  · have room : ¬ 2 ^ 63 ≤ limit + 1 := by omega
    have more : limit < (rows.take (limit + 1)).length ↔ rows.drop limit ≠ [] := by
      rw [List.length_take, ne_eq, List.drop_eq_nil_iff]
      omega
    simp only [Store.limitedPage, requested, fetch, room, if_false, Except.map, List.take_take,
      Nat.min_eq_left (Nat.le_succ limit), more]
  · intro left
    have occupied : limit < rows.length := by
      rw [ne_eq, List.drop_eq_nil_iff] at left
      omega
    rw [ne_eq, List.take_eq_nil_iff, not_or]
    exact ⟨by omega, List.ne_nil_of_length_pos (by omega)⟩

/-- The byte-bounded page keeps a beginning of the rows, and tells whether rows are left. -/
theorem fill_page (size : α → Nat) {limit : Nat} (maxBytes : Nat) (positive : 1 ≤ limit) (rows : List α) :
    ∃ more, rows = (fill usizeMax size limit maxBytes 0 0 (rows.take (limit + 1))).1 ++ more ∧
      ((fill usizeMax size limit maxBytes 0 0 (rows.take (limit + 1))).2 = true ↔ more ≠ []) ∧
      (more ≠ [] → (fill usizeMax size limit maxBytes 0 0 (rows.take (limit + 1))).1 ≠ []) := by
  obtain ⟨rest, split, flag⟩ := fill_split usizeMax size limit maxBytes 0 0 (rows.take (limit + 1))
  have bound := fill_length_le usizeMax size limit maxBytes 0 0 (rows.take (limit + 1))
  have nonempty : rows.take (limit + 1) ≠ [] →
      (fill usizeMax size limit maxBytes 0 0 (rows.take (limit + 1))).1 ≠ [] :=
    fill_ne_nil usizeMax size limit maxBytes positive
  generalize fill usizeMax size limit maxBytes 0 0 (rows.take (limit + 1)) = cut at split flag bound nonempty ⊢
  have whole : rows = cut.1 ++ (rest ++ rows.drop (limit + 1)) := by
    rw [← List.append_assoc, ← split, List.take_append_drop]
  -- Rows beyond the look-ahead imply that the look-ahead itself is left over.
  have left : rest ++ rows.drop (limit + 1) ≠ [] ↔ rest ≠ [] := by
    constructor
    · intro some_ none_
      subst none_
      have long : rows.drop (limit + 1) ≠ [] := by simpa using some_
      have count := congrArg List.length split
      rw [ne_eq, List.drop_eq_nil_iff] at long
      simp only [List.length_take, List.append_nil] at count
      omega
    · intro some_ none_
      exact some_ (List.append_eq_nil_iff.mp none_).1
  refine ⟨rest ++ rows.drop (limit + 1), whole, flag.trans left.symm, ?_⟩
  intro some_
  refine nonempty fun none_ => ?_
  rw [none_] at split
  exact left.mp some_ (List.append_eq_nil_iff.mp split.symm).2

/-- The byte-bounded listing. -/
theorem boundedPage_visits {item : α → β} (size : α → Nat) {limit : Nat} (maxBytes : Nat)
    (positive : 1 ≤ limit) (differ : KeysDiffer key table keep)
    (decoded : ∀ a ∈ table, decode (cursorOf a) = some (key a))
    {page : Option String → Except ε (List β × Option String)}
    (pages : ∀ cursor, page cursor =
      .ok (((fill usizeMax size limit maxBytes 0 0
          ((rowsFrom key table keep decode start cursor).take (limit + 1))).1.map item),
        if (fill usizeMax size limit maxBytes 0 0
          ((rowsFrom key table keep decode start cursor).take (limit + 1))).2 then
          (fill usizeMax size limit maxBytes 0 0
            ((rowsFrom key table keep decode start cursor).take (limit + 1))).1.getLast?.map cursorOf
        else none)) :
    Visits page ((rowsFrom key table keep decode start none).map item) := by
  refine visits_of_pages differ decoded fun cursor => ?_
  rw [pages cursor]
  obtain ⟨more, whole, flag, nonempty⟩ :=
    fill_page size maxBytes positive (rowsFrom key table keep decode start cursor)
  refine ⟨_, more, whole, ?_, nonempty⟩
  simp only [flag]

end Table

namespace Store
variable {Payload : Type}

def eventsOf (s : Store Payload) (runId : String) : List Event :=
  ((s.events.filter fun row => row.runId = runId).mergeSort fun a b => a.sequence ≤ b.sequence).map
    fun row => row.payload.content

def listedTests (s : Store Payload) : List TestRecord :=
  (s.tests.mergeSort fun a b => a.id ≤ b.id).map s.testRecord

def coverageOf (s : Store Payload) (subject : String) : List CoverageRecord :=
  ((s.coverage.filter fun row =>
      row.testId = subject || row.path = subject || row.symbol = subject).mergeSort
    fun a b => a.rowid ≤ b.rowid).map CoverageRow.record

/-- What a page answers to the client that walks. -/
def eventAnswer (page : EventPage) : List Event × Option String := (page.items, page.nextCursor)

def itemAnswer {α : Type} (page : ItemPage α) : List α × Option String :=
  (page.items, page.nextCursor)

variable {s : Store Payload}

theorem eventRows_eq (runId : String) (testId : Option String) (after : Int) :
    s.eventRows runId testId after =
      rowsAfter (fun row : EventRow => (row.sequence : Int)) s.events
        (fun row => row.runId = runId && testId.all fun t => row.testId = t) after := by
  simp only [eventRows, rowsAfter, Int.ofNat_le]
  congr 1
  exact List.filter_congr fun row _ => by rw [Bool.and_comm]

theorem Keyed.sequences_differ (keyed : s.Keyed) (runId : String) (testId : Option String) :
    KeysDiffer (fun row : EventRow => (row.sequence : Int)) s.events
      fun row => row.runId = runId && testId.all fun t => row.testId = t := by
  refine keyed.sequences.imp fun {a b} unique here there same => ?_
  simp only [Bool.and_eq_true, decide_eq_true_eq] at here there
  exact unique (here.1.trans there.1.symm) (Int.ofNat.inj same)

/-- The events that a run has, of one test or of all. -/
theorem Keyed.events_visited (keyed : s.Keyed) (runId : String) (testId : Option String)
    {limit : Nat} (positive : 1 ≤ limit) (addressable : limit < 2 ^ 63 - 1) (maxBytes : Nat) :
    Visits (fun cursor => (s.eventsFrom runId testId cursor limit maxBytes).map eventAnswer)
      ((s.eventRows runId testId (-1)).map fun row => row.payload.content) := by
  have fetch : max (min (limit + 1) usizeMax) 1 = limit + 1 := by
    unfold usizeMax
    omega
  have room : ¬ 2 ^ 63 ≤ limit + 1 := by omega
  have decoded : ∀ row ∈ s.events,
      parseI64 (toString row.payload.content.sequence) = some (row.sequence : Int) := by
    intro row member
    obtain ⟨same, small⟩ := keyed.stored row member
    rw [same]
    exact parseI64_toString small
  rw [eventRows_eq]
  refine boundedPage_visits (fun row : EventRow => row.payload.jsonLength) maxBytes positive
    (keyed.sequences_differ runId testId) decoded fun cursor => ?_
  simp only [eventsFrom, eventsMatching, fetch, room, if_false, Except.map, eventAnswer,
    eventRows_eq, rowsFrom, List.getLast?_map, Option.map_map, Function.comp_def]
  rfl

/-- The tests behind the empty identifier. -/
theorem Keyed.testRows_visited (keyed : s.Keyed) {limit : Nat} (positive : 1 ≤ limit)
    (addressable : limit < 2 ^ 63 - 1) :
    Visits (fun cursor => (s.testPage cursor limit).map itemAnswer)
      ((s.testRows "").map s.testRecord) := by
  have differ : KeysDiffer TestRow.id s.tests fun _ => true := by
    refine (List.pairwise_map.mp keyed.testIds).imp fun different _ _ => different
  have visited := limitedPage_visits some "" TestRow.id s.testRecord positive addressable differ
    fun _ _ => rfl
  have rows : ∀ after, s.testRows after = rowsAfter TestRow.id s.tests (fun _ => true) after := by
    intro after
    simp [testRows, rowsAfter]
  have unbound : ∀ cursor : Option String, cursor.bind some = cursor := fun cursor => by cases cursor <;> rfl
  simp only [rowsFrom, unbound, Option.getD_none] at visited
  simp only [testPage, rows]
  exact visited

theorem testRows_named (named : ∀ row ∈ s.tests, row.id ≠ "") :
    s.testRows "" = s.tests.mergeSort fun a b => a.id ≤ b.id := by
  have all : (s.tests.filter fun row => "" < row.id) = s.tests := by
    refine List.filter_eq_self.mpr fun row member => ?_
    have least : ("" : String) ≤ row.id := by
      rw [String.le_iff_toList_le]
      exact not_lt.mp (List.not_lt_nil _)
    simpa using lt_of_le_of_ne least (named row member).symm
  rw [testRows, all]

theorem Keyed.tests_visited (keyed : s.Keyed) (named : ∀ row ∈ s.tests, row.id ≠ "") {limit : Nat}
    (positive : 1 ≤ limit) (addressable : limit < 2 ^ 63 - 1) :
    Visits (fun cursor => (s.testPage cursor limit).map itemAnswer) s.listedTests := by
  have visited := keyed.testRows_visited positive addressable
  rw [testRows_named named] at visited
  exact visited

theorem Keyed.coverage_visited (keyed : s.Keyed) (subject : String) {limit : Nat}
    (positive : 1 ≤ limit) (addressable : limit < 2 ^ 63 - 1) :
    Visits (fun cursor => (s.coveragePage subject cursor limit).map itemAnswer)
      (s.coverageOf subject) := by
  let key : CoverageRow → Int := fun row => row.rowid
  let keep : CoverageRow → Bool := fun row =>
    row.testId = subject || row.path = subject || row.symbol = subject
  have differ : KeysDiffer key s.coverage keep := by
    refine (List.pairwise_map.mp keyed.rowids).imp fun different _ _ same => different ?_
    exact Int.ofNat.inj same
  have decoded : ∀ row ∈ s.coverage, parseI64 (toString row.rowid) = some (key row) :=
    fun row member => parseI64_toString (keyed.integers row member).2
  have visited := limitedPage_visits parseI64 (0 : Int) (fun row : CoverageRow => toString row.rowid)
    CoverageRow.record positive addressable differ decoded
  have rows : ∀ after, s.coverageRows subject after = rowsAfter key s.coverage keep after := by
    intro after
    simp [coverageRows, rowsAfter, key, keep]
  have start : (rowsFrom key s.coverage keep parseI64 0 none).map CoverageRow.record =
      s.coverageOf subject := by
    have all : (s.coverage.filter fun row => (0 : Int) < key row && keep row) = s.coverage.filter keep :=
      List.filter_congr fun row member => by simp [key, (keyed.integers row member).1]
    simp only [rowsFrom, rowsAfter, Option.bind_none, Option.getD_none, all, coverageOf]
    simp only [key, keep, Int.ofNat_le]
  rw [start] at visited
  simp only [coveragePage, rows]
  exact visited

end Store

/-- Where the look-ahead is no machine integer, a listing answers nothing else. -/
theorem limitedPage_refused {α β : Type} (rows : List α) (item : α → β) (cursorOf : α → String)
    {limit : Nat} (large : 2 ^ 63 - 1 ≤ limit) :
    Store.limitedPage rows item cursorOf limit = .error (.integerRange (2 ^ 64 - 1)) := by
  have fetch : 2 ^ 63 ≤ min (max limit 1 + 1) usizeMax := by
    unfold usizeMax
    omega
  simp only [Store.limitedPage, fetch, if_true]

theorem eventPage_refused {Payload : Type} (s : Store Payload) (runId : String) (cursor : Option String)
    {limit : Nat} (large : 2 ^ 63 - 1 ≤ limit) (maxBytes : Nat) :
    s.eventPage runId cursor limit maxBytes = .error (.integerRange (2 ^ 64 - 1)) := by
  have fetch : 2 ^ 63 ≤ max (min (limit + 1) usizeMax) 1 := by
    unfold usizeMax
    omega
  simp only [Store.eventPage, Store.eventsFrom, Store.eventsMatching, fetch, if_true]

/-- A page limit that leaves room for the look-ahead in a machine integer: every run, the
tests and every coverage subject are walked from the start to the end, each row once and
in key order, and no page is empty while there is something to list. Any larger limit is
refused by the three listings. -/
theorem store_walks_complete {Payload : Type} {s : Store Payload} (keyed : s.Keyed)
    (named : ∀ row ∈ s.tests, row.id ≠ "") {limit : Nat} (positive : 1 ≤ limit) (maxBytes : Nat) :
    (limit < 2 ^ 63 - 1 →
      (∀ runId, Visits (fun cursor =>
        (s.eventPage runId cursor limit maxBytes).map Store.eventAnswer) (s.eventsOf runId)) ∧
      Visits (fun cursor => (s.testPage cursor limit).map Store.itemAnswer) s.listedTests ∧
      ∀ subject, Visits (fun cursor => (s.coveragePage subject cursor limit).map Store.itemAnswer)
        (s.coverageOf subject)) ∧
    (2 ^ 63 - 1 ≤ limit →
      (∀ runId cursor, s.eventPage runId cursor limit maxBytes = .error (.integerRange (2 ^ 64 - 1))) ∧
      (∀ cursor, s.testPage cursor limit = .error (.integerRange (2 ^ 64 - 1))) ∧
      ∀ subject cursor, s.coveragePage subject cursor limit = .error (.integerRange (2 ^ 64 - 1))) := by
  constructor
  · intro addressable
    refine ⟨fun runId => ?_, keyed.tests_visited named positive addressable,
      fun subject => keyed.coverage_visited subject positive addressable⟩
    have rows : s.eventRows runId none (-1) =
        (s.events.filter fun row => row.runId = runId).mergeSort fun a b => a.sequence ≤ b.sequence := by
      have all : ∀ row : EventRow, (-1 : Int) < row.sequence := fun row => by omega
      simp [Store.eventRows, all]
    have visited := keyed.events_visited runId none positive addressable maxBytes
    rw [rows] at visited
    exact visited
  · intro large
    exact ⟨fun runId cursor => eventPage_refused s runId cursor large maxBytes,
      fun _ => limitedPage_refused _ _ _ large, fun _ _ => limitedPage_refused _ _ _ large⟩

section Sample

def listedEvent (sequence : Nat) : Event where
  id := "evt-" ++ toString sequence
  sequence := sequence
  threadId := 1
  threadKey := "platform:main"
  virtualThread := false
  coroutine := false
  logicalStack := []
  kind := .line
  location := none
  values := .null
  observations := .null
  stateHash := ""
  outputIndex := 0

/-- A run with two events, two tests, and two points that one of them covers. -/
def listedStore : Store Unit where
  runs := [⟨"run-1", "rev-1", "", .passed, "2026-01-01T00:00:00+00:00", none⟩]
  tests := [⟨"b", "b", ":", some "passed"⟩, ⟨"a", "a", ":", none⟩]
  dependencies := []
  events := [⟨"evt-3", "run-1", "a", 3, ⟨listedEvent 3, 300, 90⟩⟩,
    ⟨"evt-0", "run-1", "a", 0, ⟨listedEvent 0, 300, 90⟩⟩]
  failures := []
  coverage := [⟨1, "a", "A.java", 7, "A.f"⟩, ⟨4, "a", "A.java", 9, "A.f"⟩]
  recordings := []
  verificationCache := []
  revisionManifests := []

theorem listedStore_keyed : listedStore.Keyed where
  sequences := by decide
  stored := by decide
  testIds := by decide
  rowids := by decide
  integers := by decide

theorem store_walks_complete_demo :
    Visits (fun cursor => (listedStore.eventPage "run-1" cursor 1 0).map Store.eventAnswer)
        (listedStore.eventsOf "run-1") ∧
      listedStore.testPage none (2 ^ 63 - 1) = .error (.integerRange (2 ^ 64 - 1)) :=
  ⟨((store_walks_complete listedStore_keyed (by decide) (Nat.le_refl 1) 0).1 (by decide)).1 "run-1",
    ((@store_walks_complete Unit listedStore listedStore_keyed (by decide) (2 ^ 63 - 1) (by decide) 0).2
      (Nat.le_refl _)).2.1 none⟩

/-- A limit whose look-ahead is no machine integer is refused. -/
theorem limit_refused : ¬ Visits
    (fun cursor => (listedStore.eventPage "run-1" cursor (2 ^ 63 - 1) 65536).map Store.eventAnswer)
    (listedStore.eventsOf "run-1") := by
  rintro ⟨fuel, pages, walked, -⟩
  have refused : listedStore.eventPage "run-1" none (2 ^ 63 - 1) 65536 =
      .error (.integerRange (2 ^ 64 - 1)) := by rfl
  cases fuel with
  | zero => cases walked
  | succ fuel =>
    simp only [walk, refused, Except.map] at walked
    cases walked

end Sample

end Walaru
