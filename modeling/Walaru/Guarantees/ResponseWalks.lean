import Walaru.Guarantees.ResponseBound
import Walaru.Guarantees.StorePaging

/-!
# Walking a listing over the daemon

The store cuts a page by its own measure; the daemon projects it, puts an envelope around
it and replaces what is then too long by an answer without a page. A walk over the daemon
is one over the store exactly while every page of the store fits its envelope.
-/
namespace Walaru
open Json Lib.PageWalk

/-- The events of a subject: those of a run, or of a test in its last run. -/
def Store.traced {Payload : Type} (s : Store Payload) (subject : String) : List Event :=
  if s.hasRun subject then (s.eventRows subject none (-1)).map fun row => row.payload.content
  else
    match s.latestRunOf subject with
    | some runId => (s.eventRows runId (some subject) (-1)).map fun row => row.payload.content
    | none => []

/-- Every item of a listing, in order. -/
def PagedCommand.items (s : EvidenceStore) : PagedCommand → List Json
  | .tests => s.listedTests.map TestRecord.json
  | .coverage subject => (s.coverageOf subject).map CoverageRecord.json
  | .trace subject => (s.traced subject).map Event.json

/-- The items that the cursors of the store reach: a test without a name is not among
them. -/
def PagedCommand.reached (s : EvidenceStore) : PagedCommand → List Json
  | .tests => ((s.testRows "").map s.testRecord).map TestRecord.json
  | command => command.items s

theorem reached_tests_length {s : EvidenceStore}
    (all : (PagedCommand.reached s .tests).length = (PagedCommand.items s .tests).length) :
    ∀ row ∈ s.tests, row.id ≠ "" := by
  simp only [PagedCommand.reached, PagedCommand.items, Store.testRows, Store.listedTests,
    List.length_map, List.length_mergeSort, List.length_filter_eq_length_iff] at all
  intro row member nameless
  have behind := all row member
  rw [nameless] at behind
  exact lt_irrefl _ (of_decide_eq_true behind)

theorem reached_eq_items {s : EvidenceStore} {command : PagedCommand}
    (named : command = .tests → ∀ row ∈ s.tests, row.id ≠ "") :
    command.reached s = command.items s := by
  cases command with
  | tests => rw [PagedCommand.reached, Store.testRows_named (named rfl), PagedCommand.items, Store.listedTests]
  | coverage subject => rfl
  | trace subject => rfl

/-- The pages of the store, over the cursors. -/
def storePages (s : EvidenceStore) (query : QueryOptions) (command : PagedCommand)
    (cursor : Option String) : Except StoreError (List Json × Option String) :=
  storePage s query cursor command

theorem trace_visits {s : EvidenceStore} (keyed : s.Keyed) (subject : String) {limit : Nat}
    (positive : 1 ≤ limit) (addressable : limit < 2 ^ 63 - 1) (maxBytes : Nat) :
    Visits (fun cursor => (s.trace subject cursor limit maxBytes).map Store.eventAnswer)
      (s.traced subject) := by
  unfold Store.trace Store.traced
  split
  · exact keyed.events_visited subject none positive addressable maxBytes
  · cases s.latestRunOf subject with
    | some runId => exact keyed.events_visited runId (some subject) positive addressable maxBytes
    | none => exact ⟨1, [[]], rfl, rfl, fun some_ => absurd rfl some_⟩

theorem storePages_visits {s : EvidenceStore} (keyed : s.Keyed) {query : QueryOptions}
    (positive : 1 ≤ query.limit) (small : query.limit ≤ 1000) (command : PagedCommand) :
    Visits (storePages s query command) (command.reached s) := by
  have addressable : query.limit < 2 ^ 63 - 1 := by omega
  have mapped : ∀ {α β γ : Type} (f : α → β) (g : β → γ) (x : Except StoreError α),
      (x.map f).map g = x.map fun a => g (f a) := by
    intro α β γ f g x
    cases x <;> rfl
  cases command with
  | tests =>
    have visited := (keyed.testRows_visited positive addressable).map TestRecord.json
    simp only [mapped] at visited
    exact visited
  | coverage subject =>
    have visited := (keyed.coverage_visited subject positive addressable).map CoverageRecord.json
    simp only [mapped] at visited
    exact visited
  | trace subject =>
    have visited := (trace_visits keyed subject positive addressable
      (if query.fields.isEmpty then query.maxBytes else usizeMax)).map Event.json
    simp only [mapped] at visited
    exact visited

/-- The envelope around the projected page. -/
def sentPage (origin : ResponseOrigin) (query : QueryOptions) (command : PagedCommand)
    (cursor : Option String) (page : List Json × Option String) : Envelope :=
  let whole := pageEnvelope origin query command cursor page
  { whole with data := applyFieldMask query.fields whole.data }

/-- The answers of the daemon, each with the cursor that it gives. -/
def responses (floats : FloatWriter) (origin : ResponseOrigin) (s : EvidenceStore)
    (request : QueryOptions) (command : PagedCommand) (cursor : Option String) :
    Except StoreError (List (Nat × Envelope) × Option String) :=
  (respondPage floats origin s { request with cursor := cursor } command).map fun answer =>
    ([answer], answer.2.page.bind Page.nextCursor)

variable {floats : FloatWriter} {origin : ResponseOrigin} {s : EvidenceStore} {request : QueryOptions}
  {command : PagedCommand}

theorem respondPage_eq (cursor : Option String) :
    respondPage floats origin s { request with cursor := cursor } command =
      (storePages s request.bounded command cursor).map fun page =>
        finishResponse floats request.bounded 0
          (pageEnvelope origin request.bounded command cursor page) := by
  cases command <;> rfl

theorem finishResponse_page (query : QueryOptions) (cursor : Option String)
    (page : List Json × Option String) :
    finishResponse floats query 0 (pageEnvelope origin query command cursor page) =
      if (sentPage origin query command cursor page).bytes floats ≤ query.maxBytes then
        (0, sentPage origin query command cursor page)
      else (4, (sentPage origin query command cursor page).truncated
        ((sentPage origin query command cursor page).bytes floats) query.maxBytes) := by
  change (if (enforceResponseLimit floats (sentPage origin query command cursor page)
      query.maxBytes).2 then 4 else 0,
    (enforceResponseLimit floats (sentPage origin query command cursor page) query.maxBytes).1) = _
  unfold enforceResponseLimit
  split <;> rfl

/-- The page fits its envelope. -/
abbrev Fitting (floats : FloatWriter) (origin : ResponseOrigin) (query : QueryOptions)
    (command : PagedCommand) (cursor : Option String) (page : List Json × Option String) : Prop :=
  (sentPage origin query command cursor page).bytes floats ≤ query.maxBytes

theorem responses_guarded (floats : FloatWriter) (origin : ResponseOrigin) (s : EvidenceStore)
    (request : QueryOptions) (command : PagedCommand) :
    responses floats origin s request command =
      guarded (Fitting floats origin request.bounded command)
        (fun cursor page => (0, sentPage origin request.bounded command cursor page))
        (fun cursor page => (4, (sentPage origin request.bounded command cursor page).truncated
          ((sentPage origin request.bounded command cursor page).bytes floats) request.bounded.maxBytes))
        (storePages s request.bounded command) := by
  funext cursor
  unfold responses guarded
  rw [respondPage_eq]
  cases storePages s request.bounded command cursor with
  | error e => rfl
  | ok page =>
    simp only [Except.map, finishResponse_page]
    split <;> rfl

/-- One answer that holds these items, whole and projected. -/
def Delivered (fields : List String) (command : PagedCommand) (part : List Json)
    (answers : List (Nat × Envelope)) : Prop :=
  ∃ envelope page, answers = [(0, envelope)] ∧ envelope.status = .ok ∧ envelope.page = some page ∧
    page.returned = part.length ∧
    envelope.data = applyFieldMask fields (.ofMembers [(command.name, .array part)])

/-- Following the cursors from the first page ends, and the answers hold every item once
and in order; none of them is a reduced one. -/
def WalkDelivers (floats : FloatWriter) (origin : ResponseOrigin) (s : EvidenceStore)
    (request : QueryOptions) (command : PagedCommand) : Prop :=
  ∃ fuel answers parts, walk (responses floats origin s request command) fuel none = some answers ∧
    parts.flatten = command.items s ∧ List.Forall₂ (Delivered request.fields command) parts answers

/-- Every page that the store cuts on its walk fits its envelope, and every test has a
name that a cursor reaches. -/
def PagesFit (floats : FloatWriter) (origin : ResponseOrigin) (s : EvidenceStore)
    (request : QueryOptions) (command : PagedCommand) : Prop :=
  (command = .tests → ∀ row ∈ s.tests, row.id ≠ "") ∧
    ∀ cursor page, OnWalk (storePages s request.bounded command) none cursor page →
      (sentPage origin request.bounded command cursor page).bytes floats ≤ request.bounded.maxBytes

theorem sentPage_delivered (cursor : Option String) (page : List Json × Option String) :
    Delivered request.fields command page.1 [(0, sentPage origin request.bounded command cursor page)] :=
  ⟨_, _, rfl, rfl, rfl, rfl, rfl⟩

theorem Delivered.count {fields : List String} {part items : List Json} {answers : List (Nat × Envelope)}
    {cursor : Option String} {page : List Json × Option String}
    (delivered : Delivered fields command part answers) (held : page.1 = items)
    (sent : answers = [(0, sentPage origin request.bounded command cursor page)]) :
    part.length = items.length := by
  obtain ⟨envelope, shown, same, -, paged, count, -⟩ := delivered
  rw [sent] at same
  cases same
  cases paged
  rw [← count, ← held]

theorem flatten_length_eq {parts pages : List (List Json)} {answers : List (List (Nat × Envelope))}
    {R Q : List Json → List (Nat × Envelope) → Prop} (delivered : List.Forall₂ R parts answers)
    (cut : List.Forall₂ Q pages answers)
    (count : ∀ part items answer, R part answer → Q items answer → part.length = items.length) :
    parts.flatten.length = pages.flatten.length := by
  induction delivered generalizing pages with
  | nil =>
    cases cut
    rfl
  | cons first _ ih =>
    cases cut with
    | cons same rest =>
      rw [List.flatten_cons, List.flatten_cons, List.length_append, List.length_append, ih rest,
        count _ _ _ first same]

theorem unreduced_of_delivered {fields : List String} {parts : List (List Json)}
    {answers : List (List (Nat × Envelope))}
    (delivered : List.Forall₂ (Delivered fields command) parts answers) :
    ∀ answer ∈ answers, ∀ envelope, answer ≠ [(4, envelope)] := by
  induction delivered with
  | nil => simp
  | cons first _ ih =>
    intro answer member envelope
    rcases List.mem_cons.mp member with rfl | later
    · obtain ⟨whole, page, rfl, -⟩ := first
      simp
    · exact ih answer later envelope

/-- A walk that delivers the listing met no page that does not fit. -/
theorem WalkDelivers.fits (delivers : WalkDelivers floats origin s request command) :
    ∀ cursor page, OnWalk (storePages s request.bounded command) none cursor page →
      Fitting floats origin request.bounded command cursor page := by
  obtain ⟨fuel, answers, parts, followed, -, delivered⟩ := delivers
  rw [responses_guarded] at followed
  exact (guarded_fits followed fun answer member cursor page =>
    unreduced_of_delivered delivered answer member _).1

/-- A walk over the daemon delivers the listing exactly when every page that the store
cuts fits, projected and with its envelope, in the byte limit. -/
theorem walk_delivers_iff (floats : FloatWriter) (origin : ResponseOrigin) {s : EvidenceStore}
    (keyed : s.Keyed) (request : QueryOptions) (command : PagedCommand) :
    WalkDelivers floats origin s request command ↔ PagesFit floats origin s request command := by
  have positive : 1 ≤ request.bounded.limit := by
    simp only [QueryOptions.bounded]
    omega
  have small : request.bounded.limit ≤ 1000 := by
    simp only [QueryOptions.bounded]
    omega
  obtain ⟨fuel, pages, walked, whole, -⟩ := storePages_visits keyed positive small command
  constructor
  · intro delivers
    have fits := delivers.fits
    refine ⟨?_, fits⟩
    -- Every page of the store was delivered, so a test that no page lists would be missing.
    rintro rfl
    obtain ⟨more, answers, parts, followed, listed, delivered⟩ := delivers
    rw [responses_guarded] at followed
    obtain ⟨others, again, same⟩ := guarded_walk walked fits
    rw [walk_unique again followed] at same
    have lengths := flatten_length_eq delivered same fun part items answer here there => by
      obtain ⟨cursor, page, held, sent⟩ := there
      exact here.count held sent
    rw [listed, whole] at lengths
    exact reached_tests_length lengths.symm
  · rintro ⟨named, fits⟩
    obtain ⟨answers, followed, same⟩ := guarded_walk walked fits
    refine ⟨fuel, answers, pages, ?_, whole.trans (reached_eq_items named), ?_⟩
    · rw [responses_guarded]
      exact followed
    · refine same.imp ?_
      rintro items answer ⟨cursor, page, rfl, rfl⟩
      exact sentPage_delivered cursor page

theorem sentPage_bytes (query : QueryOptions) (cursor : Option String)
    (page : List Json × Option String) :
    (sentPage origin query command cursor page).bytes floats =
      727 + quotedBytes origin.workspaceId + quotedBytes origin.revision + quotedBytes origin.sessionId +
        byteSize floats (applyFieldMask query.fields (.ofMembers [(command.name, .array page.1)])) +
        cursor.elim 4 quotedBytes + page.2.elim 4 quotedBytes + decimalBytes query.limit +
        decimalBytes page.1.length := by
  have texts : quotedBytes schemaVersion = 3 ∧ quotedBytes "ok" = 4 ∧ quotedBytes "cursor" = 8 ∧
      quotedBytes "nextCursor" = 12 ∧ quotedBytes "limit" = 7 ∧ quotedBytes "returned" = 10 := by decide
  rw [Envelope.bytes_eq]
  simp only [sentPage, pageEnvelope, ResponseOrigin.envelope, List.map_nil, byteSize_array, Page.json,
    ofOption, Option.elim_none, Option.elim_some, byteSize_object, List.map_cons, memberBytes,
    byteSize_ofNat, separatedBytes, List.sum_cons, List.sum_nil, List.length_cons, List.length_nil,
    Status.text, jvmReplayCapabilities_keptBytes, texts]
  have texts_ := byteSize_ofOption floats
  simp only [ofOption] at texts_
  simp only [texts_]
  omega

theorem CoverageRecord.byteSize_json (c : CoverageRecord) :
    byteSize floats c.json = 37 + decimalBytes c.line + quotedBytes c.path + quotedBytes c.symbol +
      quotedBytes c.testId := by
  have names : quotedBytes "line" = 6 ∧ quotedBytes "path" = 6 ∧ quotedBytes "symbol" = 8 ∧
      quotedBytes "testId" = 8 := by decide
  have order : compare "path" "testId" = .lt ∧ compare "line" "path" = .lt ∧
      compare "symbol" "line" = .gt ∧ compare "symbol" "path" = .gt ∧
      compare "symbol" "testId" = .lt := by decide
  simp only [CoverageRecord.json, ofMembers, List.foldl_cons, List.foldl_nil, insertField, order,
    byteSize_object, List.map_cons, List.map_nil, memberBytes, byteSize_ofNat, byteSize_string,
    separatedBytes, List.sum_cons, List.sum_nil, List.length_cons, List.length_nil, names]
  omega

def longTest : String := String.ofList (List.replicate 1800 'x')

def crowdedLine (rowid : Nat) : Nat := if rowid = 1 then 7 else 8

def crowdedRow (rowid : Nat) : CoverageRow :=
  ⟨rowid, longTest, "App.java", crowdedLine rowid, "demo.App#run"⟩

/-- Two lines of one file that the same test covers. -/
def crowdedStore : EvidenceStore :=
  { Store.empty with
    tests := [⟨longTest, longTest, ":", some "passed"⟩]
    coverage := [crowdedRow 1, crowdedRow 2] }

theorem longTest_ne : longTest ≠ "" := by
  intro same
  have size := quotedBytes_replicate 1800 'x'
  change quotedBytes longTest = _ at size
  rw [same] at size
  exact absurd size (by decide)

theorem crowdedStore_named : ∀ row ∈ crowdedStore.tests, row.id ≠ "" := by
  have tests : crowdedStore.tests = [⟨longTest, longTest, ":", some "passed"⟩] := rfl
  rw [tests, List.forall_mem_singleton]
  exact longTest_ne

theorem crowdedStore_keyed : crowdedStore.Keyed where
  sequences := .nil
  stored := by simp [crowdedStore, Store.empty]
  testIds := List.nodup_singleton _
  rowids := by simp [crowdedStore, crowdedRow]
  integers := by simp [crowdedStore, crowdedRow]

theorem crowded_rows (after : Int) (rows : List Nat)
    (behind : ([1, 2] : List Nat).filter (fun n : Nat => decide (after < (n : Int))) = rows) :
    crowdedStore.coverageRows "App.java" after = rows.map crowdedRow := by
  have kept : (crowdedStore.coverage.filter fun row => decide (after < (row.rowid : Int)) &&
      (row.testId = "App.java" || row.path = "App.java" || row.symbol = "App.java")) =
      rows.map crowdedRow := by
    rw [← behind, show crowdedStore.coverage = [1, 2].map crowdedRow from rfl, List.filter_map]
    refine congrArg _ (List.filter_congr fun n _ => ?_)
    have listed : (crowdedRow n).path = "App.java" := rfl
    simp only [Function.comp_apply, listed, decide_true, Bool.or_true, Bool.true_or, Bool.and_true]
    rfl
  have sorted : (rows.map crowdedRow).Pairwise fun a b => decide (a.rowid ≤ b.rowid) = true := by
    rw [← behind, List.pairwise_map]
    exact List.Pairwise.sublist List.filter_sublist (by decide)
  rw [Store.coverageRows, kept]
  exact List.mergeSort_of_pairwise sorted

def crowdedItem (rowid : Nat) : Json := (crowdedRow rowid).record.json

/-- The page of both points. -/
theorem crowded_page (query : QueryOptions) (room : query.limit = 100) :
    storePages crowdedStore query (.coverage "App.java") none =
      .ok ([crowdedItem 1, crowdedItem 2], none) := by
  have rows := crowded_rows 0 [1, 2] (by decide)
  simp only [storePages, storePage, Store.coveragePage, Option.bind_none, Option.getD_none, rows, room]
  rfl

theorem crowded_pages (query : QueryOptions) (single : query.limit = 1) :
    storePages crowdedStore query (.coverage "App.java") none = .ok ([crowdedItem 1], some "1") ∧
    storePages crowdedStore query (.coverage "App.java") (some "1") = .ok ([crowdedItem 2], none) := by
  have first := crowded_rows 0 [1, 2] (by decide)
  have second := crowded_rows 1 [2] (by decide)
  have decoded : ((some "1").bind parseI64).getD 0 = 1 := by decide
  constructor
  · simp only [storePages, storePage, Store.coveragePage, Option.bind_none, Option.getD_none, first, single]
    rfl
  · simp only [storePages, storePage, Store.coveragePage, decoded, second, single]
    rfl

def crowdedOrigin : ResponseOrigin := ⟨"ws-1", "session-1", "rev-1"⟩

def crowdedRequest : QueryOptions := { QueryOptions.default with maxBytes := 4096 }

theorem crowdedItem_bytes (rowid : Nat) : byteSize floats (crowdedItem rowid) = 1864 := by
  have line : decimalBytes (crowdedLine rowid) = 1 := by
    unfold crowdedLine
    split <;> decide
  have texts : quotedBytes "App.java" = 10 ∧ quotedBytes "demo.App#run" = 14 := by decide
  have long : quotedBytes longTest = 1802 := quotedBytes_replicate 1800 'x'
  have shown : (crowdedRow rowid).record =
      ⟨longTest, "App.java", crowdedLine rowid, "demo.App#run"⟩ := by
    unfold CoverageRow.record crowdedRow crowdedLine
    split <;> rfl
  rw [crowdedItem, shown, CoverageRecord.byteSize_json]
  simp only [line, texts, long]

theorem crowdedPage_bytes (query : QueryOptions) (plain : query.fields = []) (cursor next : Option String)
    (items : List Json) (sizes : ∀ item ∈ items, byteSize floats item = 1864) :
    (sentPage crowdedOrigin query (.coverage "App.java") cursor (items, next)).bytes floats =
      766 + (items.length * 1864 + (items.length - 1)) + cursor.elim 4 quotedBytes +
        next.elim 4 quotedBytes + decimalBytes query.limit + decimalBytes items.length := by
  have names : quotedBytes crowdedOrigin.workspaceId = 6 ∧ quotedBytes crowdedOrigin.revision = 7 ∧
      quotedBytes crowdedOrigin.sessionId = 11 ∧ quotedBytes "coverage" = 10 := by decide
  have all : items.map (byteSize floats) = List.replicate items.length 1864 := by
    rw [List.eq_replicate_iff]
    exact ⟨List.length_map .., by simpa using sizes⟩
  rw [sentPage_bytes]
  simp only [applyFieldMask, plain, List.isEmpty_nil, if_true, ofMembers, List.foldl_cons, List.foldl_nil,
    insertField, byteSize_object, List.map_cons, List.map_nil, memberBytes, byteSize_array, all,
    PagedCommand.name, separatedBytes, List.sum_cons, List.sum_nil, List.length_cons, List.length_nil,
    List.sum_replicate_nat, List.length_replicate, names]
  omega

/-- On pages of one item each, both points fit. -/
theorem crowded_alone (cursor : Option String) (page : List Json × Option String)
    (on : OnWalk (storePages crowdedStore { crowdedRequest with limit := 1 } (.coverage "App.java"))
      none cursor page) :
    Fitting floats crowdedOrigin { crowdedRequest with limit := 1 } (.coverage "App.java") cursor page := by
  have sizes : ∀ n, byteSize floats (crowdedItem n) = 1864 := fun n => crowdedItem_bytes n
  obtain ⟨first, second⟩ := crowded_pages { crowdedRequest with limit := 1 } rfl
  cases on with
  | here answer =>
    rw [first] at answer
    cases answer
    rw [Fitting, crowdedPage_bytes _ rfl _ _ _ (by simp [sizes])]
    decide
  | later answer rest =>
    rw [first] at answer
    cases answer
    cases rest with
    | here answer =>
      rw [second] at answer
      cases answer
      rw [Fitting, crowdedPage_bytes _ rfl _ _ _ (by simp [sizes])]
      decide
    | later answer rest =>
      rw [second] at answer
      cases answer

/-- One point a page: the walk delivers both. -/
theorem walk_delivers_iff_demo :
    WalkDelivers (fun _ => "0.0") crowdedOrigin crowdedStore { crowdedRequest with limit := 1 }
      (.coverage "App.java") :=
  (walk_delivers_iff _ _ crowdedStore_keyed _ _).mpr ⟨nofun, crowded_alone⟩

/-- Both points fit alone, but their page does not: the walk ends at an answer without
data and without a cursor. -/
theorem crowded_page_lost :
    ¬ ∀ (floats : FloatWriter) (origin : ResponseOrigin) (s : EvidenceStore) (request : QueryOptions)
      (command : PagedCommand), s.Keyed → (∀ row ∈ s.tests, row.id ≠ "") →
      -- Each item fits on a page of its own.
      (∀ cursor page, OnWalk (storePages s { request.bounded with limit := 1 } command) none cursor page →
        Fitting floats origin { request.bounded with limit := 1 } command cursor page) →
      WalkDelivers floats origin s request command := by
  intro claim
  have fits := (claim (fun _ => "0.0") crowdedOrigin crowdedStore crowdedRequest (.coverage "App.java")
    crowdedStore_keyed crowdedStore_named crowded_alone).fits none _
    (.here (crowded_page crowdedRequest.bounded rfl))
  have sizes : ∀ n, byteSize (fun _ => "0.0") (crowdedItem n) = 1864 := fun n => crowdedItem_bytes n
  rw [Fitting, crowdedPage_bytes _ rfl _ _ _ (by simp [sizes])] at fits
  revert fits
  decide

end Walaru
