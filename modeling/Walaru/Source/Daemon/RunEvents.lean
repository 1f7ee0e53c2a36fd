import Walaru.Source.Daemon.History

/-!
# Reading a run's events back

What a recording and a replay see of their run: the rows that ingestion wrote, if
retention left the run in the store, cut to one bounded page.
-/
namespace Walaru
open Lib.StateResult

/-- The rows that ingestion writes for the stream of a run. -/
def runRows (env : VerifierEnv) (revision : String) : List EventRow :=
  eventRows (env.ingestContext revision) 0 env.eventFile.raws

def rowSize (row : EventRow) : Nat := row.payload.jsonLength

/-- The rows of the page that `record_with_options` and `verify_replay_event` read. -/
def pageRows (rows : List EventRow) : List EventRow :=
  (Lib.BoundedPage.fill usizeMax rowSize recordingPageLimit recordingPageBytes 0 0 rows).1

/-- One page holds the rows. -/
def FitsPage (rows : List EventRow) : Prop :=
  Lib.BoundedPage.Fits rowSize recordingPageLimit recordingPageBytes rows

theorem recordingPageBytes_lt : recordingPageBytes < usizeMax := by decide

theorem pageRows_begins (rows : List EventRow) : pageRows rows <+: rows :=
  Lib.BoundedPage.fill_begins _ _ _ _ 0 0 rows

theorem lt_pageRows_length_iff {rows : List EventRow} {j : Nat} (inside : j < rows.length) :
    j < (pageRows rows).length ↔ FitsPage (rows.take (j + 1)) :=
  Lib.BoundedPage.lt_fill_length_iff _ _ _ _ recordingPageBytes_lt inside

theorem eventRows_getElem? (ctx : IngestContext) (n i : Nat) (raws : List Json) :
    (eventRows ctx n raws)[i]? = (raws[i]?).map (eventRow ctx (n + i)) := by
  induction raws generalizing n i with
  | nil => simp [eventRows]
  | cons raw rest ih =>
    cases i with
    | zero => simp [eventRows]
    | succ i =>
      simp only [eventRows, List.getElem?_cons_succ, ih]
      rw [show n + 1 + i = n + (i + 1) by omega]

theorem eventRows_length (ctx : IngestContext) (n : Nat) (raws : List Json) :
    (eventRows ctx n raws).length = raws.length := by
  induction raws generalizing n with
  | nil => rfl
  | cons raw rest ih => simp [eventRows, ih]

theorem sequence_of_mem_eventRows {ctx : IngestContext} {n : Nat} {raws : List Json}
    {row : EventRow} (member : row ∈ eventRows ctx n raws) : n ≤ row.sequence := by
  obtain ⟨i, place⟩ := List.getElem?_of_mem member
  rw [eventRows_getElem?] at place
  obtain ⟨raw, -, rfl⟩ := Option.map_eq_some_iff.mp place
  exact Nat.le_add_right n i

/-- A row of a stream is the row of the event at its sequence number. -/
theorem eventRow_of_mem {ctx : IngestContext} {raws : List Json} {row : EventRow}
    (member : row ∈ eventRows ctx 0 raws) :
    ∃ raw, raws[row.sequence]? = some raw ∧ row = eventRow ctx row.sequence raw := by
  obtain ⟨i, place⟩ := List.getElem?_of_mem member
  rw [eventRows_getElem?] at place
  obtain ⟨raw, found, rfl⟩ := Option.map_eq_some_iff.mp place
  rw [Nat.zero_add] at *
  exact ⟨raw, found, rfl⟩

theorem appendEvent_ok {ctx : IngestContext} {n : Nat} {raw : Json} {s : EvidenceStore}
    (bound : n < 2 ^ 63) (known : s.hasRun ctx.runId)
    (fresh : ∀ old ∈ s.events, old.eventId ≠ (eventRow ctx n raw).eventId ∧ old.sequence ≠ n) :
    s.appendEvent ctx.runId (publicTestId raw) (eventBlob ctx.platform (publicEvent ctx n raw)) =
      .ok { s with events := s.events ++ [eventRow ctx n raw] } := by
  have clash : ¬ (s.events.any fun old => old.eventId = (publicEvent ctx n raw).id ||
      (old.runId = ctx.runId && old.sequence = n)) = true := by
    simp only [List.any_eq_true, Bool.or_eq_true, decide_eq_true_eq, Bool.and_eq_true, not_exists,
      not_and, not_or]
    exact fun old member => ⟨(fresh old member).1, fun _ => (fresh old member).2⟩
  have inside : ¬ 2 ^ 63 ≤ n := by omega
  unfold Store.appendEvent
  exact (if_neg inside).trans ((if_neg clash).trans (if_neg (by simp [known])))

theorem eventRows_sorted (ctx : IngestContext) (n : Nat) (raws : List Json) :
    (eventRows ctx n raws).Pairwise fun a b => (decide (a.sequence ≤ b.sequence)) = true := by
  induction raws generalizing n with
  | nil => exact .nil
  | cons raw rest ih =>
    refine .cons (fun row member => ?_) (ih (n + 1))
    have later := sequence_of_mem_eventRows member
    exact decide_eq_true (show n ≤ row.sequence by omega)

/-- The rows of a store that belong to a run. -/
def rowsOf (s : EvidenceStore) (runId : String) : List EventRow :=
  s.events.filter fun row => row.runId = runId

theorem rowsOf_unknown {s : EvidenceStore} (owned : EventsOwned s) {runId : String}
    (unknown : s.hasRun runId = false) : rowsOf s runId = [] := by
  rw [rowsOf, List.filter_eq_nil_iff]
  intro row member same
  have known := owned row member
  rw [of_decide_eq_true same, unknown] at known
  cases known

/-- After a finished run its rows are exactly those of its stream, unless the final
prune removed the run. -/
theorem rowsOf_finished {history : List Operation} {env : VerifierEnv}
    {request : VerificationRequest} {replay : Option Recording} {outcome : VerificationOutcome}
    {t : EvidenceStore} (returned : verifyInternal env request replay (play history) = .ok outcome t)
    (fresh : outcome.cached = false) :
    outcome.runId = env.runId ∧
      rowsOf t env.runId = if t.hasRun env.runId then runRows env outcome.revision else [] := by
  have owned : EventsOwned t := by
    have all := verifyInternal_eventsOwned (play_eventsOwned history) env request replay
    rwa [returned] at all
  have result := verifyInternal_result env request replay (play history)
  rw [returned] at result
  cases result with
  | served idle hit => cases fresh
  | @finished plan run u admitted observed =>
    refine ⟨rfl, ?_⟩
    split
    · rename_i kept
      have same := (Store.pruned_prune _ env.cutoff env.maxBytes).keptEvents env.runId kept
      have before : (finishedStore env request replay.isSome plan run u).events = u.events := by
        unfold finishedStore published
        split <;> rfl
      have none_before := rowsOf_unknown (play_eventsOwned history) admitted.fresh
      rw [rowsOf, same, before, observed.wrote.events, List.filter_append]
      rw [rowsOf] at none_before
      rw [launched, none_before, List.nil_append, List.filter_eq_self.mpr]
      · rfl
      · intro row member
        exact decide_eq_true (runId_of_mem_eventRows member)
    · rename_i gone
      exact rowsOf_unknown owned (by simpa using gone)

/-- A launched run adds only rows of its own event file, and none before it reads it. -/
theorem superviseRun_rows {env : VerifierEnv} {request : VerificationRequest} {replaying : Bool}
    {plan : RunPlan} {s : EvidenceStore}
    {r : EStateM.Result VerifierError EvidenceStore VerificationOutcome}
    (result : SuperviseResult env request replaying plan s r) {row : EventRow}
    (member : row ∈ (storeOf r).events) :
    row ∈ s.events ∨ ReachesEvents env request ∧ ∃ raw,
      env.eventFile.raws[row.sequence]? = some raw ∧
        row = eventRow (env.ingestContext plan.before.revision) row.sequence raw := by
  have appended (raws : List Json) (begins : raws <+: env.eventFile.raws)
      (reaches : ReachesEvents env request)
      (member : row ∈ s.events ++ eventRows (env.ingestContext plan.before.revision) 0 raws) :
      row ∈ s.events ∨ ReachesEvents env request ∧ ∃ raw,
        env.eventFile.raws[row.sequence]? = some raw ∧
          row = eventRow (env.ingestContext plan.before.revision) row.sequence raw := by
    rcases List.mem_append.mp member with old | new
    · exact .inl old
    · obtain ⟨raw, found, same⟩ := eventRow_of_mem new
      obtain ⟨inside, at_⟩ := List.getElem?_eq_some_iff.mp found
      refine .inr ⟨reaches, raw, ?_, same⟩
      rw [← at_, begins.getElem inside]
      exact List.getElem?_eq_getElem (Nat.lt_of_lt_of_le inside begins.length_le)
  cases result with
  | @abandoned e t stopped =>
    have kept : row ∈ t.events := by
      rcases abandonRun_cases env.runId plan.before.revision env.finishedAt t with
        same | ⟨status, same⟩
      · exact same ▸ member
      · rwa [storeOf, same] at member
    rcases observeRun_error stopped with halted | ⟨⟨exited, found⟩, ran⟩
    · rcases ingestRun_error halted with rfl | ⟨reaches, raws, begins, wrote⟩
      · exact .inl kept
      · exact appended raws begins reaches (wrote.events ▸ kept)
    · obtain ⟨reaches, -, -, wrote⟩ := ingestRun_ok ran
      exact appended _ List.prefix_rfl reaches (wrote.events ▸ kept)
  | @finished run t observed =>
    have kept : row ∈ (finishedStore env request replaying plan run t).events :=
      (Store.pruned_prune _ env.cutoff env.maxBytes).events.subset member
    have same : (finishedStore env request replaying plan run t).events = t.events := by
      unfold finishedStore published
      split <;> rfl
    obtain ⟨reaches, -, -, wrote⟩ := ingestRun_ok observed.ran
    rw [same, wrote.events] at kept
    exact appended _ List.prefix_rfl reaches kept

/-- Reading a run whose rows are those of a stream yields the first page of them. -/
theorem readRun_page {s : EvidenceStore} {runId : String} (ctx : IngestContext) (raws : List Json)
    (rows : rowsOf s runId = eventRows ctx 0 raws) :
    readRun runId s = .ok ((pageRows (rowsOf s runId)).map fun row => row.payload.content) s := by
  have all_rows : s.eventRows runId none (-1) = rowsOf s runId := by
    have selected : (s.events.filter fun row => row.runId = runId &&
        (none.all fun t => row.testId = t) && (-1 : Int) < (row.sequence : Int)) =
          rowsOf s runId := by
      refine List.filter_congr fun row _ => ?_
      simp
      omega
    rw [Store.eventRows, selected, rows]
    exact List.mergeSort_of_pairwise (eventRows_sorted ctx 0 raws)
  have page : (Lib.BoundedPage.fill usizeMax (fun row : EventRow => row.payload.jsonLength)
      recordingPageLimit recordingPageBytes 0 0
        ((rowsOf s runId).take (max (min (recordingPageLimit + 1) usizeMax) 1))).1 =
      pageRows (rowsOf s runId) :=
    Lib.BoundedPage.fill_take _ _ _ _ 0 0 _ _ (by decide)
  have read : ∃ cursor, s.eventsPage runId recordingPageLimit recordingPageBytes =
      .ok ⟨(pageRows (rowsOf s runId)).map fun row => row.payload.content, cursor⟩ := by
    simp only [Store.eventsPage, Store.eventsMatching, all_rows, page]
    exact ⟨_, if_neg (by decide)⟩
  obtain ⟨cursor, read⟩ := read
  refine bind_ok.mpr ⟨⟨_, cursor⟩, s, storing_ok.mpr ?_, rfl⟩
  rw [read]
  rfl

end Walaru
