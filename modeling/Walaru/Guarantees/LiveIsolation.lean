import Walaru.Guarantees.FreshSuccess
import Walaru.Source.Daemon.LiveWorker

/-!
# Evidence isolation between live runs

What a run copies and ingests is exactly what was appended between its launch and
its end. So the evidence of every run is its own worker's exactly when no worker of
another run appends an event in such a window.
-/
namespace Walaru
open Lib.StateResult Lib.Trace

variable {session : String} {runs : String → LiveRun session}

/-- The row is the event of the line at its place in the run's copy, which the
worker of `writer` wrote. -/
def WrittenBy (runs : String → LiveRun session) (s : LiveSession) (writer : String)
    (row : EventRow) : Prop :=
  ∃ raw, (writtenEvents (s.copies row.runId))[row.sequence]? = some (writer, raw) ∧
    row = eventRow (((runs row.runId).envOf row.runId []).ingestContext
      (runs row.runId).plan.before.revision) row.sequence raw

/-- Every event in the file that a run ingests, and every event row stored for a run,
was written by the run's own worker. -/
structure Isolated (runs : String → LiveRun session) (s : LiveSession) : Prop where
  copies : ∀ id writer raw, (writer, .event raw) ∈ s.copies id → writer = id
  rows : ∀ row ∈ s.store.events, row.runId ∈ s.started → WrittenBy runs s row.runId row

/-- Between the launch of a run and its end, if it copies the file, only its own
worker appends events. -/
def QuietWindows (runs : String → LiveRun session) (labels : List LiveLabel) : Prop :=
  ∀ before id window after,
    labels = before ++ .launch id :: (window ++ .finish id :: after) → (runs id).copied = true →
      ∀ writer raw, .append writer (.event raw) ∈ window → writer = id

/-- The file of an active run holds what was appended since its launch. -/
def Windowed (labels : List LiveLabel) (s : LiveSession) : Prop :=
  ∀ id, s.active = some id → ∃ before window,
    labels = before ++ .launch id :: window ∧ s.workerFile = window.filterMap LiveLabel.written

theorem Windowed.step {labels : List LiveLabel} {label : LiveLabel} {s t : LiveSession}
    (windowed : Windowed labels s) (stepped : s.step runs label = some t) :
    Windowed (labels ++ [label]) t := by
  intro id active
  cases label with
  | launch other =>
    obtain ⟨-, -, -, rfl⟩ := step_launch stepped
    cases active
    exact ⟨labels, [], rfl, rfl⟩
  | append writer line =>
    obtain rfl := step_append stepped
    obtain ⟨before, window, rfl, file⟩ := windowed id active
    refine ⟨before, window ++ [.append writer line], by simp, ?_⟩
    simp [file, LiveLabel.written]
  | finish other =>
    obtain ⟨-, rfl⟩ := step_finish stepped
    cases active

/-- Each copied line was appended between the launch and the end of the run. -/
def CopiedFrom (runs : String → LiveRun session) (labels : List LiveLabel) (s : LiveSession) : Prop :=
  ∀ id, ∀ line ∈ s.copies id, ∃ before window after,
    labels = before ++ .launch id :: (window ++ .finish id :: after) ∧ (runs id).copied = true ∧
      line ∈ window.filterMap LiveLabel.written

theorem CopiedFrom.snoc {labels : List LiveLabel} {s : LiveSession} (from_ : CopiedFrom runs labels s)
    (label : LiveLabel) {id : String} {line : WrittenLine} (member : line ∈ s.copies id) :
    ∃ before window after,
      labels ++ [label] = before ++ .launch id :: (window ++ .finish id :: after) ∧
        (runs id).copied = true ∧ line ∈ window.filterMap LiveLabel.written := by
  obtain ⟨before, window, after, rfl, copied, written⟩ := from_ id line member
  exact ⟨before, window, after ++ [label], by simp, copied, written⟩

theorem CopiedFrom.step {labels : List LiveLabel} {label : LiveLabel} {s t : LiveSession}
    (from_ : CopiedFrom runs labels s) (windowed : Windowed labels s)
    (stepped : s.step runs label = some t) : CopiedFrom runs (labels ++ [label]) t := by
  intro id line member
  cases label with
  | launch other =>
    obtain ⟨-, -, -, rfl⟩ := step_launch stepped
    exact from_.snoc _ member
  | append writer written =>
    obtain rfl := step_append stepped
    exact from_.snoc _ member
  | finish other =>
    obtain ⟨active, rfl⟩ := step_finish stepped
    by_cases now : (runs other).copied = true ∧ id = other
    · obtain ⟨copied, rfl⟩ := now
      obtain ⟨before, window, rfl, file⟩ := windowed id active
      refine ⟨before, window, [], by simp, copied, ?_⟩
      simpa [copied, file] using member
    · have old : line ∈ s.copies id := by
        by_cases copied : (runs other).copied = true
        · have different : id ≠ other := fun same => now ⟨copied, same⟩
          simpa [copied, different] using member
        · simpa [copied] using member
      exact from_.snoc _ old

theorem copiedFrom_of_run {store : EvidenceStore} {labels : List LiveLabel} {s : LiveSession}
    (ran : run (LiveSession.step runs) (LiveSession.init store) labels = some s) :
    CopiedFrom runs labels s := by
  have both : Windowed labels s ∧ CopiedFrom runs labels s := by
    refine run_history _ (P := fun labels s => Windowed labels s ∧ CopiedFrom runs labels s) ran
      ⟨fun _ active => (by cases active), fun _ _ member => (by cases member)⟩ ?_
    rintro labels s label t - ⟨windowed, from_⟩ stepped
    exact ⟨windowed.step stepped, from_.step windowed stepped⟩
  exact both.2

/-- A run that was launched is never launched again. -/
theorem stays_inactive {labels : List LiveLabel} {s t : LiveSession} {id : String}
    (ran : run (LiveSession.step runs) s labels = some t) (started : id ∈ s.started)
    (inactive : s.active ≠ some id) :
    t.active ≠ some id ∧ t.copies id = s.copies id := by
  have kept : id ∈ t.started ∧ t.active ≠ some id ∧ t.copies id = s.copies id := by
    refine run_invariant _
      (P := fun u => id ∈ u.started ∧ u.active ≠ some id ∧ u.copies id = s.copies id) ?_ ran
      ⟨started, inactive, rfl⟩
    rintro u label v ⟨started, inactive, same⟩ stepped
    cases label with
    | launch other =>
      obtain ⟨-, fresh, -, rfl⟩ := step_launch stepped
      refine ⟨List.mem_cons_of_mem _ started, ?_, same⟩
      rintro ⟨⟩
      exact fresh started
    | append writer line =>
      obtain rfl := step_append stepped
      exact ⟨started, inactive, same⟩
    | finish other =>
      obtain ⟨active, rfl⟩ := step_finish stepped
      have different : id ≠ other := by
        rintro rfl
        exact inactive active
      refine ⟨started, by simp, ?_⟩
      by_cases copied : (runs other).copied = true
      · simpa [copied, different] using same
      · simpa [copied] using same
  exact kept.2

/-- While a run stays active its file collects what is appended. -/
theorem window_collected {window : List LiveLabel} {s t : LiveSession} {id : String}
    (ran : run (LiveSession.step runs) s window = some t) (started : id ∈ s.started)
    (active : s.active = some id) (still : t.active = some id) : id ∈ t.started ∧
      t.workerFile = s.workerFile ++ window.filterMap LiveLabel.written := by
  induction window generalizing s with
  | nil =>
    cases ran
    exact ⟨started, by simp⟩
  | cons label rest ih =>
    obtain ⟨u, stepped, later⟩ := (run_cons_eq_some _).mp ran
    cases label with
    | launch other =>
      obtain ⟨idle, -⟩ := step_launch stepped
      rw [idle] at active
      cases active
    | append writer line =>
      obtain rfl := step_append stepped
      obtain ⟨kept, collected⟩ := ih later started active
      exact ⟨kept, by simp [collected, LiveLabel.written]⟩
    | finish other =>
      obtain ⟨-, rfl⟩ := step_finish stepped
      exact absurd still (stays_inactive later started (by simp)).1

/-- What is appended in the window of a run that copies the file is in its copy. -/
theorem window_copied {store : EvidenceStore} {before window after : List LiveLabel} {id : String}
    {s : LiveSession}
    (ran : run (LiveSession.step runs) (LiveSession.init store)
      (before ++ .launch id :: (window ++ .finish id :: after)) = some s)
    (copied : (runs id).copied = true) : s.copies id = window.filterMap LiveLabel.written := by
  obtain ⟨u, -, rest⟩ := (run_append_eq_some _).mp ran
  obtain ⟨launched, stepped, rest⟩ := (run_cons_eq_some _).mp rest
  obtain ⟨ended, during, rest⟩ := (run_append_eq_some _).mp rest
  obtain ⟨v, finished, later⟩ := (run_cons_eq_some _).mp rest
  obtain ⟨-, -, -, rfl⟩ := step_launch stepped
  obtain ⟨active, rfl⟩ := step_finish finished
  obtain ⟨started, collected⟩ := window_collected during List.mem_cons_self rfl active
  rw [(stays_inactive later started (by simp)).2]
  simpa [copied] using collected

/-- The rows of a launched run are events of its copy. -/
structure Sourced (runs : String → LiveRun session) (s : LiveSession) : Prop where
  owned : EventsOwned s.store
  opened : ∀ id, s.active = some id → ∃ u : EvidenceStore, EventsOwned u ∧ u.hasRun id = false ∧
    s.store = launched ((runs id).envOf id []) (runs id).plan u
  rows : ∀ row ∈ s.store.events, row.runId ∈ s.started → ∃ writer, WrittenBy runs s writer row

theorem Sourced.launch {s t : LiveSession} {id : String} (sourced : Sourced runs s)
    (stepped : s.step runs (.launch id) = some t) : Sourced runs t := by
  obtain ⟨-, -, fresh, rfl⟩ := step_launch stepped
  refine ⟨sourced.owned.launched _ _, ?_, ?_⟩
  · rintro _ ⟨⟩
    exact ⟨s.store, sourced.owned, fresh, rfl⟩
  · intro row member started
    rcases List.mem_cons.mp started with same | old
    · have known := sourced.owned row member
      rw [same, fresh] at known
      cases known
    · exact sourced.rows row member old

theorem Sourced.finish {s t : LiveSession} {id : String} (sourced : Sourced runs s)
    (stepped : s.step runs (.finish id) = some t) : Sourced runs t := by
  obtain ⟨active, rfl⟩ := step_finish stepped
  obtain ⟨u, owned, fresh, opened⟩ := sourced.opened id active
  have result : SuperviseResult ((runs id).envOf id s.workerFile) (runs id).request false
      (runs id).plan u (superviseRun ((runs id).envOf id s.workerFile) (runs id).request false
        (runs id).plan s.store) := by
    rw [opened]
    exact superviseRun_result _ _ _ _ fresh
  refine ⟨owned.supervised result, fun _ active => (by cases active), fun row member started => ?_⟩
  rcases superviseRun_rows result member with old | ⟨reaches, raw, found, same⟩
  · have other : row.runId ≠ id := by
      rintro mine
      have known := owned row old
      rw [mine, fresh] at known
      cases known
    obtain ⟨writer, raw, place, same⟩ := sourced.rows row (opened ▸ old) started
    refine ⟨writer, raw, ?_, same⟩
    by_cases copied : (runs id).copied = true
    · simpa [copied, other] using place
    · simpa [copied] using place
  · have mine : row.runId = id := by
      rw [same]
      rfl
    have copied := copied_of_reaches (runs id) reaches
    rw [raws_envOf, List.getElem?_map] at found
    obtain ⟨⟨writer, written⟩, place, rfl⟩ := Option.map_eq_some_iff.mp found
    refine ⟨writer, written, ?_, ?_⟩
    · simpa [copied, mine] using place
    · rw [mine]
      exact same

theorem Sourced.step {s t : LiveSession} {label : LiveLabel} (sourced : Sourced runs s)
    (stepped : s.step runs label = some t) : Sourced runs t := by
  cases label with
  | launch id => exact sourced.launch stepped
  | append id line =>
    obtain rfl := step_append stepped
    exact ⟨sourced.owned, sourced.opened, sourced.rows⟩
  | finish id => exact sourced.finish stepped

/-- The evidence of every run is its own worker's exactly when no worker of another
run appends an event between a run's launch and its end. -/
theorem evidence_isolated_iff (runs : String → LiveRun session) (history : List Operation)
    {labels : List LiveLabel} {s : LiveSession}
    (ran : run (LiveSession.step runs) (LiveSession.init (play history)) labels = some s) :
    Isolated runs s ↔ QuietWindows runs labels := by
  constructor
  · rintro isolated before id window after rfl copied writer raw appended
    refine isolated.copies id writer raw ?_
    rw [window_copied ran copied]
    exact List.mem_filterMap.mpr ⟨_, appended, rfl⟩
  · intro quiet
    have own : ∀ id writer raw, (writer, .event raw) ∈ s.copies id → writer = id := by
      intro id writer raw member
      obtain ⟨before, window, after, split, copied, written⟩ := copiedFrom_of_run ran id _ member
      obtain ⟨label, inside, same⟩ := List.mem_filterMap.mp written
      cases label with
      | append writer line =>
        cases same
        exact quiet before id window after split copied writer raw inside
      | _ => cases same
    have sourced : Sourced runs s := by
      refine run_invariant _ (P := Sourced runs) (fun _ _ _ sourced stepped => sourced.step stepped)
        ran ⟨play_eventsOwned history, fun _ active => (by cases active), fun _ _ started => ?_⟩
      cases started
    refine ⟨own, fun row member started => ?_⟩
    obtain ⟨writer, raw, place, same⟩ := sourced.rows row member started
    obtain rfl := own _ _ _ (mem_writtenEvents.mp (List.mem_of_getElem? place))
    exact ⟨raw, place, same⟩

/-- The first run is cancelled while its tests run; the second one exits successfully. -/
def typingRuns (id : String) : LiveRun "session-1" where
  env := { quietEnv id (demoSnapshot "rev-1" "d1") true [] with
    worker := if id = "run-1" then .error .cancelled else .ok true }
  request := { VerificationRequest.fast with overlay := some ⟨"session-1", []⟩ }
  plan := ⟨demoSnapshot "rev-1" "d1", [], "moduleAll"⟩
  overlay := ⟨"session-1", []⟩
  live := rfl
  ofSession := rfl

/-- The cancelled run's worker finishes its test before the second run is launched, and
reports another one when that run is over. -/
def worksAlone : List LiveLabel :=
  [.launch "run-1", .append "run-1" (.event (rawStart "demo.AppTest#slow")), .finish "run-1",
    .append "run-1" (.event (rawFinish "demo.AppTest#slow" "successful"))] ++
  .launch "run-2" :: ([.append "run-2" (.event (rawStart "demo.AppTest#works")),
    .append "run-2" (.event (rawFinish "demo.AppTest#works" "successful"))] ++
  .finish "run-2" :: [.append "run-1" (.event (rawStart "demo.AppTest#late"))])

theorem worksAlone_quiet : QuietWindows typingRuns worksAlone := by
  intro before id window after split copied writer raw appended
  have launches : LiveLabel.launch id ∈ worksAlone := by simp [split]
  simp only [worksAlone, List.cons_append, List.nil_append, List.mem_cons, LiveLabel.launch.injEq,
    reduceCtorEq, List.not_mem_nil, or_false, false_or] at launches
  rcases launches with rfl | rfl
  · exact absurd copied (by decide +kernel)
  · -- the second run is launched once and ends once
    have opens := (List.append_cons_inj_of_notMem (by decide +kernel) (by decide +kernel)).mp split
    have closes :=
      (List.append_cons_inj_of_notMem (by decide +kernel) (by decide +kernel)).mp opens.2.2
    rw [← closes.1] at appended
    simp only [List.mem_cons, LiveLabel.append.injEq, List.not_mem_nil, or_false] at appended
    rcases appended with ⟨rfl, -⟩ | ⟨rfl, -⟩ <;> rfl

theorem evidence_isolated_iff_demo :
    ∃ s, run (LiveSession.step typingRuns) (LiveSession.init (play [])) worksAlone = some s ∧
      s.workerFile.length = 3 ∧ (∀ row ∈ s.store.events, row.runId = "run-2") ∧
      s.store.events.length = 2 ∧ Isolated typingRuns s := by
  have ran : (run (LiveSession.step typingRuns) (LiveSession.init (play [])) worksAlone).any
      fun s => decide (s.workerFile.length = 3 ∧ (∀ row ∈ s.store.events, row.runId = "run-2") ∧
        s.store.events.length = 2) := by decide +kernel
  simp only [Option.any_eq_true, decide_eq_true_eq] at ran
  obtain ⟨s, ran, lines, owned, rows⟩ := ran
  exact ⟨s, ran, lines, owned, rows, (evidence_isolated_iff typingRuns [] ran).mpr worksAlone_quiet⟩

/-- The cancelled run's worker finishes its test while the second run is at work. -/
def lateFinish : List LiveLabel :=
  [.launch "run-1", .append "run-1" (.event (rawStart "demo.AppTest#slow")), .finish "run-1",
    .launch "run-2", .append "run-2" (.event (rawStart "demo.AppTest#works")),
    .append "run-1" (.event (rawFinish "demo.AppTest#slow" "successful")),
    .append "run-2" (.event (rawFinish "demo.AppTest#works" "successful")), .finish "run-2"]

/-- The second run stores the event of the first run's worker, and its verdict on a
test that the second run never started. -/
theorem late_event_ingested :
    ∃ s, run (LiveSession.step typingRuns) (LiveSession.init (play [])) lateFinish = some s ∧
      (∃ row ∈ s.store.events, row.runId = "run-2" ∧ WrittenBy typingRuns s "run-1" row) ∧
      (∃ test ∈ s.store.tests, test.id = "demo.AppTest#slow" ∧ test.lastStatus = some "passed") ∧
      ¬ Isolated typingRuns s := by
  have ran : (run (LiveSession.step typingRuns) (LiveSession.init (play [])) lateFinish).any fun s =>
      "run-2" ∈ s.started &&
      (s.store.tests.any fun test =>
        test.id = "demo.AppTest#slow" && test.lastStatus = some "passed") &&
      s.store.events.any fun row => row.runId = "run-2" && row.sequence = 1 &&
        (writtenEvents (s.copies "run-2"))[1]? =
          some ("run-1", rawFinish "demo.AppTest#slow" "successful") &&
        row = eventRow (((typingRuns "run-2").envOf "run-2" []).ingestContext
          (typingRuns "run-2").plan.before.revision) 1
          (rawFinish "demo.AppTest#slow" "successful") := by decide +kernel
  simp only [Option.any_eq_true, Bool.and_eq_true, List.any_eq_true, decide_eq_true_eq] at ran
  obtain ⟨s, ran, ⟨started, test, tested, name, status⟩, row, member, ⟨⟨mine, second⟩, place⟩, same⟩ :=
    ran
  have foreign : WrittenBy typingRuns s "run-1" row :=
    ⟨_, by rw [mine, second]; exact place, by rw [mine, second]; exact same⟩
  refine ⟨s, ran, ⟨row, member, mine, foreign⟩, ⟨test, tested, name, status⟩, fun isolated => ?_⟩
  have own := isolated.copies "run-2" "run-1" _ (mem_writtenEvents.mp (List.mem_of_getElem? place))
  exact absurd own (by decide)

end Walaru
