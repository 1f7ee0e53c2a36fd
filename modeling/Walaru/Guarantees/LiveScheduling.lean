import Walaru.Source.Client.SchedulerEffects

/-!
# The reports of the live scheduler

Over every order of entry points, timers and settling runs: a generation whose run is
started once reports at most once, while it is the newest and the scheduler is neither
paused nor disposed, because every run that may still report is the active one.
-/
namespace Walaru.Client.LiveScheduler
open Lib.Trace

variable {Snapshot : Type} {s t : LiveScheduler Snapshot} {event : LiveEvent Snapshot}

/-- Each generation is run at most once and reported at most once, while it is the newest
and the scheduler is neither paused nor disposed. -/
structure ReportsOnce (s : LiveScheduler Snapshot) : Prop where
  runs : s.started.Nodup
  once : (s.reported.map Call.generation).Nodup
  newest : ∀ call ∈ s.reported, call.generation = call.newest
  awake : ∀ call ∈ s.reported, call.paused = false ∧ call.disposed = false

/-- A flush finds the newest generation not started yet, and the result of a current run can
be counted. -/
def Admitted (s : LiveScheduler Snapshot) : LiveEvent Snapshot → Prop
  | .flush => s.pending.isSome → s.paused = false → s.disposed = false → s.generation ∉ s.started
  | .settled controller completion =>
    ∀ run ∈ s.awaited, run.controller = controller → Current s run → s.disposed = false →
      ¬ Uncountable completion
  | _ => True

/-- What holds while no generation is started twice: no awaited run has reported, and those
that are not aborted are the active run of a scheduler that may report. -/
structure Alone (s : LiveScheduler Snapshot) : Prop where
  unreported : ∀ run ∈ s.awaited, run.generation ∉ s.reported.map Call.generation
  active : ∀ run ∈ s.awaited, run.aborted = false →
    s.active = some ⟨run.generation, run.controller⟩
  current : ∀ run ∈ s.awaited, run.aborted = false →
    run.generation = s.generation ∧ s.paused = false ∧ s.disposed = false

/-- Once the active run is aborted, every run is. -/
theorem Aborted.alone {u : LiveScheduler Snapshot} (alone : Alone s) (aborted : Aborted u t)
    (active : u.active = s.active) (awaited : u.awaited = s.awaited) (reported : u.reported = s.reported) :
    Alone t := by
  have all_aborted : ∀ run ∈ t.awaited, run.aborted = true := by
    intro run member
    by_contra spared
    rw [Bool.not_eq_true] at spared
    obtain ⟨present, other⟩ := aborted.spared run member spared
    rw [awaited] at present
    rw [active] at other
    exact other _ (alone.active run present spared) rfl
  constructor
  · intro run member
    have numbered := List.mem_map_of_mem (f := AwaitedRun.generation) member
    rw [aborted.generations, awaited] at numbered
    obtain ⟨before, present, same⟩ := List.mem_map.mp numbered
    rw [aborted.reported, reported, ← same]
    exact alone.unreported before present
  · intro run member spared
    rw [all_aborted run member] at spared
    cases spared
  · intro run member spared
    rw [all_aborted run member] at spared
    cases spared

theorem Alone.initial : Alone (LiveScheduler.initial : LiveScheduler Snapshot) :=
  ⟨fun _ member => absurd member List.not_mem_nil, fun _ member => absurd member List.not_mem_nil,
    fun _ member => absurd member List.not_mem_nil⟩

theorem Alone.launched (alone : Alone s) (ordered : Ordered s) (fresh : s.generation ∉ s.started)
    (running : s.paused = false) (live : s.disposed = false)
    (launched : Launched { s with timer := none } t) : Alone t := by
  obtain ⟨reason, awaited⟩ := launched.awaited
  -- a run that is not aborted is of the newest generation, which has not run
  have all_aborted : ∀ run ∈ s.awaited, run.aborted = true := by
    intro run member
    by_contra spared
    rw [Bool.not_eq_true] at spared
    have newest := (alone.current run member spared).1
    exact fresh (newest ▸ ordered.generation_mem member)
  have only : ∀ run ∈ t.awaited, run.aborted = false →
      run = ⟨s.generation, s.controllers, reason, false⟩ := by
    intro run member spared
    rw [awaited] at member
    rcases List.mem_append.mp member with before | now
    · rw [all_aborted run before] at spared
      cases spared
    · exact List.mem_singleton.mp now
  constructor
  · intro run member
    rw [launched.reported]
    rw [awaited] at member
    rcases List.mem_append.mp member with before | now
    · exact alone.unreported run before
    · rw [List.mem_singleton.mp now]
      intro reported
      obtain ⟨call, told, same⟩ := List.mem_map.mp reported
      have ran := ordered.reported call told
      rw [same] at ran
      exact fresh ran
  · intro run member spared
    rw [only run member spared]
    exact launched.active
  · intro run member spared
    rw [only run member spared, launched.generation, launched.paused, launched.disposed]
    exact ⟨rfl, running, live⟩

theorem Alone.settled (alone : Alone s) (ordered : Ordered s) (runs : s.started.Nodup)
    {run : AwaitedRun} {completion : Completion} (member : run ∈ s.awaited)
    (released : Released s t run) (result : Silent s t ∨ ∃ told, Told s t run completion told) :
    Alone t := by
  have distinct : (s.awaited.map AwaitedRun.generation).Nodup := runs.sublist ordered.awaited
  have others : ∀ other ∈ t.awaited, other ∈ s.awaited ∧ other.generation ≠ run.generation := by
    intro other present
    have before := released.mem present
    refine ⟨before, fun same => ?_⟩
    rw [released.awaited] at present
    have equal := List.inj_on_of_nodup_map distinct before member same
    subst equal
    exact (List.Nodup.of_map _ distinct).not_mem_erase present
  constructor
  · intro other present
    obtain ⟨before, apart⟩ := others other present
    rcases result with silent | ⟨told, telling⟩
    · rw [silent.reported]
      exact alone.unreported other before
    · rw [telling.reported, List.map_append, List.mem_append, not_or]
      refine ⟨alone.unreported other before, fun now => ?_⟩
      obtain ⟨call, reports, same⟩ := List.mem_map.mp now
      rw [(telling.about call reports).1] at same
      exact apart same.symm
  · intro other present spared
    obtain ⟨before, apart⟩ := others other present
    have active := alone.active other before spared
    rcases released.active with same | ⟨-, ended, running, equal⟩
    · rw [same, active]
    · rw [active] at running
      cases running
      exact absurd equal apart
  · intro other present spared
    obtain ⟨before, -⟩ := others other present
    rw [released.generation, released.paused, released.disposed]
    exact alone.current other before spared

/-- Generations are started at most once before a step when they are after it. -/
theorem started_sublist (ordered : Ordered s) (stepped : s.step event = some t) :
    s.started.Sublist t.started := by
  have equal : ∀ {a b : List Nat}, b = a → a.Sublist b := fun same => same ▸ .refl _
  cases moved_step ordered stepped with
  | same => exact .refl _
  | superseded held snapshot reason live aborted => exact equal aborted.started
  | paused aborted => exact equal aborted.started
  | disposed aborted => exact equal aborted.started
  | woken held woken => exact equal woken.started
  | launched changed running live asked launched =>
    rw [launched.started]
    exact List.sublist_append_left _ _
  | settled run completion awaited released result => exact equal released.started

theorem Alone.step (alone : Alone s) (ordered : Ordered s) (runs : t.started.Nodup)
    (stepped : s.step event = some t) : Alone t := by
  have before := runs.sublist (started_sublist ordered stepped)
  cases moved_step ordered stepped with
  | same => exact alone
  | superseded held snapshot reason live aborted => exact aborted.alone alone rfl rfl rfl
  | paused aborted => exact aborted.alone alone rfl rfl rfl
  | disposed aborted => exact aborted.alone alone rfl rfl rfl
  | woken held woken =>
    constructor
    · rw [woken.awaited, woken.reported]
      exact alone.unreported
    · rw [woken.awaited, woken.active]
      exact alone.active
    · intro run member spared
      rw [woken.awaited] at member
      have running := (alone.current run member spared).2.1
      rw [held] at running
      cases running
  | launched changed running live asked launched =>
    have fresh : s.generation ∉ s.started := by
      intro ran
      rw [launched.started, List.nodup_append] at runs
      exact runs.2.2 _ ran _ List.mem_cons_self rfl
    exact alone.launched ordered fresh running live launched
  | settled run completion awaited released result =>
    exact alone.settled ordered before awaited released (result.imp_left And.left)

theorem ReportsOnce.same (once : ReportsOnce s) (started : t.started = s.started)
    (reported : t.reported = s.reported) : ReportsOnce t := by
  refine ⟨?_, ?_, ?_, ?_⟩
  · rw [started]
    exact once.runs
  · rw [reported]
    exact once.once
  · rw [reported]
    exact once.newest
  · rw [reported]
    exact once.awake

/-- One report more, of a run that has not reported. -/
theorem ReportsOnce.told (once : ReportsOnce s) (alone : Alone s) {run : AwaitedRun}
    {completion : Completion} (member : run ∈ s.awaited) (countable : ¬ Uncountable completion)
    (released : Released s t run) {told : List (Call Snapshot)} (telling : Told s t run completion told) :
    ReportsOnce t := by
  obtain ⟨call, rfl⟩ : ∃ call, told = [call] := by
    rcases telling.once with ⟨-, one⟩ | ⟨uncountable, -⟩
    · exact List.length_eq_one_iff.mp one
    · exact absurd uncountable countable
  have about := telling.about call List.mem_cons_self
  have current := alone.current run member telling.current.2
  have told : ∀ other ∈ t.reported, other ∈ s.reported ∨ other = call := by
    intro other reports
    rw [telling.reported] at reports
    exact (List.mem_append.mp reports).imp_right List.mem_singleton.mp
  refine ⟨?_, ?_, ?_, ?_⟩
  · rw [released.started]
    exact once.runs
  · rw [telling.reported, List.map_append, List.nodup_append]
    refine ⟨once.once, by simp, ?_⟩
    intro generation before other now same
    rw [List.map_singleton, List.mem_singleton, about.1] at now
    rw [same, now] at before
    exact alone.unreported run member before
  · intro other reports
    rcases told other reports with before | rfl
    · exact once.newest other before
    · rw [about.1, about.2.1]
      exact current.1
  · intro other reports
    rcases told other reports with before | rfl
    · exact once.awake other before
    · rw [about.2.2.1, about.2.2.2]
      exact current.2

theorem ReportsOnce.step (once : ReportsOnce s) (alone : Alone s) (ordered : Ordered s)
    (admitted : Admitted s event) (stepped : s.step event = some t) : ReportsOnce t := by
  cases moved_step ordered stepped with
  | same => exact once
  | superseded held snapshot reason live aborted => exact once.same aborted.started aborted.reported
  | paused aborted => exact once.same aborted.started aborted.reported
  | disposed aborted => exact once.same aborted.started aborted.reported
  | woken held woken => exact once.same woken.started woken.reported
  | launched changed running live asked launched =>
    have fresh : s.generation ∉ s.started := by
      rcases asked with rfl | fresh
      · exact admitted changed running live
      · exact fresh
    refine ⟨?_, ?_, ?_, ?_⟩
    · rw [launched.started, List.nodup_append]
      refine ⟨once.runs, by simp, fun generation ran other now same => ?_⟩
      rw [List.mem_singleton] at now
      exact fresh (now ▸ same ▸ ran)
    · rw [launched.reported]
      exact once.once
    · rw [launched.reported]
      exact once.newest
    · rw [launched.reported]
      exact once.awake
  | settled run completion awaited released result =>
    rcases result with ⟨silent, -⟩ | ⟨told, telling⟩
    · exact once.same released.started silent.reported
    · have live := (alone.current run awaited telling.current.2).2.2
      exact once.told alone awaited (admitted run awaited rfl telling.current live) released telling

/-- A second run of a generation, or a report that throws, shows in the state after. -/
theorem admitted_of_reportsOnce (ordered : Ordered s) (stepped : s.step event = some t)
    (once : ReportsOnce t) : Admitted s event := by
  cases event with
  | flush =>
    intro changed running live ran
    cases stepped
    have runs := once.runs
    rw [(launched_flush ordered changed running live).started, List.nodup_append] at runs
    exact runs.2.2 _ ran _ List.mem_cons_self rfl
  | settled controller completion =>
    rintro run member rfl current live ⟨result, rfl, uncountable⟩
    rw [step_settled ordered member] at stepped
    cases stepped
    rcases (settle_cases s run (.resolved result)).2 with ⟨-, silent⟩ | ⟨told, telling⟩
    · rcases silent with other | disposed | lost
      · exact other current
      · rw [live] at disposed
        cases disposed
      · exact not_lost_resolved lost
    · rcases telling.once with ⟨countable, -⟩ | ⟨-, two⟩
      · exact countable ⟨result, rfl, uncountable⟩
      · obtain ⟨first, second, rfl⟩ := List.length_eq_two.mp two
        have reports := once.once
        rw [telling.reported, List.map_append, List.nodup_append] at reports
        have pair := reports.2.1
        simp [(telling.about first (by simp)).1, (telling.about second (by simp)).1] at pair
  | _ => trivial

/-- In every run of the scheduler, each generation is started once and reported at most once,
while it is the newest and nothing is paused or disposed, exactly when no flush finds the
newest generation already started and every result that is reported can be counted. -/
theorem reports_once_iff {events : List (LiveEvent Snapshot)}
    (ran : run step (LiveScheduler.initial : LiveScheduler Snapshot) events = some s) :
    Along step Admitted LiveScheduler.initial events ↔
      ∀ before t, before <+: events → run step LiveScheduler.initial before = some t →
        ReportsOnce t := by
  have start : ReportsOnce (LiveScheduler.initial : LiveScheduler Snapshot) :=
    ⟨List.nodup_nil, List.nodup_nil, fun _ told => absurd told List.not_mem_nil,
      fun _ told => absurd told List.not_mem_nil⟩
  apply along_iff_always _ (I := fun t => Ordered t ∧ (t.started.Nodup → Alone t)) ran
    ⟨.initial, fun _ => .initial⟩ start
  · intro s event t ⟨ordered, alone⟩ stepped
    refine ⟨ordered.step stepped, fun runs => ?_⟩
    exact (alone (runs.sublist (started_sublist ordered stepped))).step ordered runs stepped
  · intro s event t ⟨ordered, alone⟩ once admitted stepped
    exact once.step (alone once.runs) ordered admitted stepped
  · intro s event t ⟨ordered, _⟩ stepped once
    exact admitted_of_reportsOnce ordered stepped once

def passed : Completion := .resolved (.object [("status", .string "ok")])

/-- Two edits: the run of the first one is obsolete when it settles. -/
def twoEdits : List (LiveEvent Nat) :=
  [.schedule 1 "edit", .flush, .schedule 2 "edit", .settled 0 passed, .flush, .settled 1 passed]

theorem reports_once_iff_demo :
    ∃ s, run step (LiveScheduler.initial : LiveScheduler Nat) twoEdits = some s ∧
      s.started = [1, 2] ∧ s.reported.map Call.generation = [2] ∧
      (Along step Admitted LiveScheduler.initial twoEdits ↔
        ∀ before t, before <+: twoEdits → run step LiveScheduler.initial before = some t →
          ReportsOnce t) := by
  have ran : (run step (LiveScheduler.initial : LiveScheduler Nat) twoEdits).any fun s =>
      decide (s.started = [1, 2] ∧ s.reported.map Call.generation = [2]) := by
    decide +kernel
  rw [Option.any_eq_true] at ran
  obtain ⟨s, ran, seen⟩ := ran
  obtain ⟨started, reported⟩ := of_decide_eq_true seen
  exact ⟨s, ran, started, reported, reports_once_iff ran⟩

/-- A second flush before the run settles starts the generation again, and both report. -/
theorem second_flush_reports_again :
    ¬ ∀ (events : List (LiveEvent Nat)) (s : LiveScheduler Nat),
      run step LiveScheduler.initial events = some s → ReportsOnce s := by
  intro claim
  have ran : (run step (LiveScheduler.initial : LiveScheduler Nat)
      [.schedule 1 "edit", .flush, .flush, .settled 0 passed, .settled 1 passed]).any fun s =>
      decide (s.reported.map Call.generation = [1, 1]) := by
    decide +kernel
  rw [Option.any_eq_true] at ran
  obtain ⟨s, ran, seen⟩ := ran
  have once := (claim _ s ran).once
  rw [of_decide_eq_true seen] at once
  simp at once

end Walaru.Client.LiveScheduler
