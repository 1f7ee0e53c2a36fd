import Walaru.Guarantees.LiveScheduling

/-!
# What is left when a run has settled

A run of the newest generation that reports clears what is pending and shows how it ended.
One that is rejected as an abort, or with a value that has no message, leaves the shown
state as it was; when nobody aborted it and no other run of its generation is awaited, the
scheduler goes on showing it as running.
-/
namespace Walaru.Client.LiveScheduler
open Lib.Trace

variable {Snapshot : Type} {s t : LiveScheduler Snapshot} {event : LiveEvent Snapshot}

/-- When the runs of the newest generation have settled and none is to come, nothing is shown
as running and nothing is left pending. -/
def Settled (s : LiveScheduler Snapshot) : Prop :=
  s.generation ∈ s.started → (∀ run ∈ s.awaited, run.generation ≠ s.generation) → s.timer = none →
    s.paused = false → s.disposed = false → s.lastStatus ≠ some .running ∧ s.pending = none

/-- The last awaited run of the newest generation, which nobody aborted and which is shown as
running, is rejected as an abort or with a value that has no message. -/
def Stranding (s : LiveScheduler Snapshot) : LiveEvent Snapshot → Prop
  | .settled controller completion =>
    Lost completion ∧ s.paused = false ∧ s.disposed = false ∧ s.lastStatus = some .running ∧
      ∃ run ∈ s.awaited, run.controller = controller ∧ Current s run ∧
        ∀ other ∈ s.awaited, other.generation = s.generation → other = run
  | _ => False

/-- While the newest generation is started and nothing is held, what is pending is shown as
running, and nothing is when one of its runs was aborted. -/
structure Shown (s : LiveScheduler Snapshot) : Prop where
  pending : s.generation ∈ s.started → s.paused = false → s.disposed = false →
    s.pending = none ∨ s.lastStatus = some .running
  aborted : s.paused = false → s.disposed = false → ∀ run ∈ s.awaited,
    run.generation = s.generation → run.aborted = true →
      s.lastStatus ≠ some .running ∧ s.pending = none

theorem Shown.of_held (held : s.paused = true ∨ s.disposed = true) : Shown s := by
  constructor
  · intro _ running live
    simp [running, live] at held
  · intro running live
    simp [running, live] at held

/-- A generation without a run is not shown. -/
theorem Shown.of_fresh (ordered : Ordered s) (fresh : s.generation ∉ s.started) : Shown s := by
  constructor
  · exact fun ran => absurd ran fresh
  · intro _ _ run member newest
    exact absurd (newest ▸ ordered.generation_mem member) fresh

theorem Settled.of_held (held : s.paused = true ∨ s.disposed = true) : Settled s := by
  intro _ _ _ running live
  simp [running, live] at held

theorem changed_fresh (ordered : Ordered s) {held : Bool} {snapshot : Snapshot} {reason : String}
    (aborted : Aborted (s.changed held snapshot reason) t) : t.generation ∉ t.started := by
  rw [aborted.generation, aborted.started]
  intro ran
  have old := ordered.started (s.generation + 1) ran
  omega

theorem Shown.launched (shown : Shown s) (changed : s.pending.isSome)
    (running : s.paused = false) (live : s.disposed = false)
    (launched : Launched { s with timer := none } t) : Shown t := by
  constructor
  · exact fun _ _ _ => .inr launched.status
  · intro _ _ run member newest aborted
    obtain ⟨reason, awaited⟩ := launched.awaited
    rw [awaited] at member
    rcases List.mem_append.mp member with before | now
    · rw [launched.generation] at newest
      have cleared := (shown.aborted running live run before newest aborted).2
      rw [cleared] at changed
      cases changed
    · rw [List.mem_singleton.mp now] at aborted
      cases aborted

theorem Shown.settled (shown : Shown s) {run : AwaitedRun} {completion : Completion}
    (released : Released s t run)
    (result : Silent s t ∨ ∃ told, Told s t run completion told) : Shown t := by
  rcases result with silent | ⟨told, telling⟩
  · constructor
    · rw [released.generation, released.started, released.paused, released.disposed, silent.pending,
        silent.status]
      exact shown.pending
    · rw [released.generation, released.paused, released.disposed, silent.pending, silent.status]
      exact fun running live other present => shown.aborted running live other (released.mem present)
  · constructor
    · exact fun _ _ _ => .inl telling.pending
    · rw [released.generation, released.paused, released.disposed]
      intro running live other present newest aborted
      have before := shown.aborted running live other (released.mem present) newest aborted
      refine ⟨?_, telling.pending⟩
      rcases telling.status with ⟨-, same⟩ | ⟨-, ended⟩
      · rw [same]
        exact before.1
      · exact ended

theorem Shown.step (shown : Shown s) (ordered : Ordered s) (stepped : s.step event = some t) :
    Shown t := by
  have after := ordered.step stepped
  cases moved_step ordered stepped with
  | same => exact shown
  | superseded held snapshot reason live aborted =>
    exact .of_fresh after (changed_fresh ordered aborted)
  | paused aborted => exact .of_held (.inl aborted.paused)
  | disposed aborted => exact .of_held (.inr aborted.disposed)
  | woken held woken =>
    rcases woken.idle with disposed | ⟨idle, status⟩
    · exact .of_held (.inr (woken.disposed.trans disposed))
    · refine ⟨fun _ _ _ => .inl (woken.pending.trans idle), fun _ _ _ _ _ _ => ⟨?_, ?_⟩⟩
      · simp [status]
      · exact woken.pending.trans idle
  | launched changed running live asked launched =>
    exact shown.launched changed running live launched
  | settled run completion awaited released result =>
    exact shown.settled released (result.imp_left And.left)

/-- A run that settles without stranding the scheduler leaves it settled. -/
theorem Settled.settled (settled : Settled s) (shown : Shown s)
    {run : AwaitedRun} {completion : Completion} (member : run ∈ s.awaited)
    (spared : ¬ Stranding s (.settled run.controller completion)) (released : Released s t run)
    (result : Silent s t ∧ (¬ Current s run ∨ s.disposed = true ∨ Lost completion) ∨
      ∃ told, Told s t run completion told) : Settled t := by
  intro ran quiet idle running live
  rw [released.generation, released.started] at ran
  rw [released.timer] at idle
  rw [released.paused] at running
  rw [released.disposed] at live
  -- whatever is still awaited of the newest generation is the run itself
  have others : ∀ other ∈ s.awaited, other.generation = s.generation → other = run := by
    intro other present newest
    by_contra apart
    have kept : other ∈ t.awaited := by
      rw [released.awaited]
      exact (List.mem_erase_of_ne apart).mpr present
    exact quiet other kept (newest.trans released.generation.symm)
  have lost_status : Current s run → Lost completion → s.lastStatus ≠ some .running :=
    fun current lost showing =>
      spared ⟨lost, running, live, showing, run, member, rfl, current, others⟩
  rcases result with ⟨silent, reason⟩ | ⟨told, telling⟩
  · rw [silent.status, silent.pending]
    by_cases newest : run.generation = s.generation
    · cases aborted : run.aborted with
      | true => exact shown.aborted running live run member newest aborted
      | false =>
        have current : Current s run := ⟨newest, aborted⟩
        rcases reason with other | disposed | lost
        · exact absurd current other
        · rw [live] at disposed
          cases disposed
        · have ended := lost_status current lost
          exact ⟨ended, (shown.pending ran running live).resolve_right ended⟩
    · apply settled ran _ idle running live
      intro other present equal
      rw [others other present equal] at equal
      exact newest equal
  · refine ⟨?_, telling.pending⟩
    rcases telling.status with ⟨lost, same⟩ | ⟨-, ended⟩
    · rw [same]
      exact lost_status telling.current lost
    · exact ended

theorem Settled.step (settled : Settled s) (shown : Shown s) (ordered : Ordered s)
    (spared : ¬ Stranding s event) (stepped : s.step event = some t) : Settled t := by
  cases moved_step ordered stepped with
  | same => exact settled
  | superseded held snapshot reason live aborted =>
    exact fun ran => absurd ran (changed_fresh ordered aborted)
  | paused aborted => exact .of_held (.inl aborted.paused)
  | disposed aborted => exact .of_held (.inr aborted.disposed)
  | woken held woken =>
    rcases woken.idle with disposed | ⟨idle, status⟩
    · exact .of_held (.inr (woken.disposed.trans disposed))
    · intro _ _ _ _ _
      exact ⟨by simp [status], woken.pending.trans idle⟩
  | launched changed running live asked launched =>
    intro _ quiet
    obtain ⟨reason, awaited⟩ := launched.awaited
    have added : ⟨s.generation, s.controllers, reason, false⟩ ∈ t.awaited := by
      rw [awaited]
      exact List.mem_append_right _ List.mem_cons_self
    exact absurd launched.generation.symm (quiet _ added)
  | settled run completion awaited released result =>
    exact settled.settled shown awaited spared released result

/-- A stranded scheduler is not settled. -/
theorem spared_of_settled (ordered : Ordered s) (stepped : s.step event = some t)
    (settled : Settled t) : ¬ Stranding s event := by
  intro stranding
  cases event with
  | settled controller completion =>
    obtain ⟨lost, running, live, showing, run, member, rfl, current, others⟩ := stranding
    rw [step_settled ordered member] at stepped
    cases stepped
    obtain ⟨released, result⟩ := settle_cases s run completion
    have ran := ordered.generation_mem member
    have status : (s.settle run completion).lastStatus = s.lastStatus := by
      rcases result with ⟨silent, -⟩ | ⟨told, telling⟩
      · exact silent.status
      · rcases telling.status with ⟨-, same⟩ | ⟨found, -⟩
        · exact same
        · exact absurd lost found
    have idle : s.timer = none := by
      rw [Option.eq_none_iff_forall_ne_some]
      intro generation armed
      have timed := ordered.timer generation armed
      rw [current.1, ← timed.1] at ran
      exact timed.2.1 ran
    refine (settled ?_ ?_ ?_ ?_ ?_).1 (status.trans showing)
    · rw [released.generation, released.started, ← current.1]
      exact ran
    · rw [released.generation]
      intro other present newest
      have same := others other (released.mem present) newest
      rw [released.awaited, same] at present
      exact (List.Nodup.of_map _ ordered.numbers).not_mem_erase present
    · rw [released.timer, idle]
    · rw [released.paused, running]
    · rw [released.disposed, live]
  | _ => exact stranding

/-- In every run of the scheduler, nothing stays pending or shown as running once the newest
generation has settled, exactly when no run of it that nobody aborted ends the generation
with a rejection that looks like an abort or has no message. -/
theorem settles_iff {events : List (LiveEvent Snapshot)}
    (ran : run step (LiveScheduler.initial : LiveScheduler Snapshot) events = some s) :
    Along step (fun t event => ¬ Stranding t event) LiveScheduler.initial events ↔
      ∀ before t, before <+: events → run step LiveScheduler.initial before = some t →
        Settled t := by
  have fresh : (LiveScheduler.initial : LiveScheduler Snapshot).generation ∉
      (LiveScheduler.initial : LiveScheduler Snapshot).started := List.not_mem_nil
  apply along_iff_always _ (I := fun t => Ordered t ∧ Shown t) ran ⟨.initial, .of_fresh .initial fresh⟩
    (fun ran => absurd ran fresh)
  · intro s event t ⟨ordered, shown⟩ stepped
    exact ⟨ordered.step stepped, shown.step ordered stepped⟩
  · intro s event t ⟨ordered, shown⟩ settled spared stepped
    exact settled.step shown ordered spared stepped
  · intro s event t ⟨ordered, _⟩ stepped settled
    exact spared_of_settled ordered stepped settled

/-- The own controller of the second run is aborted by the third edit. -/
def supersededHere : List (LiveEvent Nat) :=
  [.schedule 1 "edit", .timer, .settled 0 passed, .schedule 2 "edit", .timer, .schedule 3 "edit",
    .settled 1 (.rejected (some ⟨some "AbortError", none⟩)), .timer,
    .settled 2 (.rejected (some ⟨some "Error", some "worker failed"⟩))]

theorem settles_iff_demo :
    ∃ s, run step (LiveScheduler.initial : LiveScheduler Nat) supersededHere = some s ∧
      s.lastStatus = some .error ∧
      (Along step (fun t event => ¬ Stranding t event) LiveScheduler.initial supersededHere ↔
        ∀ before t, before <+: supersededHere → run step LiveScheduler.initial before = some t →
          Settled t) := by
  have ran : (run step (LiveScheduler.initial : LiveScheduler Nat) supersededHere).any fun s =>
      decide (s.lastStatus = some .error) := by
    decide +kernel
  rw [Option.any_eq_true] at ran
  obtain ⟨s, ran, shown⟩ := ran
  exact ⟨s, ran, of_decide_eq_true shown, settles_iff ran⟩

/-- Another client supersedes the run: it is rejected as an abort that nobody here asked for,
and the scheduler shows it as running with the change still pending. -/
theorem superseded_elsewhere :
    ¬ ∀ (events : List (LiveEvent Nat)) (s : LiveScheduler Nat),
      run step LiveScheduler.initial events = some s → Settled s := by
  intro claim
  have ran : (run step (LiveScheduler.initial : LiveScheduler Nat)
      [.schedule 1 "edit", .flush, .settled 0 (.rejected (some ⟨some "AbortError", none⟩))]).any
      fun s => decide (s.generation ∈ s.started ∧ s.awaited = [] ∧ s.timer = none ∧
        s.paused = false ∧ s.disposed = false ∧ s.lastStatus = some .running) := by
    decide +kernel
  rw [Option.any_eq_true] at ran
  obtain ⟨s, ran, seen⟩ := ran
  obtain ⟨started, none_, idle, running, live, showing⟩ := of_decide_eq_true seen
  exact (claim _ s ran started (by simp [none_]) idle running live).1 showing

end Walaru.Client.LiveScheduler
