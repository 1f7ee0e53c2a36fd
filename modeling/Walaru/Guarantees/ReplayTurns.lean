import Walaru.Source.Agent.ReplayScheduler

/-!
# The turns of a replay

What the turnstile of the replay scheduler promises to any number of threads: the
schedule's order, one writer at a time, and that a refused call leaves no trace.
-/
namespace Walaru.Agent
open Lib.Trace

/-- The order that the schedule asks for. -/
def scheduledPairs (expected : List ScheduleEntry) : List (String × String) :=
  expected.map fun entry => (entry.category, entry.threadKey)

variable {Thread : Type} [DecidableEq Thread] {expected : List ScheduleEntry}

/-- Only the entry under the cursor is admitted, and only while nobody writes. -/
theorem Turnstile.before_enters {turn turn' : Turnstile} {rawType threadKey : String}
    (scheduled : expected ≠ [])
    (entered : turn.before expected rawType threadKey = .enters turn') :
    ∃ entry, expected[turn.cursor]? = some entry ∧ turn.writing = false ∧
      (entry.category, entry.threadKey) = (replayCategory rawType, threadKey) ∧
      turn' = ⟨turn.cursor, true⟩ := by
  simp only [Turnstile.before, scheduled, if_false] at entered
  split at entered
  · cases entered
  · rename_i entry under
    split at entered
    · cases entered
    · rename_i free
      split at entered
      · cases entered
      · rename_i same
        simp only [not_or, Bool.not_eq_true, not_not] at free same
        cases entered
        exact ⟨entry, under, free.1, by rw [same, free.2], rfl⟩

/-- Cursor, flag and admissions agree, and the flag is up exactly while one thread is
between its two calls. -/
structure InTurn (expected : List ScheduleEntry) (s : Scheduler Thread) : Prop where
  cursor : s.turn.cursor + (if s.turn.writing then 1 else 0) ≤ expected.length
  admitted : s.admitted =
    (scheduledPairs expected).take (s.turn.cursor + if s.turn.writing then 1 else 0)
  writer : ∀ t, s.phases t = .inside → s.turn.writing = true
  alone : ∀ t u, s.phases t = .inside → s.phases u = .inside → t = u
  occupied : s.turn.writing = true → ∃ t, s.phases t = .inside

namespace InTurn
variable {s s' : Scheduler Thread} {t : Thread} {rawType threadKey : String} {patience : Patience}

omit [DecidableEq Thread] in
theorem start (expected : List ScheduleEntry) : InTurn expected (Scheduler.start : Scheduler Thread) where
  cursor := Nat.zero_le _
  admitted := by simp [Scheduler.start]
  writer t inside := by cases inside
  alone t u inside _ := by cases inside
  occupied up := by cases up

/-- A caller that neither enters nor leaves changes nothing that counts. -/
theorem setPhase (inTurn : InTurn expected s) (phase : CallPhase) (beside : s.phases t ≠ .inside)
    (out : phase ≠ .inside) : InTurn expected (s.setPhase t phase) where
  cursor := inTurn.cursor
  admitted := inTurn.admitted
  writer u inside := by
    by_cases own : u = t
    · subst own
      simp [Scheduler.setPhase, out] at inside
    · exact inTurn.writer u (by simpa [Scheduler.setPhase, own] using inside)
  alone u v insideU insideV := by
    have other : ∀ w, (s.setPhase t phase).phases w = .inside → s.phases w = .inside := by
      intro w inside
      by_cases own : w = t
      · subst own
        simp [Scheduler.setPhase, out] at inside
      · simpa [Scheduler.setPhase, own] using inside
    exact inTurn.alone u v (other u insideU) (other v insideV)
  occupied up := by
    obtain ⟨u, inside⟩ := inTurn.occupied up
    refine ⟨u, ?_⟩
    have own : u ≠ t := by
      rintro rfl
      exact beside inside
    simpa [Scheduler.setPhase, own] using inside

theorem look (scheduled : expected ≠ []) (inTurn : InTurn expected s)
    (beside : s.phases t ≠ .inside) :
    InTurn expected (s.look expected t rawType threadKey patience) := by
  unfold Scheduler.look
  split
  · rename_i turn entered
    obtain ⟨entry, under, free, same, rfl⟩ := Turnstile.before_enters scheduled entered
    have nobody : ∀ u, s.phases u ≠ .inside := by
      intro u inside
      rw [inTurn.writer u inside] at free
      cases free
    obtain ⟨inside, under⟩ := List.getElem?_eq_some_iff.mp under
    have only : ∀ u, (s.setPhase t .inside).phases u = .inside → u = t := by
      intro u here
      by_contra other
      exact nobody u (by simpa [Scheduler.setPhase, other] using here)
    refine ⟨Nat.succ_le_of_lt inside, ?_, fun _ _ => rfl, fun u v hereU hereV => ?_, fun _ => ⟨t, ?_⟩⟩
    · have next : (scheduledPairs expected)[s.turn.cursor]? = some (replayCategory rawType, threadKey) := by
        simp [scheduledPairs, under, inside, same]
      rw [inTurn.admitted]
      simp only [free, Bool.false_eq_true, if_false, Nat.add_zero, if_true]
      rw [List.take_add_one, next]
      rfl
    · rw [only u hereU, only v hereV]
    · simp [Scheduler.setPhase]
  · exact inTurn.setPhase .outside beside (by simp)
  · split
    · exact inTurn.setPhase (.waiting rawType threadKey) beside (by simp)
    · exact inTurn.setPhase .outside beside (by simp)
    · exact inTurn.setPhase .outside beside (by simp)

theorem leave (scheduled : expected ≠ []) (inTurn : InTurn expected s) (inside : s.phases t = .inside) :
    InTurn expected { s.setPhase t .outside with turn := s.turn.after expected } := by
  have up := inTurn.writer t inside
  have nobody : ∀ u, (s.setPhase t .outside).phases u ≠ .inside := by
    intro u here
    by_cases own : u = t
    · subst own
      simp [Scheduler.setPhase] at here
    · exact own (inTurn.alone u t (by simpa [Scheduler.setPhase, own] using here) inside)
  have moved : s.turn.after expected = ⟨s.turn.cursor + 1, false⟩ := by
    simp [Turnstile.after, scheduled]
  refine ⟨?_, ?_, fun u here => absurd here (nobody u), fun u v here => absurd here (nobody u), ?_⟩
  · simpa [moved, up] using inTurn.cursor
  · simpa [moved, up, Scheduler.setPhase] using inTurn.admitted
  · simp [moved]

theorem step (scheduled : expected ≠ []) (inTurn : InTurn expected s) {call : SchedulerCall Thread}
    (stepped : s.step expected call = some s') : InTurn expected s' := by
  cases call with
  | before t rawType threadKey patience =>
    simp only [Scheduler.step] at stepped
    split at stepped
    · rename_i phase
      cases stepped
      exact inTurn.look scheduled (by simp [phase])
    · cases stepped
  | wakes t patience =>
    simp only [Scheduler.step] at stepped
    split at stepped
    · rename_i phase
      cases stepped
      exact inTurn.look scheduled (by simp [phase])
    · cases stepped
  | after t =>
    simp only [Scheduler.step] at stepped
    split at stepped
    · rename_i phase
      cases stepped
      exact inTurn.leave scheduled phase
    · cases stepped

end InTurn

/-- A look that ends outside the scheduler has not touched cursor and flag. -/
theorem look_turn_of_outside {s : Scheduler Thread} {t : Thread} {rawType threadKey : String}
    {patience : Patience}
    (out : (s.look expected t rawType threadKey patience).phases t = .outside) :
    (s.look expected t rawType threadKey patience).turn = s.turn := by
  unfold Scheduler.look at out ⊢
  split
  · rename_i turn entered
    simp [entered, Scheduler.setPhase] at out
  · rfl
  · split <;> rfl

theorem failed_turn {s s' : Scheduler Thread} {call : SchedulerCall Thread}
    (stepped : s.step expected call = some s') (failed : s'.Failed call) : s'.turn = s.turn := by
  cases call with
  | before t rawType threadKey patience =>
    simp only [Scheduler.step] at stepped
    split at stepped
    · cases stepped
      exact look_turn_of_outside failed
    · cases stepped
  | wakes t patience =>
    simp only [Scheduler.step] at stepped
    split at stepped
    · cases stepped
      exact look_turn_of_outside failed
    · cases stepped
  | after t => cases failed

/-- Under a schedule that is not empty, in every interleaving: the admitted events begin
the schedule, at most one thread is between its two calls, and a call that throws leaves
cursor and flag as they were. -/
theorem turns_follow_schedule (scheduled : expected ≠ []) {s : Scheduler Thread}
    (reached : Reachable (Scheduler.step expected) Scheduler.start s) :
    s.admitted <+: scheduledPairs expected ∧
      (∀ t u, s.phases t = .inside → s.phases u = .inside → t = u) ∧
      ∀ call s', s.step expected call = some s' → s'.Failed call → s'.turn = s.turn := by
  have inTurn := reached.invariant (Scheduler.step expected) (P := InTurn expected)
    (fun _ _ _ inTurn stepped => inTurn.step scheduled stepped) (.start expected)
  refine ⟨?_, inTurn.alone, fun call s' => failed_turn⟩
  rw [inTurn.admitted]
  exact List.take_prefix _ _

/-- Two threads, the second of which waits for the first. -/
def twoTurns : List ScheduleEntry := [⟨"CALL", "a"⟩, ⟨"LINE", "b"⟩]

theorem turns_follow_schedule_demo : ∃ s : Scheduler Bool,
    Reachable (Scheduler.step twoTurns) Scheduler.start s ∧ s.phases true = .inside ∧
      s.admitted <+: scheduledPairs twoTurns := by
  have reached : Reachable (Scheduler.step twoTurns) (Scheduler.start : Scheduler Bool) _ :=
    ⟨[.before true "LINE" "b" .sleeps, .before false "METHOD_ENTER" "a" .sleeps, .wakes true .sleeps,
      .after false, .wakes true .sleeps], rfl⟩
  exact ⟨_, reached, rfl, (turns_follow_schedule (by decide) reached).1⟩

/-- Without entries the scheduler is off: two threads are inside at once. -/
theorem empty_schedule_admits_all : ∃ s : Scheduler Bool,
    Reachable (Scheduler.step []) Scheduler.start s ∧ s.phases true = .inside ∧
      s.phases false = .inside ∧ ¬ s.admitted <+: scheduledPairs [] :=
  ⟨_, ⟨[.before true "LINE" "b" .sleeps, .before false "CALL" "a" .sleeps], rfl⟩, rfl, rfl, by decide⟩

end Walaru.Agent
