import Mathlib.Data.List.Nodup
import Walaru.Source.Client.LiveScheduler

/-!
# What the operations of the live scheduler change

The runs that were started, the reports and the last shown state are read off the callbacks.
A change, a pause and a disposal raise the flag of the active run; a start adds a run; a run
that settles reports or says nothing.
-/
namespace Walaru.Client

variable {Snapshot : Type} {s t : LiveScheduler Snapshot} {event : LiveEvent Snapshot}

def Callback.starts : Callback Snapshot → Bool
  | .run _ _ => true
  | _ => false

def Callback.reports : Callback Snapshot → Bool
  | .onResult _ _ | .onError _ _ => true
  | _ => false

def Callback.status : Callback Snapshot → Option LiveStatus
  | .onState state => some state.state
  | _ => none

namespace LiveScheduler

/-- The generation of every run so far. -/
def started (s : LiveScheduler Snapshot) : List Nat :=
  (s.calls.filter fun call => call.callback.starts).map Call.generation

/-- Every call of `onResult` or `onError` so far. -/
def reported (s : LiveScheduler Snapshot) : List (Call Snapshot) :=
  s.calls.filter fun call => call.callback.reports

/-- The last reported state. -/
def lastStatus (s : LiveScheduler Snapshot) : Option LiveStatus :=
  (s.calls.filterMap fun call => call.callback.status).getLast?

section Effects
variable (s : LiveScheduler Snapshot) (callback : Callback Snapshot) (generation : Nat)

@[simp] theorem call_generation : (s.call callback generation).generation = s.generation := rfl
@[simp] theorem call_timer : (s.call callback generation).timer = s.timer := rfl
@[simp] theorem call_active : (s.call callback generation).active = s.active := rfl
@[simp] theorem call_pending : (s.call callback generation).pending = s.pending := rfl
@[simp] theorem call_paused : (s.call callback generation).paused = s.paused := rfl
@[simp] theorem call_disposed : (s.call callback generation).disposed = s.disposed := rfl
@[simp] theorem call_awaited : (s.call callback generation).awaited = s.awaited := rfl
@[simp] theorem call_controllers : (s.call callback generation).controllers = s.controllers := rfl

@[simp] theorem started_call :
    (s.call callback generation).started =
      s.started ++ if callback.starts then [generation] else [] := by
  unfold started call
  rw [List.filter_append, List.map_append, List.filter_singleton]
  split <;> simp_all

@[simp] theorem reported_call :
    (s.call callback generation).reported =
      s.reported ++ if callback.reports then
        [⟨callback, generation, s.generation, s.paused, s.disposed⟩] else [] := by
  unfold reported call
  rw [List.filter_append, List.filter_singleton]
  cases callback.reports <;> rfl

@[simp] theorem lastStatus_call :
    (s.call callback generation).lastStatus = callback.status.or s.lastStatus := by
  unfold lastStatus call
  rw [List.filterMap_append]
  cases seen : callback.status <;> simp [seen]

end Effects

@[simp] theorem call_reportState (s : LiveScheduler Snapshot) (state : LiveStatus) (generation : Nat)
    (reason : String) : s.reportState state generation reason =
      s.call (.onState ⟨state, generation, reason, none, none⟩) generation := rfl

/-- The second state differs from the first at most in its runs' flags: those of the active
run's controller are raised, and nothing is started, reported or shown. -/
structure Aborted (s t : LiveScheduler Snapshot) : Prop where
  generation : t.generation = s.generation
  timer : t.timer = s.timer
  active : t.active = s.active
  pending : t.pending = s.pending
  paused : t.paused = s.paused
  disposed : t.disposed = s.disposed
  controllers : t.controllers = s.controllers
  started : t.started = s.started
  reported : t.reported = s.reported
  generations : t.awaited.map AwaitedRun.generation = s.awaited.map AwaitedRun.generation
  numbers : t.awaited.map AwaitedRun.controller = s.awaited.map AwaitedRun.controller
  spared : ∀ run ∈ t.awaited, run.aborted = false →
    run ∈ s.awaited ∧ ∀ active ∈ s.active, active.controller ≠ run.controller

theorem aborted_abortActive (s : LiveScheduler Snapshot) : Aborted s s.abortActive := by
  unfold abortActive
  split
  · rename_i idle
    exact ⟨rfl, rfl, rfl, rfl, rfl, rfl, rfl, rfl, rfl, rfl, rfl, fun run member _ =>
      ⟨member, by simp [idle]⟩⟩
  · rename_i active running
    refine ⟨rfl, rfl, rfl, rfl, rfl, rfl, rfl, rfl, rfl, ?_, ?_, ?_⟩
    · rw [List.map_map]
      apply List.map_congr_left
      intro run _
      simp only [Function.comp_apply]
      split <;> rfl
    · rw [List.map_map]
      apply List.map_congr_left
      intro run _
      simp only [Function.comp_apply]
      split <;> rfl
    · intro run member unaborted
      obtain ⟨before, present, rfl⟩ := List.mem_map.mp member
      split at unaborted
      · cases unaborted
      · rename_i other
        rw [if_neg other]
        refine ⟨present, fun found same => ?_⟩
        rw [Option.mem_def] at same
        rw [running] at same
        cases same
        exact fun equal => other equal.symm

theorem aborted_abortWork (s : LiveScheduler Snapshot) : Aborted s s.abortWork := by
  unfold abortWork
  split
  · have aborted := aborted_abortActive s
    exact { aborted with
      started := by simpa [Callback.starts] using aborted.started
      reported := by simpa [Callback.reports] using aborted.reported }
  · rename_i idle
    have none_ : s.active = none := by simpa using idle
    exact ⟨rfl, rfl, rfl, rfl, rfl, rfl, rfl, rfl, rfl, rfl, rfl, fun run member _ =>
      ⟨member, by simp [none_]⟩⟩

theorem Aborted.call {s t : LiveScheduler Snapshot} (aborted : Aborted s t)
    (callback : Callback Snapshot) (generation : Nat) (silent : callback.starts = false)
    (state : callback.reports = false) : Aborted s (t.call callback generation) :=
  { aborted with
    started := by simpa [silent] using aborted.started
    reported := by simpa [state] using aborted.reported }

theorem aborted_pause (s : LiveScheduler Snapshot) :
    Aborted { s with paused := true, timer := none } s.pause :=
  (aborted_abortWork { s with paused := true, timer := none }).call _ _ rfl rfl

theorem aborted_dispose (s : LiveScheduler Snapshot) :
    Aborted { s with disposed := true, timer := none } s.dispose :=
  aborted_abortActive { s with disposed := true, timer := none }

/-- A change is a new generation with its own timer, unless the scheduler is paused. -/
theorem aborted_schedule {s : LiveScheduler Snapshot} (live : s.disposed = false)
    (snapshot : Snapshot) (reason : String) :
    Aborted { s with
      generation := s.generation + 1
      pending := some ⟨s.generation + 1, snapshot, reason⟩
      timer := if s.paused then none else some (s.generation + 1) } (s.schedule snapshot reason) := by
  have aborted := aborted_abortWork { s with
    generation := s.generation + 1
    pending := some ⟨s.generation + 1, snapshot, reason⟩
    timer := none }
  cases held : s.paused with
  | true =>
    have announced : s.schedule snapshot reason = ({ s with
        generation := s.generation + 1
        pending := some ⟨s.generation + 1, snapshot, reason⟩
        timer := none } : LiveScheduler Snapshot).abortWork.reportState .paused (s.generation + 1)
          reason := by
      simp [schedule, live, held, (aborted_abortWork _).paused]
    rw [announced, ← held]
    have told := aborted.call (.onState ⟨.paused, s.generation + 1, reason, none, none⟩)
      (s.generation + 1) rfl rfl
    exact { told with timer := by simpa [held] using told.timer }
  | false =>
    have announced : s.schedule snapshot reason = { ({ s with
        generation := s.generation + 1
        pending := some ⟨s.generation + 1, snapshot, reason⟩
        timer := none } : LiveScheduler Snapshot).abortWork.reportState .queued (s.generation + 1)
          reason with timer := some (s.generation + 1) } := by
      simp [schedule, live, held, (aborted_abortWork _).paused]
    rw [announced, ← held]
    have told := aborted.call (.onState ⟨.queued, s.generation + 1, reason, none, none⟩)
      (s.generation + 1) rfl rfl
    exact { told with timer := by simp [held] }

/-- A new run of the newest generation, which becomes the active one. -/
structure Launched (s t : LiveScheduler Snapshot) : Prop where
  generation : t.generation = s.generation
  timer : t.timer = s.timer
  pending : t.pending = s.pending
  paused : t.paused = s.paused
  disposed : t.disposed = s.disposed
  active : t.active = some ⟨s.generation, s.controllers⟩
  controllers : t.controllers = s.controllers + 1
  awaited : ∃ reason, t.awaited = s.awaited ++ [⟨s.generation, s.controllers, reason, false⟩]
  started : t.started = s.started ++ [s.generation]
  reported : t.reported = s.reported
  status : t.lastStatus = some .running

theorem launched_start {s : LiveScheduler Snapshot} {pending : Pending Snapshot}
    (changed : s.pending = some pending) (newest : pending.generation = s.generation)
    (running : s.paused = false) (live : s.disposed = false) : Launched s (s.start s.generation) := by
  unfold start
  rw [changed]
  dsimp only
  rw [if_neg (by simp [running, live, newest])]
  refine ⟨rfl, rfl, changed.symm ▸ rfl, rfl, rfl, rfl, rfl, ⟨_, rfl⟩, ?_, ?_, ?_⟩
  · change (((LiveScheduler.reportState _ _ _ _).call _ _).started) = _
    simp only [call_reportState, started_call]
    simp [Callback.starts, started]
  · change (((LiveScheduler.reportState _ _ _ _).call _ _).reported) = _
    simp only [call_reportState, reported_call]
    simp [Callback.reports, reported]
  · change (((LiveScheduler.reportState _ _ _ _).call _ _).lastStatus) = _
    simp [Callback.status]

/-- The run is of the newest generation and was not aborted. -/
def Current (s : LiveScheduler Snapshot) (run : AwaitedRun) : Prop :=
  run.generation = s.generation ∧ run.aborted = false

/-- The result cannot be counted, so that what follows its report throws. -/
def Uncountable (completion : Completion) : Prop :=
  ∃ result, completion = .resolved result ∧ ∃ error, errorCount result = .error error

/-- A rejection that leaves the shown state as it is: one that looks like an abort, or one
whose message cannot be read. -/
def Lost (completion : Completion) : Prop :=
  ∃ error, completion = .rejected error ∧
    (error = none ∨ error.bind LiveError.name = some "AbortError")

/-- What a settling run changes, whether or not it reports. -/
structure Released (s t : LiveScheduler Snapshot) (run : AwaitedRun) : Prop where
  generation : t.generation = s.generation
  timer : t.timer = s.timer
  paused : t.paused = s.paused
  disposed : t.disposed = s.disposed
  controllers : t.controllers = s.controllers
  started : t.started = s.started
  awaited : t.awaited = s.awaited.erase run
  active : t.active = s.active ∨ t.active = none ∧ ∃ active ∈ s.active, active.generation = run.generation

/-- The settling run says nothing. -/
structure Silent (s t : LiveScheduler Snapshot) : Prop where
  pending : t.pending = s.pending
  reported : t.reported = s.reported
  status : t.lastStatus = s.lastStatus

/-- The settling run is current and reports, twice when its result cannot be counted. -/
structure Told (s t : LiveScheduler Snapshot) (run : AwaitedRun) (completion : Completion)
    (told : List (Call Snapshot)) : Prop where
  current : Current s run
  pending : t.pending = none
  reported : t.reported = s.reported ++ told
  about : ∀ call ∈ told, call.generation = run.generation ∧ call.newest = s.generation ∧
    call.paused = s.paused ∧ call.disposed = s.disposed
  once : ¬ Uncountable completion ∧ told.length = 1 ∨ Uncountable completion ∧ told.length = 2
  status : Lost completion ∧ t.lastStatus = s.lastStatus ∨
    ¬ Lost completion ∧ t.lastStatus ≠ some .running

theorem terminalState_ne_running (result : Json) : terminalState result ≠ .running := by
  unfold terminalState
  split
  · simp
  · split <;> simp

theorem not_lost_resolved {result : Json} : ¬ Lost (.resolved result) := by
  rintro ⟨error, equal, -⟩
  cases equal

theorem not_uncountable_rejected {error : Option LiveError} : ¬ Uncountable (.rejected error) := by
  rintro ⟨result, equal, -⟩
  cases equal

/-- The `catch` says nothing of a run that is not current or of an abort, and else reports
the error. -/
theorem caught_cases (s : LiveScheduler Snapshot) (run : AwaitedRun) (error : Option LiveError) :
    (s.caught run error = s ∧
      (¬ Current s run ∨ error.bind LiveError.name = some "AbortError")) ∨
    ∃ call : Call Snapshot, Told s (s.caught run error) run (.rejected error) [call] := by
  unfold caught
  by_cases other : run.generation ≠ s.generation ∨ run.aborted = true ∨
      error.bind LiveError.name = some "AbortError"
  · rw [if_pos other]
    refine .inl ⟨rfl, ?_⟩
    rcases other with old | aborted | named
    · exact .inl fun current => old current.1
    · exact .inl fun current => by simp [current.2] at aborted
    · exact .inr named
  · rw [if_neg other]
    simp only [not_or, ne_eq, not_not, Bool.not_eq_true] at other
    obtain ⟨newest, spared, named⟩ := other
    refine .inr ⟨⟨.onError error run.reason, run.generation, s.generation, s.paused, s.disposed⟩, ?_⟩
    cases error with
    | none =>
      refine ⟨⟨newest, spared⟩, rfl, ?_, by simp, .inl ⟨not_uncountable_rejected, rfl⟩, .inl ⟨?_, ?_⟩⟩
      · rw [reported_call]
        rfl
      · exact ⟨none, rfl, .inl rfl⟩
      · rw [lastStatus_call]
        rfl
    | some error =>
      refine ⟨⟨newest, spared⟩, rfl, ?_, by simp, .inl ⟨not_uncountable_rejected, rfl⟩, .inr ⟨?_, ?_⟩⟩
      · rw [reported_call, reported_call]
        exact List.append_nil _
      · rintro ⟨other, equal, lost⟩
        cases equal
        rcases lost with none_ | aborted
        · cases none_
        · exact named aborted
      · rw [lastStatus_call]
        simp [Callback.status]

theorem complete_cases (s : LiveScheduler Snapshot) (run : AwaitedRun) (completion : Completion) :
    (s.complete run completion = s ∧
      (¬ Current s run ∨ s.disposed = true ∨ Lost completion)) ∨
    ∃ told, Told s (s.complete run completion) run completion told := by
  cases completion with
  | rejected error =>
    rcases caught_cases s run error with ⟨same, silent⟩ | ⟨call, told⟩
    · refine .inl ⟨same, silent.imp_right fun named => .inr ⟨error, rfl, .inr named⟩⟩
    · exact .inr ⟨[call], told⟩
  | resolved result =>
    unfold complete
    dsimp only
    by_cases other : run.generation ≠ s.generation ∨ run.aborted = true ∨ s.disposed = true
    · rw [if_pos other]
      refine .inl ⟨rfl, ?_⟩
      rcases other with old | aborted | disposed
      · exact .inl fun current => old current.1
      · exact .inl fun current => by simp [current.2] at aborted
      · exact .inr (.inl disposed)
    · rw [if_neg other]
      simp only [not_or, ne_eq, not_not, Bool.not_eq_true] at other
      obtain ⟨newest, spared, live⟩ := other
      refine .inr ?_
      cases counted : errorCount result with
      | ok failures =>
        refine ⟨[⟨.onResult result run.reason, run.generation, s.generation, s.paused, s.disposed⟩],
          ⟨newest, spared⟩, rfl, ?_, by simp, .inl ⟨?_, rfl⟩, .inr ⟨not_lost_resolved, ?_⟩⟩
        · rw [reported_call, reported_call]
          exact List.append_nil _
        · rintro ⟨other, equal, error, threw⟩
          cases equal
          rw [counted] at threw
          cases threw
        · rw [lastStatus_call]
          simp [Callback.status, terminalState_ne_running]
      | error error =>
        have typed : error.name = some "TypeError" := by
          unfold errorCount at counted
          split at counted
          · cases counted
          · cases counted
          · split at counted
            · cases counted
              rfl
            · cases counted
          · cases counted
            rfl
        rcases caught_cases (({ s with pending := none }).call (.onResult result run.reason)
          run.generation) run (some error) with ⟨-, silent⟩ | ⟨call, told⟩
        · exfalso
          rcases silent with old | named
          · exact old ⟨newest, spared⟩
          · simp [typed] at named
        · refine ⟨⟨.onResult result run.reason, run.generation, s.generation, s.paused, s.disposed⟩ ::
            [call], ⟨newest, spared⟩, told.pending, ?_, ?_, .inr ⟨⟨result, rfl, error, counted⟩, rfl⟩,
            .inr ⟨not_lost_resolved, ?_⟩⟩
          · rw [told.reported, reported_call]
            exact List.append_assoc _ _ _
          · intro other member
            rcases List.mem_cons.mp member with rfl | rest
            · exact ⟨rfl, rfl, rfl, rfl⟩
            · exact told.about other rest
          · rcases told.status with ⟨⟨other, equal, lost⟩, -⟩ | ⟨-, shown⟩
            · cases equal
              simp [typed] at lost
            · exact shown

/-- What no continuation of a run changes. -/
structure Framed (s t : LiveScheduler Snapshot) : Prop where
  generation : t.generation = s.generation
  timer : t.timer = s.timer
  paused : t.paused = s.paused
  disposed : t.disposed = s.disposed
  controllers : t.controllers = s.controllers
  started : t.started = s.started
  awaited : t.awaited = s.awaited
  active : t.active = s.active

theorem Framed.refl (s : LiveScheduler Snapshot) : Framed s s := ⟨rfl, rfl, rfl, rfl, rfl, rfl, rfl, rfl⟩

theorem Framed.unpend {s t : LiveScheduler Snapshot} (framed : Framed s t) :
    Framed s { t with pending := none } :=
  ⟨framed.generation, framed.timer, framed.paused, framed.disposed, framed.controllers,
    framed.started, framed.awaited, framed.active⟩

theorem Framed.call {s t : LiveScheduler Snapshot} (framed : Framed s t) (callback : Callback Snapshot)
    (generation : Nat) (silent : callback.starts = false) : Framed s (t.call callback generation) :=
  { framed with started := by simpa [silent] using framed.started }

theorem Framed.caught {s t : LiveScheduler Snapshot} (framed : Framed s t) (run : AwaitedRun)
    (error : Option LiveError) : Framed s (t.caught run error) := by
  unfold LiveScheduler.caught
  split
  · exact framed
  · cases error with
    | none => exact framed.unpend.call _ _ rfl
    | some error => exact (framed.unpend.call _ _ rfl).call _ _ rfl

theorem framed_complete (s : LiveScheduler Snapshot) (run : AwaitedRun) (completion : Completion) :
    Framed s (s.complete run completion) := by
  unfold complete
  cases completion with
  | rejected error => exact (Framed.refl s).caught run error
  | resolved result =>
    dsimp only
    split
    · exact .refl s
    · have told := (Framed.refl s).unpend.call (.onResult result run.reason) run.generation rfl
      split
      · exact told.caught run _
      · exact told.call _ _ rfl

/-- How a run settles. -/
theorem settle_cases (s : LiveScheduler Snapshot) (run : AwaitedRun) (completion : Completion) :
    Released s (s.settle run completion) run ∧
      (Silent s (s.settle run completion) ∧
          (¬ Current s run ∨ s.disposed = true ∨ Lost completion) ∨
        ∃ told, Told s (s.settle run completion) run completion told) := by
  have framed := framed_complete { s with awaited := s.awaited.erase run } run completion
  have cases_ := complete_cases { s with awaited := s.awaited.erase run } run completion
  unfold settle
  generalize ({ s with awaited := s.awaited.erase run } : LiveScheduler Snapshot).complete run completion =
    t at framed cases_
  have others : (t.release run.generation).calls = t.calls ∧ (t.release run.generation).pending = t.pending := by
    unfold release
    split <;> exact ⟨rfl, rfl⟩
  constructor
  · unfold release
    split
    · rename_i same
      refine ⟨framed.generation, framed.timer, framed.paused, framed.disposed, framed.controllers,
        framed.started, framed.awaited, .inr ⟨rfl, ?_⟩⟩
      rw [framed.active, Option.any_eq_true] at same
      obtain ⟨active, running, equal⟩ := same
      exact ⟨active, running, of_decide_eq_true equal⟩
    · exact ⟨framed.generation, framed.timer, framed.paused, framed.disposed, framed.controllers,
        framed.started, framed.awaited, .inl framed.active⟩
  · rcases cases_ with ⟨same, silent⟩ | ⟨told, telling⟩
    · refine .inl ⟨⟨?_, ?_, ?_⟩, silent⟩
      · rw [others.2, same]
      · rw [reported, others.1, same, reported]
      · rw [lastStatus, others.1, same, lastStatus]
    · refine .inr ⟨told, telling.current, ?_, ?_, telling.about, telling.once, ?_⟩
      · rw [others.2, telling.pending]
      · rw [reported, others.1]
        exact telling.reported
      · rw [lastStatus, others.1]
        exact telling.status

/-- What holds of the counters and the timer in every run: generations grow, what is pending
is the newest, and an armed timer belongs to it before it has been started. -/
structure Ordered (s : LiveScheduler Snapshot) : Prop where
  started : ∀ generation ∈ s.started, generation ≤ s.generation
  pending : ∀ pending ∈ s.pending, pending.generation = s.generation
  timer : ∀ generation ∈ s.timer, generation = s.generation ∧ generation ∉ s.started ∧
    s.pending.isSome ∧ s.paused = false ∧ s.disposed = false
  awaited : (s.awaited.map AwaitedRun.generation).Sublist s.started
  numbers : (s.awaited.map AwaitedRun.controller).Nodup
  controllers : ∀ run ∈ s.awaited, run.controller < s.controllers
  reported : ∀ call ∈ s.reported, call.generation ∈ s.started

/-- A paused scheduler that runs again without anything to do. -/
structure Woken (s t : LiveScheduler Snapshot) : Prop where
  generation : t.generation = s.generation
  timer : t.timer = s.timer
  active : t.active = s.active
  pending : t.pending = s.pending
  paused : t.paused = false
  disposed : t.disposed = s.disposed
  awaited : t.awaited = s.awaited
  controllers : t.controllers = s.controllers
  started : t.started = s.started
  reported : t.reported = s.reported
  idle : s.disposed = true ∨ s.pending = none ∧ t.lastStatus = some .idle

/-- The state after a change, before the active run is aborted; `held` says whether the
scheduler is paused by then. -/
def changed (s : LiveScheduler Snapshot) (held : Bool) (snapshot : Snapshot) (reason : String) :
    LiveScheduler Snapshot :=
  { s with
    paused := held
    generation := s.generation + 1
    pending := some ⟨s.generation + 1, snapshot, reason⟩
    timer := if held then none else some (s.generation + 1) }

/-- Everything that a step can do. -/
inductive Moved (s : LiveScheduler Snapshot) :
    LiveEvent Snapshot → LiveScheduler Snapshot → Prop where
  | same {event : LiveEvent Snapshot} : Moved s event s
  | superseded {event : LiveEvent Snapshot} {t : LiveScheduler Snapshot} (held : Bool)
      (snapshot : Snapshot) (reason : String) (live : s.disposed = false)
      (aborted : Aborted (s.changed held snapshot reason) t) : Moved s event t
  | paused {event : LiveEvent Snapshot} {t : LiveScheduler Snapshot}
      (aborted : Aborted { s with paused := true, timer := none } t) : Moved s event t
  | disposed {event : LiveEvent Snapshot} {t : LiveScheduler Snapshot}
      (aborted : Aborted { s with disposed := true, timer := none } t) : Moved s event t
  | woken {event : LiveEvent Snapshot} {t : LiveScheduler Snapshot} (held : s.paused = true)
      (woken : Woken s t) : Moved s event t
  | launched {event : LiveEvent Snapshot} {t : LiveScheduler Snapshot}
      (changed : s.pending.isSome) (running : s.paused = false) (live : s.disposed = false)
      (asked : event = .flush ∨ s.generation ∉ s.started)
      (launched : Launched { s with timer := none } t) : Moved s event t
  | settled {t : LiveScheduler Snapshot} (run : AwaitedRun) (completion : Completion)
      (awaited : run ∈ s.awaited) (released : Released s t run)
      (result : Silent s t ∧ (¬ Current s run ∨ s.disposed = true ∨ Lost completion) ∨
        ∃ told, Told s t run completion told) :
      Moved s (.settled run.controller completion) t

theorem moved_schedule (s : LiveScheduler Snapshot) (snapshot : Snapshot) (reason : String)
    (event : LiveEvent Snapshot) : Moved s event (s.schedule snapshot reason) := by
  cases live : s.disposed with
  | true =>
    rw [schedule, if_pos live]
    exact .same
  | false => exact .superseded s.paused snapshot reason live (aborted_schedule live snapshot reason)

theorem moved_resume (s : LiveScheduler Snapshot) : Moved s .resume s.resume := by
  unfold resume
  split
  · rename_i held
    dsimp only
    split
    · rename_i pending _
      by_cases live : s.disposed = true
      · rw [schedule, if_pos live]
        exact .woken held ⟨rfl, rfl, rfl, rfl, rfl, rfl, rfl, rfl, rfl, rfl, .inl live⟩
      · rw [Bool.not_eq_true] at live
        exact .superseded false pending.snapshot "resume" live
          (aborted_schedule (s := { s with paused := false }) live pending.snapshot "resume")
    · rename_i idle
      refine .woken held ⟨rfl, rfl, rfl, rfl, rfl, rfl, rfl, rfl, ?_, ?_, .inr ⟨idle, ?_⟩⟩
      · rw [call_reportState, started_call]
        exact List.append_nil _
      · rw [call_reportState, reported_call]
        exact List.append_nil _
      · rw [call_reportState, lastStatus_call]
        rfl
  · exact .same

/-- A flush that is not held starts the newest generation. -/
theorem launched_flush (ordered : Ordered s) (changed : s.pending.isSome)
    (running : s.paused = false) (live : s.disposed = false) :
    Launched { s with timer := none } s.flush := by
  obtain ⟨pending, found⟩ := Option.isSome_iff_exists.mp changed
  have newest := ordered.pending pending found
  have flushed : s.flush = { s with timer := none }.start s.generation := by
    simp [flush, found, running, live, newest]
  rw [flushed]
  exact launched_start (s := { s with timer := none }) found newest running live

theorem moved_flush (ordered : Ordered s) : Moved s .flush s.flush := by
  by_cases held : s.pending.isSome = true ∧ s.paused = false ∧ s.disposed = false
  · obtain ⟨changed, running, live⟩ := held
    exact .launched changed running live (.inl rfl) (launched_flush ordered changed running live)
  · have same : s.flush = s := by
      unfold flush
      split
      · rfl
      · rename_i pending found
        rw [if_pos]
        by_contra awake
        simp only [not_or, Bool.not_eq_true] at awake
        exact held ⟨by simp [found], awake⟩
    rw [same]
    exact .same

theorem moved_timer (ordered : Ordered s) {generation : Nat} (armed : s.timer = some generation) :
    Moved s .timer ({ s with timer := none }.start generation) := by
  obtain ⟨rfl, fresh, pending, running, live⟩ := ordered.timer generation armed
  obtain ⟨pending, found⟩ := Option.isSome_iff_exists.mp pending
  have started := launched_start (s := { s with timer := none }) found (ordered.pending pending found)
    running live
  exact .launched (by simp [found]) running live (.inr fresh) started

/-- A controller belongs to one awaited run. -/
theorem step_settled (ordered : Ordered s) {run : AwaitedRun} (member : run ∈ s.awaited)
    (completion : Completion) :
    s.step (.settled run.controller completion) = some (s.settle run completion) := by
  have found : (s.awaited.find? fun other => other.controller = run.controller) = some run := by
    cases found : s.awaited.find? fun other => other.controller = run.controller with
    | none => simpa using List.find?_eq_none.mp found run member
    | some other =>
      have same : other.controller = run.controller := by simpa using List.find?_some found
      rw [List.inj_on_of_nodup_map ordered.numbers (List.mem_of_find?_eq_some found) member same]
  simp [step, found]

theorem moved_step (ordered : Ordered s) (stepped : s.step event = some t) : Moved s event t := by
  cases event with
  | schedule snapshot reason =>
    cases stepped
    exact moved_schedule s snapshot reason _
  | flush =>
    cases stepped
    exact moved_flush ordered
  | pause =>
    cases stepped
    exact .paused (aborted_pause s)
  | resume =>
    cases stepped
    exact moved_resume s
  | dispose =>
    cases stepped
    exact .disposed (aborted_dispose s)
  | timer =>
    obtain ⟨generation, armed, rfl⟩ := Option.map_eq_some_iff.mp stepped
    exact moved_timer ordered armed
  | settled controller completion =>
    obtain ⟨run, found, rfl⟩ := Option.map_eq_some_iff.mp stepped
    have same : run.controller = controller := by simpa using List.find?_some found
    subst same
    have cases_ := settle_cases s run completion
    exact .settled run completion (List.mem_of_find?_eq_some found) cases_.1 cases_.2

theorem Ordered.initial : Ordered (LiveScheduler.initial : LiveScheduler Snapshot) := by
  refine ⟨?_, ?_, ?_, List.Sublist.refl [], List.nodup_nil, ?_, ?_⟩
  · exact fun _ ran => absurd ran List.not_mem_nil
  · exact fun _ found => nomatch found
  · exact fun _ armed => nomatch armed
  · exact fun _ member => absurd member List.not_mem_nil
  · exact fun _ told => absurd told List.not_mem_nil

theorem Ordered.aborted (ordered : Ordered s) (aborted : Aborted s t) : Ordered t where
  started generation ran := by
    rw [aborted.started] at ran
    rw [aborted.generation]
    exact ordered.started generation ran
  pending pending found := by
    rw [aborted.pending] at found
    rw [aborted.generation]
    exact ordered.pending pending found
  timer generation armed := by
    rw [aborted.timer] at armed
    rw [aborted.generation, aborted.started, aborted.pending, aborted.paused, aborted.disposed]
    exact ordered.timer generation armed
  awaited := by
    rw [aborted.generations, aborted.started]
    exact ordered.awaited
  numbers := by
    rw [aborted.numbers]
    exact ordered.numbers
  controllers run member := by
    have numbered := List.mem_map_of_mem (f := AwaitedRun.controller) member
    rw [aborted.numbers] at numbered
    obtain ⟨before, present, same⟩ := List.mem_map.mp numbered
    rw [aborted.controllers, ← same]
    exact ordered.controllers before present
  reported call told := by
    rw [aborted.reported] at told
    rw [aborted.started]
    exact ordered.reported call told

theorem Ordered.changed (ordered : Ordered s) (live : s.disposed = false) (held : Bool)
    (snapshot : Snapshot) (reason : String) : Ordered (s.changed held snapshot reason) where
  started generation ran := Nat.le_succ_of_le (ordered.started generation ran)
  pending pending found := by
    cases found
    rfl
  timer generation armed := by
    cases held with
    | true => cases armed
    | false =>
      cases armed
      refine ⟨rfl, fun ran => ?_, rfl, rfl, live⟩
      have old := ordered.started _ ran
      omega
  awaited := ordered.awaited
  numbers := ordered.numbers
  controllers := ordered.controllers
  reported := ordered.reported

theorem Ordered.untimed (ordered : Ordered s) (paused disposed : Bool) :
    Ordered { s with paused := paused, disposed := disposed, timer := none } :=
  ⟨ordered.started, ordered.pending, (fun _ armed => nomatch armed), ordered.awaited,
    ordered.numbers, ordered.controllers, ordered.reported⟩

theorem Ordered.woken (ordered : Ordered s) (held : s.paused = true) (woken : Woken s t) :
    Ordered t where
  started generation ran := by
    rw [woken.started] at ran
    rw [woken.generation]
    exact ordered.started generation ran
  pending pending found := by
    rw [woken.pending] at found
    rw [woken.generation]
    exact ordered.pending pending found
  timer generation armed := by
    rw [woken.timer] at armed
    have running := (ordered.timer generation armed).2.2.2.1
    rw [held] at running
    cases running
  awaited := by
    rw [woken.awaited, woken.started]
    exact ordered.awaited
  numbers := by
    rw [woken.awaited]
    exact ordered.numbers
  controllers := by
    rw [woken.awaited, woken.controllers]
    exact ordered.controllers
  reported := by
    rw [woken.reported, woken.started]
    exact ordered.reported

theorem Ordered.launched (ordered : Ordered s) (launched : Launched { s with timer := none } t) :
    Ordered t := by
  obtain ⟨reason, awaited⟩ := launched.awaited
  refine ⟨?_, ?_, ?_, ?_, ?_, ?_, ?_⟩
  · intro generation ran
    rw [launched.started] at ran
    rw [launched.generation]
    rcases List.mem_append.mp ran with before | now
    · exact ordered.started generation before
    · exact Nat.le_of_eq (List.mem_singleton.mp now)
  · intro pending found
    rw [launched.pending] at found
    rw [launched.generation]
    exact ordered.pending pending found
  · intro generation armed
    rw [launched.timer] at armed
    cases armed
  · rw [awaited, launched.started, List.map_append]
    exact ordered.awaited.append (.refl _)
  · rw [awaited, List.map_append]
    refine List.nodup_append.mpr ⟨ordered.numbers, by simp, ?_⟩
    intro controller before other now
    obtain ⟨run, present, rfl⟩ := List.mem_map.mp before
    have less := ordered.controllers run present
    have same : other = s.controllers := List.mem_singleton.mp now
    omega
  · intro run member
    rw [awaited] at member
    rw [launched.controllers]
    rcases List.mem_append.mp member with before | now
    · exact Nat.lt_succ_of_lt (ordered.controllers run before)
    · rw [List.mem_singleton.mp now]
      exact Nat.lt_succ_self _
  · intro call told
    rw [launched.reported] at told
    rw [launched.started]
    exact List.mem_append_left _ (ordered.reported call told)

theorem Released.mem {run other : AwaitedRun} (released : Released s t run)
    (member : other ∈ t.awaited) : other ∈ s.awaited := by
  rw [released.awaited] at member
  exact List.mem_of_mem_erase member

theorem Ordered.generation_mem (ordered : Ordered s) {run : AwaitedRun} (member : run ∈ s.awaited) :
    run.generation ∈ s.started :=
  ordered.awaited.subset (List.mem_map_of_mem member)

theorem Ordered.settled (ordered : Ordered s) {run : AwaitedRun} {completion : Completion}
    (member : run ∈ s.awaited) (released : Released s t run)
    (result : Silent s t ∨ ∃ told, Told s t run completion told) : Ordered t := by
  have kept : t.awaited.Sublist s.awaited := by
    rw [released.awaited]
    exact List.erase_sublist
  refine ⟨?_, ?_, ?_, ?_, ordered.numbers.sublist (kept.map _), ?_, ?_⟩
  · rw [released.started, released.generation]
    exact ordered.started
  · intro pending found
    rw [released.generation]
    rcases result with silent | ⟨told, telling⟩
    · rw [silent.pending] at found
      exact ordered.pending pending found
    · rw [telling.pending] at found
      cases found
  · intro generation armed
    rw [released.timer] at armed
    have timed := ordered.timer generation armed
    rw [released.generation, released.started, released.paused, released.disposed]
    rcases result with silent | ⟨told, telling⟩
    · rw [silent.pending]
      exact timed
    · have ran := ordered.generation_mem member
      rw [telling.current.1, ← timed.1] at ran
      exact absurd ran timed.2.1
  · rw [released.started]
    exact (kept.map _).trans ordered.awaited
  · intro other present
    rw [released.controllers]
    exact ordered.controllers other (kept.subset present)
  · intro call reports
    rw [released.started]
    rcases result with silent | ⟨told, telling⟩
    · rw [silent.reported] at reports
      exact ordered.reported call reports
    · rw [telling.reported] at reports
      rcases List.mem_append.mp reports with before | now
      · exact ordered.reported call before
      · rw [(telling.about call now).1]
        exact ordered.generation_mem member

theorem Ordered.step (ordered : Ordered s) (stepped : s.step event = some t) : Ordered t := by
  cases moved_step ordered stepped with
  | same => exact ordered
  | superseded held snapshot reason live aborted =>
    exact (ordered.changed live held snapshot reason).aborted aborted
  | paused aborted => exact (ordered.untimed true s.disposed).aborted aborted
  | disposed aborted => exact (ordered.untimed s.paused true).aborted aborted
  | woken held woken => exact ordered.woken held woken
  | launched changed running live asked launched => exact ordered.launched launched
  | settled run completion awaited released result =>
    exact ordered.settled awaited released (result.imp_left And.left)

end LiveScheduler
end Walaru.Client
