import Walaru.Lib.Trace
import Walaru.Source.Daemon.Lifecycle

/-!
# One daemon at a time

What the start-up lock gives, whatever the clients and daemons interleave: when the lock
is only given up for a child that has bound the endpoint or is gone, at most one daemon
is bound to the endpoint and its socket file is never another's. The metadata file has
no such protection: a stopping daemon removes it after its socket, when a successor may
already have written its own.
-/
namespace Walaru.Startup
open Lib.Trace Machine

variable {C D : Type} {s s' : Machine C D} {c : C} {d : D} {answer : Answer D} {label : Label C D}

/-- The child of a holder that gives the lock up, by returning or by dying. -/
def givesUp (s : Machine C D) : Label C D → Option D
  | .client c _ =>
    match s.clients c with
    | .releasing child _ => child
    | _ => none
  | .crashClient c => (s.clients c).child
  | _ => none

/-- The lock is given up only when the daemon spawned under it is bound or gone. -/
def Settled (s : Machine C D) (label : Label C D) : Prop :=
  ∀ d ∈ givesUp s label, (s.daemons d).unbound = false

instance (s : Machine C D) (label : Label C D) : Decidable (Settled s label) :=
  inferInstanceAs (Decidable (∀ d ∈ givesUp s label, (s.daemons d).unbound = false))

/-- What the lock protects. -/
structure Guarded (s : Machine C D) : Prop where
  holder : ∀ c, (s.clients c).holds = true ↔ s.lock = some c
  child : ∀ d, (s.daemons d).unbound = true → ∃ c, s.lock = some c ∧ (s.clients c).child = some d
  vacant : ∀ d, s.daemons d = .removingSocket → s.connects = false
  cleared : ∀ d, (s.daemons d).cleared = true → s.socket = none
  owner : ∀ d, (s.daemons d).owns = true → s.socket = some d

theorem Machine.Initial.idle {p : DaemonPhase → Prop} (init : s.Initial) (absent : ¬ p .absent)
    (exited : ¬ p .exited) (d : D) : ¬ p (s.daemons d) := by
  rcases init.daemons d with phase | phase
  · exact phase ▸ absent
  · exact phase ▸ exited

theorem Guarded.initial (init : s.Initial) : Guarded s where
  holder c := by
    rw [init.clients c, init.lock]
    simp [ClientPhase.holds, Place.locked]
  child d alive := absurd alive (init.idle (p := (·.unbound = true)) nofun nofun d)
  vacant d removing := absurd removing (init.idle (p := (· = .removingSocket)) nofun nofun d)
  cleared d cleared := absurd cleared (init.idle (p := (·.cleared = true)) nofun nofun d)
  owner d owns := absurd owns (init.idle (p := (·.owns = true)) nofun nofun d)

/-- Only one daemon at a time has not bound the endpoint. -/
theorem Guarded.alone (guarded : Guarded s) {d e : D} (alive : (s.daemons d).unbound = true)
    (also : (s.daemons e).unbound = true) : d = e := by
  obtain ⟨c, held, child⟩ := guarded.child d alive
  obtain ⟨v, holds, spawned⟩ := guarded.child e also
  obtain rfl : c = v := Option.some.inj (held.symm.trans holds)
  exact Option.some.inj (child.symm.trans spawned)

theorem connects_eq_false (silent : s.connects = false) (socket : s'.socket = s.socket)
    (listens : ∀ d, (s'.daemons d).listens = true → (s.daemons d).listens = true) :
    s'.connects = false := by
  unfold connects at *
  rw [socket]
  cases file : s.socket with
  | none => rfl
  | some d =>
    simp only [file] at silent
    exact Bool.eq_false_iff.mpr fun open' => by simp [listens d open'] at silent

theorem connects_of_owns (guarded : Guarded s) {d : D} (owns : (s.daemons d).owns = true) :
    s.connects = true := by
  simp only [connects, guarded.owner d owns]
  exact DaemonPhase.listens_of_owns owns

/-- Every serving daemon's metadata file is its own. -/
def Attributed (s : Machine C D) : Prop := ∀ d, s.daemons d = .serving → s.metadata = some d

theorem Attributed.initial (init : s.Initial) : Attributed s := fun d serving =>
  absurd serving (init.idle (p := (· = .serving)) nofun nofun d)

/-- At most one daemon owns the endpoint, the socket file is its own, and the metadata file
is that of the daemon that serves. -/
structure OneDaemon (s : Machine C D) : Prop where
  alone : ∀ d e, (s.daemons d).owns = true → (s.daemons e).owns = true → d = e
  socket : ∀ d, (s.daemons d).owns = true → s.socket = some d
  metadata : ∀ d, s.daemons d = .serving → s.metadata = some d

theorem Guarded.oneDaemon (guarded : Guarded s) (attributed : Attributed s) : OneDaemon s where
  alone d e owns also :=
    Option.some.inj ((guarded.owner d owns).symm.trans (guarded.owner e also))
  socket := guarded.owner
  metadata := attributed

/-- A guard makes its second removal before a successor behind the socket serves. -/
def Spared (s : Machine C D) : Label C D → Prop
  | .daemon d answer => s.daemons d = .leavingMetadata → answer ≠ .fails →
    ∀ e ∈ s.socket, s.daemons e ≠ .serving
  | _ => True

section Daemons
variable [DecidableEq D]

theorem daemonStep_frame (stepped : s.daemonStep d answer = some s') :
    s'.clients = s.clients ∧ s'.lock = s.lock ∧ ∀ e, e ≠ d → s'.daemons e = s.daemons e := by
  simp only [daemonStep] at stepped
  split at stepped <;> (try split at stepped) <;> cases stepped <;>
    exact ⟨rfl, rfl, fun e other => Function.update_of_ne other _ _⟩

theorem daemonStep_unbound (stepped : s.daemonStep d answer = some s')
    (alive : (s'.daemons d).unbound = true) : (s.daemons d).unbound = true := by
  simp only [daemonStep] at stepped
  split at stepped <;> (try split at stepped) <;> cases stepped <;>
    simp only [move, Function.update_self] at * <;> grind [DaemonPhase.unbound]

/-- The socket file is removed by a daemon that found nobody behind it and by a guard, and
made by a bind that finds none. -/
theorem daemonStep_socket (stepped : s.daemonStep d answer = some s') :
    (s'.socket = s.socket ∧ ((s'.daemons d).owns = true → (s.daemons d).owns = true) ∧
        ((s'.daemons d).listens = true → (s.daemons d).listens = true)) ∨
      (s'.socket = none ∧ (s'.daemons d).owns = false ∧
        (s.daemons d = .removingSocket ∨ s.daemons d = .leaving)) ∨
      (s.daemons d = .binding ∧ s.socket = none ∧ s'.socket = some d) := by
  simp only [daemonStep] at stepped
  split at stepped <;> (try split at stepped) <;> cases stepped <;>
    simp only [move, Function.update_self] at * <;> grind [DaemonPhase.owns, DaemonPhase.listens]

theorem daemonStep_cleared (stepped : s.daemonStep d answer = some s')
    (cleared : (s'.daemons d).cleared = true) :
    s'.socket = none ∨ ((s.daemons d).cleared = true ∧ s'.socket = s.socket) := by
  simp only [daemonStep] at stepped
  split at stepped <;> (try split at stepped) <;> cases stepped <;>
    simp only [move, Function.update_self] at * <;> grind [DaemonPhase.cleared, Option.isSome_iff_ne_none]

theorem daemonStep_vacant (stepped : s.daemonStep d answer = some s')
    (removing : s'.daemons d = .removingSocket) :
    s.connects = false ∧ s'.socket = s.socket := by
  simp only [daemonStep] at stepped
  split at stepped <;> (try split at stepped) <;> cases stepped <;>
    simp only [move, Function.update_self] at * <;> grind

/-- The metadata file is removed by a daemon that clears the endpoint and by a guard, and
written once. -/
theorem daemonStep_metadata (stepped : s.daemonStep d answer = some s') :
    (s'.metadata = s.metadata ∧ (s'.daemons d = .serving → s.daemons d = .serving)) ∨
      (s'.metadata = none ∧ s'.daemons d ≠ .serving ∧
        ((s.daemons d).cleared = true ∨ s.daemons d = .leavingMetadata)) ∨
      (s.daemons d = .writing ∧ s'.metadata = some d) := by
  simp only [daemonStep] at stepped
  split at stepped <;> (try split at stepped) <;> cases stepped <;>
    simp only [move, Function.update_self] at * <;> grind [DaemonPhase.cleared]

theorem leavingMetadata_metadata {d : D} {answer : Answer D}
    (leaving : s.daemons d = .leavingMetadata) (moved : s.daemonStep d answer = some s') :
    s'.metadata = if answer = .fails then s.metadata else none := by
  simp only [daemonStep, leaving] at moved
  cases moved
  rfl

instance (s : Machine C D) : ∀ label, Decidable (Spared s label)
  | .daemon d answer =>
    inferInstanceAs (Decidable (s.daemons d = .leavingMetadata → answer ≠ .fails →
      ∀ e ∈ s.socket, s.daemons e ≠ .serving))
  | .client _ _ | .crashClient _ | .crashDaemon _ => .isTrue trivial

end Daemons

section Steps
variable [DecidableEq C] [DecidableEq D]

/-- A client leaves the files alone. It ends the child it waited for, or spawns one. -/
theorem clientStep_endpoint (stepped : s.clientStep c answer = some s') :
    s'.socket = s.socket ∧ s'.metadata = s.metadata ∧
      (s'.daemons = s.daemons ∨ (∃ d, s'.daemons = Function.update s.daemons d .exited) ∨
        ∃ d, s.clients c = .spawning ∧ s'.clients c = .looping d false ∧ s'.lock = s.lock ∧
          s.daemons d = .absent ∧ s'.daemons = Function.update s.daemons d .starting) := by
  simp only [clientStep] at stepped
  split at stepped
  case h_6 d phase =>
    cases stepped
    exact ⟨rfl, rfl, .inr (.inl ⟨d, rfl⟩)⟩
  case h_3 phase =>
    split at stepped
    · cases stepped
      exact ⟨rfl, rfl, .inl rfl⟩
    · rename_i d
      split at stepped
      · rename_i absent
        cases stepped
        exact ⟨rfl, rfl, .inr (.inr ⟨d, phase, Function.update_self .., rfl, absent, rfl⟩)⟩
      · cases stepped
    · cases stepped
  all_goals
    (repeat' split at stepped) <;> cases stepped <;> exact ⟨rfl, rfl, .inl rfl⟩

/-- A client takes the lock when it is free and gives it back once. -/
theorem clientStep_lock (stepped : s.clientStep c answer = some s') :
    (s'.lock = s.lock ∧ (s'.clients c).holds = (s.clients c).holds ∧
        (∀ d, (s.clients c).child = some d → (s'.clients c).child = some d)) ∨
      (s.lock = none ∧ s'.lock = some c ∧ (s'.clients c).holds = true) ∨
      (s'.lock = none ∧ (s'.clients c).holds = false ∧
        ∃ child ready, s.clients c = .releasing child ready) := by
  simp only [clientStep] at stepped
  split at stepped <;> (repeat' split at stepped) <;> cases stepped <;>
    simp only [goto, move, Function.update_self] <;>
    grind [ClientPhase.holds, ClientPhase.child, Place.passed_child, Place.failed_child,
      Place.passed_holds, Place.failed_holds, Place.locked, Place.spawned]

theorem clientStep_frame (stepped : s.clientStep c answer = some s') (v : C) (other : v ≠ c) :
    s'.clients v = s.clients v := by
  simp only [clientStep] at stepped
  split at stepped <;> (repeat' split at stepped) <;> cases stepped <;>
    exact Function.update_of_ne other _ _

/-- A step of a client or a crash leaves the files alone, and a daemon then only dies or is
spawned by the holder of the lock. -/
theorem step_endpoint (stepped : s.step label = some s') :
    (∃ d answer, label = .daemon d answer ∧ s.daemonStep d answer = some s') ∨
      (s'.socket = s.socket ∧ s'.metadata = s.metadata ∧
        ∀ d, s'.daemons d = s.daemons d ∨ s'.daemons d = .exited ∨
          (s'.daemons d = .starting ∧ s.daemons d = .absent ∧
            ∃ c, s.clients c = .spawning ∧ s'.lock = s.lock ∧ s'.clients c = .looping d false)) := by
  cases label with
  | daemon d answer => exact .inl ⟨d, answer, rfl, stepped⟩
  | crashClient c =>
    cases stepped
    exact .inr ⟨rfl, rfl, fun d => .inl rfl⟩
  | crashDaemon e =>
    simp only [step] at stepped
    split at stepped
    · cases stepped
    · cases stepped
      refine .inr ⟨rfl, rfl, fun d => ?_⟩
      by_cases same : d = e
      · subst same
        exact .inr (.inl (Function.update_self ..))
      · exact .inl (Function.update_of_ne same _ _)
  | client c answer =>
    obtain ⟨socket, metadata, daemons⟩ := clientStep_endpoint stepped
    refine .inr ⟨socket, metadata, fun d => ?_⟩
    rcases daemons with same | ⟨e, ended⟩ | ⟨e, phase, after, lock, absent, spawned⟩
    · exact .inl (congrFun same d)
    · by_cases same : d = e
      · subst same
        exact .inr (.inl (by rw [ended, Function.update_self]))
      · exact .inl (by rw [ended, Function.update_of_ne same])
    · by_cases same : d = e
      · subst same
        exact .inr (.inr ⟨by rw [spawned, Function.update_self], absent, c, phase, lock, after⟩)
      · exact .inl (by rw [spawned, Function.update_of_ne same])

/-- Phases that a daemon neither starts nor ends in are kept from before such a step. -/
theorem phase_kept {p : DaemonPhase → Prop} {phase after : DaemonPhase} {spawned : Prop}
    (exited : ¬ p .exited) (starting : ¬ p .starting)
    (moved : after = phase ∨ after = .exited ∨ (after = .starting ∧ spawned)) (holds : p after) :
    p phase := by
  rcases moved with same | ended | ⟨started, -⟩
  · exact same ▸ holds
  · exact absurd (ended ▸ holds) exited
  · exact absurd (started ▸ holds) starting

theorem Guarded.step_holder (guarded : Guarded s) (stepped : s.step label = some s') (v : C) :
    (s'.clients v).holds = true ↔ s'.lock = some v := by
  cases label with
  | daemon d answer =>
    obtain ⟨clients, lock, -⟩ := daemonStep_frame stepped
    rw [clients, lock]
    exact guarded.holder v
  | crashDaemon d =>
    simp only [step] at stepped
    split at stepped
    · cases stepped
    · cases stepped
      exact guarded.holder v
  | crashClient c =>
    cases stepped
    by_cases own : v = c
    · subst own
      simp only [goto, Function.update_self, ClientPhase.holds]
      split <;> simp_all
    · simp only [goto, Function.update_of_ne own, guarded.holder v]
      split
      · rename_i held
        simp [held, Ne.symm own]
      · rfl
  | client c answer =>
    by_cases own : v = c
    · subst own
      rcases clientStep_lock stepped with ⟨lock, holds, -⟩ | ⟨-, taken, holds⟩ | ⟨given, holds, -⟩
      · rw [lock, holds]
        exact guarded.holder v
      · simp [taken, holds]
      · simp [given, holds]
    · rw [clientStep_frame stepped v own, guarded.holder v]
      rcases clientStep_lock stepped with ⟨lock, -⟩ | ⟨free, taken, -⟩ | ⟨given, -, child, ready, phase⟩
      · rw [lock]
      · simp [free, taken, Ne.symm own]
      · have held := (guarded.holder c).mp (by rw [phase]; rfl)
        simp [given, held, Ne.symm own]

/-- A daemon that has not bound the endpoint is the child of the holder. -/
theorem Guarded.step_child (guarded : Guarded s) (settled : Settled s label)
    (stepped : s.step label = some s') (d : D) (alive : (s'.daemons d).unbound = true) :
    ∃ c, s'.lock = some c ∧ (s'.clients c).child = some d := by
  have spawnedOrBefore : (s.daemons d).unbound = true ∨
      ∃ c, s.clients c = .spawning ∧ s'.lock = s.lock ∧ s'.clients c = .looping d false := by
    rcases step_endpoint stepped with ⟨e, answer, rfl, moved⟩ | ⟨-, -, daemons⟩
    · by_cases own : d = e
      · subst own
        exact .inl (daemonStep_unbound moved alive)
      · rw [(daemonStep_frame moved).2.2 d own] at alive
        exact .inl alive
    · rcases daemons d with same | ended | ⟨-, -, spawned⟩
      · exact .inl (same ▸ alive)
      · rw [ended] at alive
        cases alive
      · exact .inr spawned
  rcases spawnedOrBefore with before | ⟨c, phase, lock, after⟩
  · obtain ⟨c, held, child⟩ := guarded.child d before
    refine ⟨c, ?_⟩
    cases label with
    | daemon e answer =>
      obtain ⟨clients, lock, -⟩ := daemonStep_frame stepped
      rw [clients, lock]
      exact ⟨held, child⟩
    | crashDaemon e =>
      simp only [step] at stepped
      split at stepped
      · cases stepped
      · cases stepped
        exact ⟨held, child⟩
    | crashClient v =>
      cases stepped
      by_cases own : c = v
      · subst own
        rw [settled d child] at before
        cases before
      · simp only [goto, Function.update_of_ne own, held]
        simp [own, child]
    | client v answer =>
      by_cases own : c = v
      · subst own
        rcases clientStep_lock stepped with ⟨lock, -, kept⟩ | ⟨free, -⟩ | ⟨-, -, e, ready, phase⟩
        · exact ⟨lock.trans held, kept d child⟩
        · rw [free] at held
          cases held
        · rw [phase] at child
          cases child
          rw [settled d (by simp [givesUp, phase])] at before
          cases before
      · rw [clientStep_frame stepped c own]
        refine ⟨?_, child⟩
        rcases clientStep_lock stepped with ⟨lock, -⟩ | ⟨free, -⟩ | ⟨-, -, e, ready, phase⟩
        · exact lock.trans held
        · rw [free] at held
          cases held
        · have mine := (guarded.holder v).mp (by rw [phase]; rfl)
          rw [held] at mine
          exact absurd (Option.some.inj mine) own
  · refine ⟨c, ?_, by rw [after]; rfl⟩
    rw [lock]
    exact (guarded.holder c).mp (by rw [phase]; rfl)

theorem Guarded.step_vacant (guarded : Guarded s) (stepped : s.step label = some s') (d : D)
    (removing : s'.daemons d = .removingSocket) : s'.connects = false := by
  rcases step_endpoint stepped with ⟨e, answer, rfl, moved⟩ | ⟨socket, -, daemons⟩
  · have others := (daemonStep_frame moved).2.2
    by_cases own : d = e
    · subst own
      obtain ⟨silent, socket⟩ := daemonStep_vacant moved removing
      refine connects_eq_false silent socket fun x listens => ?_
      by_cases mine : x = d
      · subst mine
        rw [removing] at listens
        cases listens
      · exact others x mine ▸ listens
    · rw [others d own] at removing
      have silent := guarded.vacant d removing
      rcases daemonStep_socket moved with ⟨socket, -, listens⟩ | ⟨socket, -⟩ | ⟨binding, -⟩
      · refine connects_eq_false silent socket fun x open' => ?_
        by_cases mine : x = e
        · subst mine
          exact listens open'
        · exact others x mine ▸ open'
      · simp [connects, socket]
      · exact absurd (guarded.alone (by rw [removing]; rfl) (by rw [binding]; rfl)) own
  · have before := phase_kept (p := (· = .removingSocket)) nofun nofun (daemons d) removing
    refine connects_eq_false (guarded.vacant d before) socket fun x listens => ?_
    exact phase_kept (p := (·.listens = true)) nofun nofun (daemons x) listens

theorem Guarded.step_cleared (guarded : Guarded s) (stepped : s.step label = some s') (d : D)
    (cleared : (s'.daemons d).cleared = true) : s'.socket = none := by
  rcases step_endpoint stepped with ⟨e, answer, rfl, moved⟩ | ⟨socket, -, daemons⟩
  · by_cases own : d = e
    · subst own
      rcases daemonStep_cleared moved cleared with removed | ⟨before, socket⟩
      · exact removed
      · exact socket.trans (guarded.cleared d before)
    · rw [(daemonStep_frame moved).2.2 d own] at cleared
      have free := guarded.cleared d cleared
      rcases daemonStep_socket moved with ⟨socket, -⟩ | ⟨socket, -⟩ | ⟨binding, -⟩
      · exact socket.trans free
      · exact socket
      · exact absurd (guarded.alone (DaemonPhase.unbound_of_cleared cleared) (by rw [binding]; rfl)) own
  · have before := phase_kept (p := (·.cleared = true)) nofun nofun (daemons d) cleared
    exact socket.trans (guarded.cleared d before)

theorem Guarded.step_owner (guarded : Guarded s) (stepped : s.step label = some s') (d : D)
    (owns : (s'.daemons d).owns = true) : s'.socket = some d := by
  rcases step_endpoint stepped with ⟨e, answer, rfl, moved⟩ | ⟨socket, -, daemons⟩
  · by_cases own : d = e
    · subst own
      rcases daemonStep_socket moved with ⟨socket, before, -⟩ | ⟨-, lost, -⟩ | ⟨-, -, made⟩
      · exact socket.trans (guarded.owner d (before owns))
      · rw [owns] at lost
        cases lost
      · exact made
    · rw [(daemonStep_frame moved).2.2 d own] at owns
      have mine := guarded.owner d owns
      rcases daemonStep_socket moved with ⟨socket, -⟩ | ⟨-, -, removing | leaving⟩ | ⟨-, free, -⟩
      · exact socket.trans mine
      · have silent := guarded.vacant e removing
        rw [connects_of_owns guarded owns] at silent
        cases silent
      · have also := guarded.owner e (by rw [leaving]; rfl)
        exact absurd (Option.some.inj (mine.symm.trans also)) own
      · rw [mine] at free
        cases free
  · have before := phase_kept (p := (·.owns = true)) nofun nofun (daemons d) owns
    exact socket.trans (guarded.owner d before)

theorem Guarded.step (guarded : Guarded s) (settled : Settled s label)
    (stepped : s.step label = some s') : Guarded s' where
  holder := guarded.step_holder stepped
  child := guarded.step_child settled stepped
  vacant := guarded.step_vacant stepped
  cleared := guarded.step_cleared stepped
  owner := guarded.step_owner stepped

theorem Guarded.step_attributed (guarded : Guarded s) (attributed : Attributed s)
    (spared : Spared s label) (stepped : s.step label = some s') : Attributed s' := by
  intro d serving
  rcases step_endpoint stepped with ⟨e, answer, rfl, moved⟩ | ⟨-, metadata, daemons⟩
  · by_cases own : d = e
    · subst own
      rcases daemonStep_metadata moved with ⟨metadata, before⟩ | ⟨-, other, -⟩ | ⟨-, written⟩
      · exact metadata.trans (attributed d (before serving))
      · exact absurd serving other
      · exact written
    · rw [(daemonStep_frame moved).2.2 d own] at serving
      have mine := attributed d serving
      have owns : (s.daemons d).owns = true := by rw [serving]; rfl
      rcases daemonStep_metadata moved with ⟨metadata, -⟩ | ⟨-, -, cleared | leaving⟩ | ⟨writing, -⟩
      · exact metadata.trans mine
      · have free := guarded.cleared e cleared
        rw [guarded.owner d owns] at free
        cases free
      · rw [leavingMetadata_metadata leaving moved]
        split
        · exact mine
        · rename_i removes
          exact absurd serving (spared leaving removes d (guarded.owner d owns))
      · have also := guarded.owner e (by rw [writing]; rfl)
        exact absurd (Option.some.inj ((guarded.owner d owns).symm.trans also)) own
  · have before := phase_kept (p := (· = .serving)) nofun nofun (daemons d) serving
    exact metadata.trans (attributed d before)

/-- A second removal that meets a serving successor takes its metadata file away. -/
theorem spared_of_oneDaemon (stepped : s.step label = some s') (after : OneDaemon s') :
    Spared s label := by
  cases label with
  | daemon d answer =>
    intro leaving removes e _ serving
    have other : e ≠ d := by
      rintro rfl
      rw [leaving] at serving
      cases serving
    have still : s'.daemons e = .serving := ((daemonStep_frame stepped).2.2 e other).trans serving
    have kept := after.metadata e still
    rw [leavingMetadata_metadata leaving stepped, if_neg removes] at kept
    cases kept
  | client c answer => trivial
  | crashClient c => trivial
  | crashDaemon d => trivial

/-- However clients and daemons interleave, crash, fail and stop: while the lock is given up
only for a child that is bound or gone, at most one daemon owns the endpoint and no other
process removes the files of a serving one, in every state of the run, exactly when no guard
comes to its second removal with a serving successor behind the socket. -/
theorem one_daemon_keeps_its_files {init : Machine C D} {labels : List (Label C D)}
    (start : init.Initial) (ran : run Machine.step init labels = some s)
    (settled : Along Machine.step Settled init labels) :
    Along Machine.step Spared init labels ↔
      ∀ pre t, pre <+: labels → run Machine.step init pre = some t → OneDaemon t := by
  apply along_iff_always_of _ (I := Guarded) (P := Attributed) ran settled (.initial start)
    (.initial start)
  · exact fun s label s' guarded settled stepped => guarded.step settled stepped
  · exact fun s label s' guarded attributed spared stepped =>
      guarded.step_attributed attributed spared stepped
  · exact fun s guarded attributed => guarded.oneDaemon attributed
  · exact fun s label s' _ _ stepped after => spared_of_oneDaemon stepped after

end Steps

/-- No client, no daemon, no file. -/
def untouched : Machine Nat Nat :=
  ⟨fun _ => .checking .first .socket, fun _ => .absent, none, none, none⟩

theorem untouched_initial : untouched.Initial := ⟨fun _ => rfl, fun _ => .inl rfl, rfl⟩

/-- The client `c` finds no socket, takes the lock and spawns the daemon `d`. -/
def starts (c d : Nat) : List (Label Nat Nat) :=
  List.replicate 4 (.client c .proceeds) ++ [.client c (.spawns d)]

/-- The daemon 0 comes up for the client 0 and is told to stop. -/
def firstLife : List (Label Nat Nat) :=
  starts 0 0 ++ List.replicate 6 (.daemon 0 .proceeds) ++ List.replicate 5 (.client 0 .proceeds) ++
    [.daemon 0 .fails]

/-- While it leaves, the daemon 1 comes up for the client 1 and writes its metadata last. -/
def succession : List (Label Nat Nat) :=
  firstLife ++ [.daemon 0 .proceeds] ++ starts 1 1 ++ List.replicate 6 (.daemon 1 .proceeds) ++
    List.replicate 2 (.daemon 0 .proceeds) ++ [.daemon 1 .proceeds] ++
    List.replicate 5 (.client 1 .proceeds)

theorem one_daemon_keeps_its_files_demo :
    ∃ s, run Machine.step untouched succession = some s ∧ s.clients 1 = .finished true ∧
      s.daemons 0 = .exited ∧ s.daemons 1 = .serving ∧
      ∀ pre t, pre <+: succession → run Machine.step untouched pre = some t → OneDaemon t := by
  have ran : (run Machine.step untouched succession).any fun s =>
      decide (s.clients 1 = .finished true ∧ s.daemons 0 = .exited ∧ s.daemons 1 = .serving) := by
    decide +kernel
  have settled : Along Machine.step Settled untouched succession := by decide +kernel
  have spared : Along Machine.step Spared untouched succession := by decide +kernel
  simp only [Option.any_eq_true, decide_eq_true_eq] at ran
  obtain ⟨s, ran, ready, left, serving⟩ := ran
  have always := (one_daemon_keeps_its_files untouched_initial ran settled).mp spared
  exact ⟨s, ran, ready, left, serving, always⟩

/-- Between the two removals of the guard of the daemon 0 the daemon 1 comes up. -/
def handover : List (Label Nat Nat) :=
  firstLife ++ [.daemon 0 .proceeds] ++ starts 1 1 ++ List.replicate 7 (.daemon 1 .proceeds) ++
    List.replicate 5 (.client 1 .proceeds) ++ [.daemon 0 .proceeds]

/-- The second removal takes the successor's metadata file away. -/
theorem successor_loses_metadata :
    ¬ ∀ (init s : Machine Nat Nat) (labels : List (Label Nat Nat)), init.Initial →
      run Machine.step init labels = some s → OneDaemon s := by
  intro claim
  have runs : (run Machine.step untouched handover).isSome = true := by decide +kernel
  obtain ⟨s, ran⟩ := Option.isSome_iff_exists.mp runs
  have seen : (run Machine.step untouched handover).any fun s =>
      s.daemons 1 = .serving && s.metadata.isNone := by decide +kernel
  rw [ran, Option.any_some, Bool.and_eq_true, decide_eq_true_eq] at seen
  have own := (claim untouched s handover untouched_initial ran).metadata 1 seen.1
  rw [own] at seen
  cases seen.2

end Walaru.Startup
