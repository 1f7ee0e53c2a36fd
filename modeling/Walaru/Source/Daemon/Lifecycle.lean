import Mathlib.Logic.Function.Basic

/-!
# Start-up and hand-over of the worktree daemon

`ensure_daemon`, `daemon_ready`, `start_daemon` and `StartupLock` of the command line
client, `DaemonServer::serve`, `bind_local_endpoint` and `SocketGuard::drop` of the
daemon, on Unix. Any number of clients and daemons take steps; a step is one access to
the start-up lock, to one of the two endpoint files or to a process. A file is shown as
the daemon that made it. Waiting times are answers of the environment.
-/
namespace Walaru.Startup

/-- Where a daemon process stands in `DaemonServer::serve`. -/
inductive DaemonPhase where
  | absent
  /-- `layout.socket.exists()` is read next. -/
  | starting
  | probing
  | removingSocket
  /-- `layout.daemon_metadata.exists()` is read next. -/
  | clearing
  | removingMetadata
  | binding
  /-- Bound; the permissions of the socket are set next. -/
  | permitting
  | opening
  | writing
  | serving
  /-- The guard removes the socket next. -/
  | leaving
  | leavingMetadata
  | closing
  | exited
  deriving DecidableEq, Repr

namespace DaemonPhase

/-- The process runs and has not bound the endpoint. -/
def unbound : DaemonPhase → Bool
  | starting | probing | removingSocket | clearing | removingMetadata | binding => true
  | _ => false

/-- The listener is open. -/
def listens : DaemonPhase → Bool
  | permitting | opening | writing | serving | leaving | leavingMetadata | closing => true
  | _ => false

/-- Bound, and the guard has not removed the socket yet. -/
def owns : DaemonPhase → Bool
  | permitting | opening | writing | serving | leaving => true
  | _ => false

/-- The endpoint was found free and its files are being cleared. -/
def cleared : DaemonPhase → Bool
  | clearing | removingMetadata | binding => true
  | _ => false

theorem listens_of_owns {phase : DaemonPhase} (owns : phase.owns = true) : phase.listens = true := by
  cases phase <;> first | rfl | cases owns

theorem unbound_of_cleared {phase : DaemonPhase} (cleared : phase.cleared = true) :
    phase.unbound = true := by
  cases phase <;> first | rfl | cases cleared

end DaemonPhase

/-- The next of the three reads of `daemon_ready`. -/
inductive Read where
  | socket
  | metadata
  | connect
  deriving DecidableEq, Repr

variable {C D : Type}

/-- Which call of `daemon_ready` it is. -/
inductive Place (D : Type) where
  | first
  | polling
  /-- Behind the acquired lock. -/
  | held
  /-- After the deadline. -/
  | last
  /-- In the loop of `start_daemon`; whether the child was seen to have exited. -/
  | child (d : D) (exited : Bool)
  deriving DecidableEq, Repr

/-- Where a client stands in `ensure_daemon`. -/
inductive ClientPhase (D : Type) where
  | checking (place : Place D) (read : Read)
  | locking
  | spawning
  /-- The head of the loop of `start_daemon`. -/
  | looping (d : D) (exited : Bool)
  /-- `child.try_wait()`. -/
  | trying (d : D)
  /-- `child.kill()` and `child.wait()`. -/
  | killing (d : D)
  /-- The lock is dropped next. -/
  | releasing (child : Option D) (ready : Bool)
  | finished (ready : Bool)
  deriving DecidableEq, Repr

/-- The start-up lock is held around this check. -/
def Place.locked : Place D → Bool
  | .held | .child _ _ => true
  | _ => false

def Place.spawned : Place D → Option D
  | .child d _ => some d
  | _ => none

namespace ClientPhase

/-- The start-up lock is held. -/
def holds : ClientPhase D → Bool
  | checking place _ => place.locked
  | spawning | looping _ _ | trying _ | killing _ | releasing _ _ => true
  | locking | finished _ => false

/-- The daemon that the client has spawned under the lock it holds. -/
def child : ClientPhase D → Option D
  | checking place _ => place.spawned
  | looping d _ | trying d | killing d => some d
  | releasing d _ => d
  | _ => none

end ClientPhase

/-- `daemon_ready` returned true. -/
def Place.passed : Place D → ClientPhase D
  | .first | .polling | .last => .finished true
  | .held => .releasing none true
  | .child d _ => .releasing (some d) true

/-- `daemon_ready` returned false. -/
def Place.failed : Place D → ClientPhase D
  | .first => .checking .polling .socket
  | .polling => .locking
  | .held => .spawning
  | .last => .finished false
  | .child d exited => if exited then .looping d exited else .trying d

section Place
variable (place : Place D)

@[simp] theorem Place.passed_child : place.passed.child = place.spawned := by
  cases place <;> rfl

@[simp] theorem Place.failed_child : place.failed.child = place.spawned := by
  rcases place with _ | _ | _ | _ | ⟨d, _ | _⟩ <;> rfl

@[simp] theorem Place.failed_holds : place.failed.holds = place.locked := by
  rcases place with _ | _ | _ | _ | ⟨d, _ | _⟩ <;> rfl

@[simp] theorem Place.passed_holds : place.passed.holds = place.locked := by
  cases place <;> rfl

end Place

structure Machine (C D : Type) where
  clients : C → ClientPhase D
  daemons : D → DaemonPhase
  lock : Option C
  socket : Option D
  metadata : Option D

/-- What the environment answers to a step. -/
inductive Answer (D : Type) where
  | proceeds
  /-- The call fails, or a serving daemon is told to stop. -/
  | fails
  /-- The deadline is over. -/
  | expires
  | spawns (d : D)
  deriving DecidableEq, Repr

inductive Label (C D : Type) where
  | client (c : C) (answer : Answer D)
  | daemon (d : D) (answer : Answer D)
  | crashClient (c : C)
  | crashDaemon (d : D)
  deriving DecidableEq, Repr

namespace Machine

/-- `daemon_is_running`: a connection is accepted by whoever made the socket file. -/
def connects (s : Machine C D) : Bool :=
  match s.socket with
  | none => false
  | some d => (s.daemons d).listens

/-- One read of `daemon_ready`. -/
def reads (s : Machine C D) : Read → Bool
  | .socket => s.socket.isSome
  | .metadata => s.metadata.isSome
  | .connect => s.connects

/-- No client has begun and no daemon runs; earlier daemons may have left files. -/
structure Initial (s : Machine C D) : Prop where
  clients : ∀ c, s.clients c = .checking .first .socket
  daemons : ∀ d, s.daemons d = .absent ∨ s.daemons d = .exited
  lock : s.lock = none

def goto [DecidableEq C] (s : Machine C D) (c : C) (phase : ClientPhase D) : Machine C D :=
  { s with clients := Function.update s.clients c phase }

def move [DecidableEq D] (s : Machine C D) (d : D) (phase : DaemonPhase) : Machine C D :=
  { s with daemons := Function.update s.daemons d phase }

/-- One step of `DaemonServer::serve`. -/
def daemonStep [DecidableEq D] (s : Machine C D) (d : D) (answer : Answer D) : Option (Machine C D) :=
  match s.daemons d with
  | .absent | .exited => none
  | .starting =>
    some (s.move d (if answer = .fails then .exited else
      if s.socket.isSome then .probing else .clearing))
  | .probing => some (s.move d (if s.connects then .exited else .removingSocket))
  | .removingSocket =>
    if answer = .fails ∨ s.socket = none then some (s.move d .exited)
    else some { s.move d .clearing with socket := none }
  | .clearing => some (s.move d (if s.metadata.isSome then .removingMetadata else .binding))
  | .removingMetadata =>
    if answer = .fails ∨ s.metadata = none then some (s.move d .exited)
    else some { s.move d .binding with metadata := none }
  | .binding =>
    if answer = .fails ∨ s.socket ≠ none then some (s.move d .exited)
    else some { s.move d .permitting with socket := some d }
  | .permitting => some (s.move d (if answer = .fails then .closing else .opening))
  | .opening => some (s.move d (if answer = .fails then .leaving else .writing))
  | .writing =>
    if answer = .fails then some (s.move d .leaving)
    else some { s.move d .serving with metadata := some d }
  | .serving => some (s.move d (if answer = .fails then .leaving else .serving))
  | .leaving =>
    -- The guard ignores what `remove_file` answers.
    some { s.move d .leavingMetadata with
      socket := if answer = .fails then s.socket else none }
  | .leavingMetadata =>
    some { s.move d .closing with metadata := if answer = .fails then s.metadata else none }
  | .closing => some (s.move d .exited)

variable [DecidableEq C] [DecidableEq D]

/-- One step of `ensure_daemon`. -/
def clientStep (s : Machine C D) (c : C) (answer : Answer D) : Option (Machine C D) :=
  match s.clients c with
  | .checking place read =>
    if s.reads read then
      some (s.goto c (match read with
        | .socket => .checking place .metadata
        | .metadata => .checking place .connect
        | .connect => place.passed))
    else if place = .first ∧ answer = .fails then some (s.goto c (.finished false))
    else some (s.goto c place.failed)
  | .locking =>
    if answer = .fails then some (s.goto c (.finished false))
    else if s.lock = none then some { s.goto c (.checking .held .socket) with lock := some c }
    else if answer = .expires then some (s.goto c (.checking .last .socket))
    else some (s.goto c (.checking .polling .socket))
  | .spawning =>
    match answer with
    | .fails => some (s.goto c (.releasing none false))
    | .spawns d =>
      if s.daemons d = .absent then some ((s.goto c (.looping d false)).move d .starting) else none
    | _ => none
  | .looping d exited =>
    if answer = .expires then
      some (s.goto c (if exited then .releasing (some d) false else .killing d))
    else some (s.goto c (.checking (.child d exited) .socket))
  | .trying d =>
    if answer = .fails then some (s.goto c (.releasing (some d) false))
    else some (s.goto c (.looping d (s.daemons d = .exited)))
  | .killing d => some ((s.goto c (.releasing (some d) false)).move d .exited)
  | .releasing _ ready => some { s.goto c (.finished ready) with lock := none }
  | .finished _ => none

def step (s : Machine C D) : Label C D → Option (Machine C D)
  | .client c answer => s.clientStep c answer
  | .daemon d answer => s.daemonStep d answer
  | .crashClient c =>
    some { s.goto c (.finished false) with lock := if s.lock = some c then none else s.lock }
  | .crashDaemon d => if s.daemons d = .absent then none else some (s.move d .exited)

end Machine

end Walaru.Startup
