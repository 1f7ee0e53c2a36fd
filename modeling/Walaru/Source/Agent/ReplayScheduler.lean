import Walaru.Source.Agent.Replay

/-!
# Threads at the replay scheduler

`ReplayScheduler` as any number of threads use it. A call of `before` takes the monitor
and looks at the schedule: it enters, fails, or waits. A waiting call looks again when it
wakes, for whatever reason, and gives up when its time is over or it is interrupted.
`AgentBridge.emitForTest` calls `after` exactly when its `before` has succeeded.
-/
namespace Walaru.Agent
open Lib.Trace

/-- How a call goes on that has to wait. -/
inductive Patience where
  | sleeps
  | timesOut
  | interrupted
  deriving DecidableEq, Repr

inductive CallPhase where
  /-- Not in a call, or in one that threw. -/
  | outside
  | waiting (rawType threadKey : String)
  /-- Between a successful `before` and its `after`. -/
  | inside
  deriving DecidableEq, Repr

inductive SchedulerCall (Thread : Type) where
  | before (t : Thread) (rawType threadKey : String) (patience : Patience)
  | wakes (t : Thread) (patience : Patience)
  | after (t : Thread)
  deriving DecidableEq, Repr

/-- The scheduler, its callers, and the calls that it has admitted so far. -/
structure Scheduler (Thread : Type) where
  turn : Turnstile
  phases : Thread → CallPhase
  admitted : List (String × String)

namespace Scheduler
variable {Thread : Type} [DecidableEq Thread]

def start : Scheduler Thread := ⟨⟨0, false⟩, fun _ => .outside, []⟩

def setPhase (s : Scheduler Thread) (t : Thread) (phase : CallPhase) : Scheduler Thread :=
  { s with phases := Function.update s.phases t phase }

/-- One look at the schedule from inside the monitor. -/
def look (expected : List ScheduleEntry) (s : Scheduler Thread) (t : Thread)
    (rawType threadKey : String) (patience : Patience) : Scheduler Thread :=
  match s.turn.before expected rawType threadKey with
  | .enters turn =>
    { s.setPhase t .inside with
      turn := turn
      admitted := s.admitted ++ [(replayCategory rawType, threadKey)] }
  | .fails => s.setPhase t .outside
  | .waits =>
    match patience with
    | .sleeps => s.setPhase t (.waiting rawType threadKey)
    | .timesOut | .interrupted => s.setPhase t .outside

def step (expected : List ScheduleEntry) (s : Scheduler Thread) :
    SchedulerCall Thread → Option (Scheduler Thread)
  | .before t rawType threadKey patience =>
    match s.phases t with
    | .outside => some (s.look expected t rawType threadKey patience)
    | _ => none
  | .wakes t patience =>
    match s.phases t with
    | .waiting rawType threadKey => some (s.look expected t rawType threadKey patience)
    | _ => none
  | .after t =>
    match s.phases t with
    | .inside => some { s.setPhase t .outside with turn := s.turn.after expected }
    | _ => none

/-- The call threw an exception: it is `before` and its thread is outside again. -/
def Failed (s' : Scheduler Thread) : SchedulerCall Thread → Prop
  | .before t _ _ _ | .wakes t _ => s'.phases t = .outside
  | .after _ => False

end Scheduler

end Walaru.Agent
