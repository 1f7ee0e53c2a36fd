import Mathlib.Logic.Function.Basic
import Walaru.Lib.Trace
import Walaru.Source.Daemon.RunEvents

/-!
# The overlay runs of one session

The runs of a session follow one another behind the daemon's gate and share one
worker event file: a launch truncates it, workers append whole lines to it
(`EventWriter`), and the end of a run copies it to the run's own directory, where
`ingest_events` reads it. The client process of a cancelled or timed-out run is
killed; its worker, launched by the warm build daemon, may go on appending. A run
is named by its identifier. Requests that the cache answers or that are refused do
not reach the file and are left out.
-/
namespace Walaru
open Lib.StateResult Lib.Trace

/-- An overlay request of the session that got as far as its launch. -/
structure LiveRun (session : String) where
  env : VerifierEnv
  request : VerificationRequest
  plan : RunPlan
  overlay : OverlayRequest
  live : request.overlay = some overlay
  ofSession : overlay.sessionId = session

/-- A line of the worker event file and the run whose worker wrote it. -/
abbrev WrittenLine := String × StreamLine

structure LiveSession where
  store : EvidenceStore
  /-- `live/<session>/worker/events.jsonl`. -/
  workerFile : List WrittenLine
  /-- `runs/<run>/events.jsonl`. -/
  copies : String → List WrittenLine
  active : Option String
  started : List String

inductive LiveLabel where
  /-- The files of the run are prepared, its row is opened and its worker starts. -/
  | launch (run : String)
  | append (run : String) (line : StreamLine)
  /-- The client process is over: the run is abandoned, or copies and ingests. -/
  | finish (run : String)
  deriving DecidableEq, Repr

namespace LiveRun
variable {session : String}

/-- What the run reads when the copied file holds `lines`. -/
def envOf (run : LiveRun session) (id : String) (lines : List WrittenLine) : VerifierEnv :=
  { run.env with runId := id, eventFile := .lines (lines.map Prod.snd) }

/-- The end of the run gets as far as the copy. -/
def copied (run : LiveRun session) : Bool :=
  (match run.env.worker with
    | .ok _ => true
    | .error _ => false) && !run.env.cancelled .worked && run.env.copyFailure = none

/-- The worker runs in the warm build daemon (`run_gradle` passes `--no-daemon` in
the full mode only), and its client is killed or lost. -/
def outlives (run : LiveRun session) : Bool :=
  run.request.mode = .fast &&
    match run.env.worker with
    | .ok _ => false
    | .error _ => true

end LiveRun

namespace LiveSession
variable {session : String} (runs : String → LiveRun session)

def init (store : EvidenceStore) : LiveSession := ⟨store, [], fun _ => [], none, []⟩

def step (s : LiveSession) : LiveLabel → Option LiveSession
  | .launch id =>
    let run := runs id
    if s.active = none ∧ id ∉ s.started then
      match Walaru.launch (run.envOf id []) run.request none run.plan s.store with
      | .ok _ store =>
        some { s with store := store, workerFile := [], active := some id, started := id :: s.started }
      | .error _ _ => none
    else none
  | .append id line =>
    if s.active = some id ∨ (id ∈ s.started ∧ (runs id).outlives) then
      some { s with workerFile := s.workerFile ++ [(id, line)] }
    else none
  | .finish id =>
    let run := runs id
    if s.active = some id then
      some { s with
        store := storeOf
          (superviseRun (run.envOf id s.workerFile) run.request false run.plan s.store)
        copies := if run.copied then Function.update s.copies id s.workerFile else s.copies
        active := none }
    else none

end LiveSession

/-- The line that a label adds to the worker event file. -/
def LiveLabel.written : LiveLabel → Option WrittenLine
  | .append id line => some (id, line)
  | _ => none

/-- The events among written lines, with their writers. -/
def writtenEvents (lines : List WrittenLine) : List (String × Json) :=
  lines.filterMap fun line => line.2.raw?.map fun raw => (line.1, raw)

theorem mem_writtenEvents {lines : List WrittenLine} {id : String} {raw : Json} :
    (id, raw) ∈ writtenEvents lines ↔ (id, StreamLine.event raw) ∈ lines := by
  simp only [writtenEvents, List.mem_filterMap, Option.map_eq_some_iff, Prod.mk.injEq]
  constructor
  · rintro ⟨⟨writer, line⟩, member, _, parsed, rfl, rfl⟩
    cases line with
    | event raw =>
      cases parsed
      exact member
    | _ => cases parsed
  · exact fun member => ⟨_, member, raw, rfl, rfl, rfl⟩

/-- Ingestion reads the events of the copy without their writers. -/
theorem raws_envOf {session : String} (run : LiveRun session) (id : String)
    (lines : List WrittenLine) :
    (run.envOf id lines).eventFile.raws = (writtenEvents lines).map Prod.snd := by
  simp only [LiveRun.envOf, EventFile.raws, List.filterMap_map, writtenEvents, List.map_filterMap]
  refine List.filterMap_congr fun line _ => ?_
  simp [Function.comp_def]

section Steps
variable {session : String} {runs : String → LiveRun session} {s t : LiveSession}

theorem step_launch {id : String} (stepped : s.step runs (.launch id) = some t) :
    s.active = none ∧ id ∉ s.started ∧ s.store.hasRun id = false ∧
      t = { s with
        store := launched ((runs id).envOf id []) (runs id).plan s.store
        workerFile := []
        active := some id
        started := id :: s.started } := by
  simp only [LiveSession.step] at stepped
  split at stepped
  · rename_i idle
    split at stepped
    · rename_i store begun
      obtain ⟨fresh, rfl⟩ := launch_ok begun
      cases stepped
      exact ⟨idle.1, idle.2, fresh, rfl⟩
    · cases stepped
  · cases stepped

theorem step_append {id : String} {line : StreamLine}
    (stepped : s.step runs (.append id line) = some t) :
    t = { s with workerFile := s.workerFile ++ [(id, line)] } := by
  simp only [LiveSession.step] at stepped
  split at stepped
  · cases stepped
    rfl
  · cases stepped

theorem step_finish {id : String} (stepped : s.step runs (.finish id) = some t) :
    s.active = some id ∧ t = { s with
      store := storeOf (superviseRun ((runs id).envOf id s.workerFile) (runs id).request false
        (runs id).plan s.store)
      copies := if (runs id).copied then Function.update s.copies id s.workerFile else s.copies
      active := none } := by
  simp only [LiveSession.step] at stepped
  split at stepped
  · rename_i mine
    cases stepped
    exact ⟨mine, rfl⟩
  · cases stepped

/-- A run that reads its event file has copied it. -/
theorem copied_of_reaches (run : LiveRun session) {id : String} {lines : List WrittenLine}
    (reaches : ReachesEvents (run.envOf id lines) run.request) : run.copied = true := by
  obtain ⟨⟨success, exited⟩, alive, free⟩ := reaches
  have exited : run.env.worker = .ok success := exited
  have alive : run.env.cancelled .worked = false := alive
  have free : run.env.copyFailure = none := free (by rw [run.live]; rfl)
  simp [LiveRun.copied, exited, alive, free]

end Steps

end Walaru
