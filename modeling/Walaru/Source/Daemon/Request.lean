import Walaru.Lib.StateResult
import Walaru.Source.Core.Retention
import Walaru.Source.Core.Workspace
import Walaru.Source.Daemon.Events

/-!
# Requests, outcomes and the verifier's effects

The public data of `verifier.rs` and the monad of its procedures. A procedure
either returns or stops with an error; what it wrote to the store before an
error stays written.
-/
namespace Walaru
open Lib.StateResult

def verificationEvidenceFormatVersion : Nat := 1

/-- Instrumentation profile for a worker. -/
inductive VerificationMode where
  | fast | full
  deriving DecidableEq, Repr

structure OverlayDocument where
  path : String
  version : Int
  content : String
  deriving DecidableEq, Repr

structure OverlayRequest where
  sessionId : String
  documents : List OverlayDocument
  deriving DecidableEq, Repr

structure VerificationRequest where
  mode : VerificationMode
  selectedTests : List String
  full : Bool
  since : Option String
  captureFileIo : Bool
  overlay : Option OverlayRequest
  deriving DecidableEq, Repr

/-- Default conservative fast verification. -/
def VerificationRequest.fast : VerificationRequest :=
  ⟨.fast, [], false, none, false, none⟩

/-- Where the worker runs: the workspace itself or the mirror of an editor session. -/
inductive ExecutionRoot where
  | workspace
  | mirror (sessionId : String)
  deriving DecidableEq, Repr

def VerificationRequest.executionRoot (request : VerificationRequest) : ExecutionRoot :=
  match request.overlay with
  | none => .workspace
  | some overlay => .mirror overlay.sessionId

structure WorkerProblem where
  path : String
  line : Nat
  column : Option Nat
  severity : String
  message : String
  deriving DecidableEq, Repr

/-- Persisted verification result returned to the daemon. -/
structure VerificationOutcome where
  evidenceFormatVersion : Nat
  runId : String
  revision : String
  status : RunStatus
  exitCode : Nat
  tests : List String
  testStatuses : BTreeMap String String
  failures : List String
  events : Nat
  capabilities : CapabilityManifest
  logFile : String
  cached : Bool
  selection : String
  selectedTests : List String
  overlayVersions : BTreeMap String Int
  problems : List WorkerProblem
  valueHints : List LiveValueHint
  deriving DecidableEq

inductive VerifierError where
  | workspace (message : String)
  | store (error : StoreError)
  | io (message : String)
  | json
  | missingArtifact (path : String)
  | overlay (message : String)
  | timeout
  | cancelled
  | staleRecording
  | replayRevision (recorded current : String)
  | replay (error : ReplayError)
  deriving DecidableEq, Repr

abbrev EvidenceStore := Store VerificationOutcome

abbrev VerifyM (α : Type) := EStateM VerifierError EvidenceStore α

/-- Run a store operation; its error becomes the procedure's. -/
def storing {α : Type} (f : EvidenceStore → Except StoreError (α × EvidenceStore)) : VerifyM α :=
  fun s =>
    match f s with
    | .ok (a, t) => .ok a t
    | .error e => .error (.store e) s

/-- Run a store operation that answers nothing. -/
def writing (f : EvidenceStore → Except StoreError EvidenceStore) : VerifyM Unit :=
  storing fun s => (f s).map fun t => ((), t)

/-- Read from the store. -/
def reading {α : Type} (f : EvidenceStore → α) : VerifyM α := fun s => .ok (f s) s

@[simp] theorem storing_ok {α : Type} {f : EvidenceStore → Except StoreError (α × EvidenceStore)}
    {s t : EvidenceStore} {a : α} : storing f s = .ok a t ↔ f s = .ok (a, t) := by
  unfold storing
  cases f s <;> simp [Prod.ext_iff]

@[simp] theorem storing_error {α : Type} {f : EvidenceStore → Except StoreError (α × EvidenceStore)}
    {s t : EvidenceStore} {e : VerifierError} :
    storing f s = .error e t ↔ ∃ cause, f s = .error cause ∧ e = .store cause ∧ s = t := by
  unfold storing
  cases f s <;> simp [eq_comm]

@[simp] theorem writing_ok {f : EvidenceStore → Except StoreError EvidenceStore}
    {s t : EvidenceStore} {u : Unit} : writing f s = .ok u t ↔ f s = .ok t := by
  rw [writing, storing_ok]
  cases f s <;> simp [Except.map]

@[simp] theorem writing_error {f : EvidenceStore → Except StoreError EvidenceStore}
    {s t : EvidenceStore} {e : VerifierError} :
    writing f s = .error e t ↔ ∃ cause, f s = .error cause ∧ e = .store cause ∧ s = t := by
  rw [writing, storing_error]
  cases f s <;> simp [Except.map]

@[simp] theorem reading_ok {α : Type} {f : EvidenceStore → α} {s t : EvidenceStore} {a : α} :
    reading f s = .ok a t ↔ f s = a ∧ s = t := by
  simp [reading]

@[simp] theorem reading_error {α : Type} {f : EvidenceStore → α} {s t : EvidenceStore}
    {e : VerifierError} : reading f s = .error e t ↔ False := by
  simp [reading]

end Walaru
