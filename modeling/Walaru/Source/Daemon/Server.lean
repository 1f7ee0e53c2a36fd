import Mathlib.Logic.Function.Basic
import Walaru.Lib.Trace

/-!
# Concurrent verify, cancel and stop handlers

`Daemon::verify`, `cancel_verification` and `cancel_active_verification` of
`server.rs` as steps of any number of handlers. A step is one access to shared
state: the generation counter, the gate, the active slot or a cancellation token.
The verifier between publication and the final checks is one label: how it ended,
where `cancelled` needs a cancelled token. The counter is a natural number: it
grows by one a request.
-/
namespace Walaru.Server
open Lib.Trace

inductive Role where
  | verify (supersede : Bool)
  | cancel
  | stop
  deriving DecidableEq, Repr

/-- How a handler ends. -/
inductive Reply where
  | outcome
  | superseded
  | failed
  | acknowledged (cancelled : Bool)
  | stopping
  deriving DecidableEq, Repr

/-- Where a handler stands between two steps. -/
inductive Phase where
  | start
  /-- The generation is incremented; the active verification is not cancelled yet. -/
  | incremented
  | waiting
  | admitted
  | checked
  | numbered
  | published
  | running
  | requeueing
  | rerunning
  /-- The token is read next. -/
  | deciding
  /-- The generation is read next. -/
  | comparing
  | clearing (reply : Reply)
  | releasing (reply : Reply)
  | done (reply : Reply)
  deriving DecidableEq, Repr

/-- The local variables of a handler. -/
structure Handler where
  phase : Phase
  generation : Nat
  verificationId : Option Nat
  deriving DecidableEq, Repr

/-- What the handlers share. -/
structure Shared (H : Type) where
  generation : Nat
  nextVerificationId : Nat
  gate : Option H
  active : Option (Nat × H)
  /-- The cancellation token of each handler. -/
  cancelled : H → Bool

structure Daemon (H : Type) where
  handlers : H → Handler
  shared : Shared H

/-- How a call of the verifier ends; before a second call, whether the runtime
artifacts are still found. -/
inductive Answer where
  | finished
  | stale
  | cancelled
  | failed
  deriving DecidableEq, Repr

variable {H : Type} [DecidableEq H]

/-- `cancel_active_verification`: whatever is active now. -/
def Shared.cancelActive (g : Shared H) : Shared H :=
  { g with cancelled := match g.active with
      | none => g.cancelled
      | some (_, owner) => Function.update g.cancelled owner true }

omit [DecidableEq H] in
/-- `clear_active_verification`. -/
def Shared.clearActive (g : Shared H) (id : Option Nat) : Shared H :=
  { g with active := if g.active.map Prod.fst = id then none else g.active }

/-- One step of the handler `h`. -/
def advance (role : Role) (h : H) (answer : Answer) (self : Handler) (g : Shared H) :
    Option (Handler × Shared H) :=
  let goto (phase : Phase) : Handler := { self with phase := phase }
  match self.phase with
  | .start =>
    if role = .verify false then
      some ({ goto .waiting with generation := g.generation }, g)
    else
      some ({ goto .incremented with generation := g.generation + 1 },
        { g with generation := g.generation + 1 })
  | .incremented =>
    match role with
    | .verify _ => some (goto .waiting, g.cancelActive)
    | .cancel => some (goto (.done (.acknowledged g.active.isSome)), g.cancelActive)
    | .stop => some (goto (.done .stopping), g.cancelActive)
  | .waiting => if g.gate = none then some (goto .admitted, { g with gate := some h }) else none
  | .admitted =>
    some (goto (if self.generation ≠ g.generation then .releasing .superseded else .checked), g)
  | .checked =>
    some ({ goto .numbered with verificationId := some g.nextVerificationId },
      { g with nextVerificationId := g.nextVerificationId + 1 })
  | .numbered =>
    some (goto .published, { g with active := self.verificationId.map fun id => (id, h) })
  | .published =>
    some (goto .running, { g with
      cancelled :=
        if self.generation ≠ g.generation then Function.update g.cancelled h true else g.cancelled })
  | .running =>
    match answer with
    | .finished => some (goto .deciding, g)
    | .stale => some (goto .requeueing, g)
    | .cancelled => if g.cancelled h then some (goto (.clearing .superseded), g) else none
    | .failed => some (goto (.clearing .failed), g)
  | .requeueing =>
    -- A failed discovery returns at once; the slot keeps its entry.
    some (goto (if answer = .failed then .releasing .failed else .rerunning), g)
  | .rerunning =>
    match answer with
    | .finished | .stale => some (goto .deciding, g)
    | .cancelled => if g.cancelled h then some (goto (.clearing .superseded), g) else none
    | .failed => some (goto (.clearing .failed), g)
  | .deciding => some (goto (if g.cancelled h then .clearing .superseded else .comparing), g)
  | .comparing =>
    some (goto (.clearing (if self.generation ≠ g.generation then .superseded else .outcome)), g)
  | .clearing reply => some (goto (.releasing reply), g.clearActive self.verificationId)
  | .releasing reply => some (goto (.done reply), { g with gate := none })
  | .done _ => none

namespace Daemon

def init : Daemon H :=
  ⟨fun _ => ⟨.start, 0, none⟩, ⟨0, 1, none, none, fun _ => false⟩⟩

def step (role : H → Role) (s : Daemon H) (label : H × Answer) : Option (Daemon H) :=
  (advance (role label.1) label.1 label.2 (s.handlers label.1) s.shared).map fun next =>
    ⟨Function.update s.handlers label.1 next.1, next.2⟩

/-- A step moves one handler, and the shared state with it. -/
theorem step_spec {role : H → Role} {s s' : Daemon H} {h : H} {answer : Answer}
    (stepped : s.step role (h, answer) = some s') :
    advance (role h) h answer (s.handlers h) s.shared = some (s'.handlers h, s'.shared) ∧
      ∀ v, v ≠ h → s'.handlers v = s.handlers v := by
  obtain ⟨⟨next, g⟩, moved, rfl⟩ := Option.map_eq_some_iff.mp stepped
  refine ⟨?_, fun v other => Function.update_of_ne other _ _⟩
  simp only [Function.update_self]
  exact moved

end Daemon

namespace Phase

/-- The gate is held. -/
def inGate : Phase → Bool
  | start | incremented | waiting | done _ => false
  | _ => true

/-- The slot names this handler. -/
def inSlot : Phase → Bool
  | published | running | requeueing | rerunning | deciding | comparing | clearing _ => true
  | _ => false

/-- A worker is running. -/
def working : Phase → Bool
  | running | rerunning => true
  | _ => false

/-- What the handler will answer, once it is decided. -/
def reply : Phase → Option Reply
  | clearing r | releasing r | done r => some r
  | _ => none

/-- The handler no longer owns the slot: it is about to return or has returned. -/
def ended : Phase → Bool
  | releasing _ | done _ => true
  | _ => false

end Phase

/-- The handler has published its slot and rechecked the generation after that. -/
def Handler.rechecked (self : Handler) : Bool :=
  self.verificationId.isSome && self.phase ≠ .numbered && self.phase ≠ .published

section Advance
variable {role : Role} {h : H} {answer : Answer} {self next : Handler} {g g' : Shared H}

/-- The gate is taken when it is free and given back by its owner. -/
theorem advance_gate (moved : advance role h answer self g = some (next, g')) :
    (g'.gate = g.gate ∧ next.phase.inGate = self.phase.inGate) ∨
      (g.gate = none ∧ g'.gate = some h) ∨
      (self.phase.inGate ∧ g'.gate = none ∧ next.phase.inGate = false) := by
  simp only [advance] at moved
  split at moved <;> grind [Phase.inGate, Shared.cancelActive, Shared.clearActive]

/-- A handler reads the generation once, at its start, and increments it at most then. -/
theorem advance_generation (moved : advance role h answer self g = some (next, g')) :
    next.phase ≠ .start ∧
      ((self.phase ≠ .start ∧ next.generation = self.generation ∧ g'.generation = g.generation) ∨
        (self.phase = .start ∧ next.generation = g'.generation ∧ g'.generation =
          if role = .verify false then g.generation else g.generation + 1)) := by
  simp only [advance] at moved
  split at moved <;> grind [Shared.cancelActive, Shared.clearActive]

/-- The slot is set at publication and emptied when the handler clears it. -/
theorem advance_active (moved : advance role h answer self g = some (next, g')) :
    (g'.active = g.active ∧ (next.phase.inSlot → self.phase.inSlot)) ∨
      (self.phase = .numbered ∧ next.phase = .published ∧
        g'.active = self.verificationId.map fun id => (id, h)) ∨
      (self.phase.inSlot ∧ next.phase.ended ∧ g' = g.clearActive self.verificationId) := by
  simp only [advance] at moved
  split at moved <;> grind [Phase.inSlot, Phase.ended, Shared.cancelActive, Shared.clearActive]

theorem advance_verificationId (moved : advance role h answer self g = some (next, g')) :
    (next.verificationId = self.verificationId ∧ next.phase ≠ .numbered) ∨
      (self.phase = .checked ∧ next.phase = .numbered ∧ next.verificationId ≠ none) := by
  simp only [advance] at moved
  split at moved <;> grind

theorem advance_numbered (moved : advance role h answer self g = some (next, g'))
    (numbered : self.phase = .numbered) : next.phase = .published := by
  simp only [advance, numbered, Option.some.injEq, Prod.mk.injEq] at moved
  rw [← moved.1]

/-- Once published, a handler is in the slot until it is over. -/
theorem advance_placed (moved : advance role h answer self g = some (next, g'))
    (placed : self.phase.inSlot ∨ self.phase.ended) : next.phase.inSlot ∨ next.phase.ended := by
  simp only [advance] at moved
  split at moved <;> grind [Phase.inSlot, Phase.ended]

theorem cancelActive_cancelled (g : Shared H) (v : H) :
    g.cancelActive.cancelled v = true ↔ g.cancelled v = true ∨ ∃ id, g.active = some (id, v) := by
  unfold Shared.cancelActive
  cases active : g.active with
  | none => simp
  | some entry =>
    by_cases same : v = entry.2
    · subst same
      simp [Prod.ext_iff]
    · simp [same, Prod.ext_iff, Ne.symm same]

/-- Tokens change in two places. -/
theorem advance_tokens (moved : advance role h answer self g = some (next, g')) :
    (self.phase ≠ .incremented ∧ self.phase ≠ .published ∧ g'.cancelled = g.cancelled) ∨
      (self.phase = .incremented ∧ g' = g.cancelActive) ∨
      (self.phase = .published ∧ g'.cancelled =
        if self.generation ≠ g.generation then Function.update g.cancelled h true
        else g.cancelled) := by
  simp only [advance] at moved
  split at moved <;> grind [Shared.clearActive]

/-- A token is cancelled by the cancel step of a handler, for the active one, and by
a handler's own recheck. -/
theorem advance_cancelled (moved : advance role h answer self g = some (next, g')) (v : H) :
    g'.cancelled v = true ↔ g.cancelled v = true ∨
      (self.phase = .incremented ∧ ∃ id, g.active = some (id, v)) ∨
      (v = h ∧ self.phase = .published ∧ self.generation ≠ g.generation) := by
  rcases advance_tokens moved with ⟨other, also, same⟩ | ⟨phase, rfl⟩ | ⟨phase, tokens⟩
  · simp [other, also, same]
  · simp [phase, cancelActive_cancelled]
  · rw [tokens]
    by_cases mine : v = h
    · subst mine
      by_cases same : self.generation = g.generation <;> simp [phase, same]
    · by_cases same : self.generation = g.generation <;> simp [phase, same, mine]

/-- How a handler comes to its reply. -/
theorem advance_reply (moved : advance role h answer self g = some (next, g')) :
    next.phase.reply = self.phase.reply ∨
      self.phase ≠ .start ∧ self.phase.reply = none ∧
        (next.phase.reply = some .failed ∨
          next.phase.reply = some .superseded ∧
            (self.generation ≠ g.generation ∨ g.cancelled h = true) ∨
          next.phase.reply = some .outcome ∧ self.generation = g.generation ∧
            self.phase = .comparing ∨
          self.phase = .incremented ∧ (role = .cancel ∨ role = .stop)) := by
  simp only [advance] at moved
  split at moved <;> grind [Phase.reply]

end Advance

theorem Phase.inGate_of_inSlot {phase : Phase} (inside : phase.inSlot = true) :
    phase.inGate = true := by
  cases phase <;> first | rfl | cases inside

theorem Phase.inGate_of_working {phase : Phase} (working : phase.working = true) :
    phase.inGate = true := by
  cases phase <;> first | rfl | cases working

/-- The gate, the slot and the tokens belong to the handlers that stand at them. -/
structure Orderly (s : Daemon H) : Prop where
  gate : ∀ v, (s.handlers v).phase.inGate = true → s.shared.gate = some v
  older : ∀ v, (s.handlers v).phase ≠ .start → (s.handlers v).generation ≤ s.shared.generation
  numbered : ∀ v, (s.handlers v).phase = .numbered → (s.handlers v).verificationId ≠ none
  issued : ∀ v, (s.handlers v).verificationId ≠ none → (s.handlers v).phase = .numbered ∨
    (s.handlers v).phase.inSlot = true ∨ (s.handlers v).phase.ended = true
  slot : ∀ v, (s.handlers v).phase.inSlot = true →
    ∃ id, (s.handlers v).verificationId = some id ∧ s.shared.active = some (id, v)
  owner : ∀ id v, s.shared.active = some (id, v) →
    (s.handlers v).phase.inSlot = true ∨ (s.handlers v).phase.ended = true
  cancelled : ∀ v, s.shared.cancelled v = true →
    (s.handlers v).phase.inSlot = true ∨ (s.handlers v).phase.ended = true

omit [DecidableEq H] in
theorem Orderly.init : Orderly (Daemon.init : Daemon H) where
  gate v inside := by cases inside
  older v moved := absurd rfl moved
  numbered v phase := by cases phase
  issued v given := absurd rfl given
  slot v inside := by cases inside
  owner id v held := by cases held
  cancelled v token := by cases token

section Steps
variable {role : H → Role} {s s' : Daemon H} {h : H} {answer : Answer}

omit [DecidableEq H] in
/-- While a handler is past the gate nobody else is. -/
theorem Orderly.alone (orderly : Orderly s) {v w : H} (inside : (s.handlers v).phase.inGate = true)
    (also : (s.handlers w).phase.inGate = true) : v = w :=
  Option.some.inj ((orderly.gate v inside).symm.trans (orderly.gate w also))

theorem Orderly.step_gate (orderly : Orderly s) (stepped : s.step role (h, answer) = some s') (v : H)
    (inside : (s'.handlers v).phase.inGate = true) : s'.shared.gate = some v := by
  obtain ⟨moved, other⟩ := Daemon.step_spec stepped
  by_cases own : v = h
  · subst own
    rcases advance_gate moved with ⟨same, kept⟩ | ⟨-, taken⟩ | ⟨-, -, left⟩
    · exact same.trans (orderly.gate v (kept ▸ inside))
    · exact taken
    · rw [left] at inside
      cases inside
  · rw [other v own] at inside
    rcases advance_gate moved with ⟨same, -⟩ | ⟨free, -⟩ | ⟨holding, -⟩
    · exact same.trans (orderly.gate v inside)
    · rw [orderly.gate v inside] at free
      cases free
    · exact absurd (orderly.alone inside holding) own

theorem Orderly.step_older (orderly : Orderly s) (stepped : s.step role (h, answer) = some s') (v : H)
    (begun : (s'.handlers v).phase ≠ .start) :
    (s'.handlers v).generation ≤ s'.shared.generation := by
  obtain ⟨moved, other⟩ := Daemon.step_spec stepped
  have grows : s.shared.generation ≤ s'.shared.generation := by
    rcases (advance_generation moved).2 with ⟨-, -, same⟩ | ⟨-, -, read⟩
    · exact Nat.le_of_eq same.symm
    · rw [read]
      split <;> omega
  by_cases own : v = h
  · subst own
    rcases (advance_generation moved).2 with ⟨before, kept, -⟩ | ⟨-, read, -⟩
    · rw [kept]
      exact Nat.le_trans (orderly.older v before) grows
    · exact Nat.le_of_eq read
  · rw [other v own] at begun ⊢
    exact Nat.le_trans (orderly.older v begun) grows

theorem Orderly.step_numbered (orderly : Orderly s) (stepped : s.step role (h, answer) = some s')
    (v : H) (phase : (s'.handlers v).phase = .numbered) : (s'.handlers v).verificationId ≠ none := by
  obtain ⟨moved, other⟩ := Daemon.step_spec stepped
  by_cases own : v = h
  · subst own
    rcases advance_verificationId moved with ⟨-, away⟩ | ⟨-, -, given⟩
    · exact absurd phase away
    · exact given
  · rw [other v own] at phase ⊢
    exact orderly.numbered v phase

theorem Orderly.step_slot (orderly : Orderly s) (stepped : s.step role (h, answer) = some s') (v : H)
    (inside : (s'.handlers v).phase.inSlot = true) :
    ∃ id, (s'.handlers v).verificationId = some id ∧ s'.shared.active = some (id, v) := by
  obtain ⟨moved, other⟩ := Daemon.step_spec stepped
  by_cases own : v = h
  · subst own
    have same : (s'.handlers v).verificationId = (s.handlers v).verificationId := by
      rcases advance_verificationId moved with ⟨same, -⟩ | ⟨-, phase, -⟩
      · exact same
      · rw [phase] at inside
        cases inside
    rw [same]
    rcases advance_active moved with ⟨kept, before⟩ | ⟨phase, -, placed⟩ | ⟨-, ended, -⟩
    · rw [kept]
      exact orderly.slot v (before inside)
    · obtain ⟨id, named⟩ := Option.ne_none_iff_exists'.mp (orderly.numbered v phase)
      exact ⟨id, named, by rw [placed, named]; rfl⟩
    · cases phase : (s'.handlers v).phase <;> simp [phase, Phase.inSlot, Phase.ended] at inside ended
  · rw [other v own] at inside ⊢
    have mine := Phase.inGate_of_inSlot inside
    rcases advance_active moved with ⟨kept, -⟩ | ⟨phase, -⟩ | ⟨placed, -⟩
    · rw [kept]
      exact orderly.slot v inside
    · exact absurd (orderly.alone mine (by rw [phase]; rfl)) own
    · exact absurd (orderly.alone mine (Phase.inGate_of_inSlot placed)) own

/-- A handler that was published stays in the slot or is over. -/
theorem placed_step (stepped : s.step role (h, answer) = some s') {v : H}
    (placed : (s.handlers v).phase.inSlot = true ∨ (s.handlers v).phase.ended = true) :
    (s'.handlers v).phase.inSlot = true ∨ (s'.handlers v).phase.ended = true := by
  obtain ⟨moved, other⟩ := Daemon.step_spec stepped
  by_cases own : v = h
  · subst own
    exact advance_placed moved placed
  · rw [other v own]
    exact placed

theorem Orderly.step_issued (orderly : Orderly s) (stepped : s.step role (h, answer) = some s')
    (v : H) (given : (s'.handlers v).verificationId ≠ none) : (s'.handlers v).phase = .numbered ∨
      (s'.handlers v).phase.inSlot = true ∨ (s'.handlers v).phase.ended = true := by
  obtain ⟨moved, other⟩ := Daemon.step_spec stepped
  by_cases own : v = h
  · subst own
    rcases advance_verificationId moved with ⟨same, -⟩ | ⟨-, numbered, -⟩
    · rcases orderly.issued v (same ▸ given) with numbered | placed
      · rw [advance_numbered moved numbered]
        exact .inr (.inl rfl)
      · exact .inr (placed_step stepped placed)
    · exact .inl numbered
  · rw [other v own] at given ⊢
    exact orderly.issued v given

theorem Orderly.step_owner (orderly : Orderly s) (stepped : s.step role (h, answer) = some s')
    (id : Nat) (v : H) (held : s'.shared.active = some (id, v)) :
    (s'.handlers v).phase.inSlot = true ∨ (s'.handlers v).phase.ended = true := by
  obtain ⟨moved, -⟩ := Daemon.step_spec stepped
  rcases advance_active moved with ⟨kept, -⟩ | ⟨-, phase, placed⟩ | ⟨-, -, cleared⟩
  · exact placed_step stepped (orderly.owner id v (kept ▸ held))
  · rw [placed] at held
    obtain ⟨_, -, same⟩ := Option.map_eq_some_iff.mp held
    cases same
    rw [phase]
    exact .inl rfl
  · rw [cleared, Shared.clearActive] at held
    split at held
    · cases held
    · exact placed_step stepped (orderly.owner id v held)

theorem Orderly.step_cancelled (orderly : Orderly s) (stepped : s.step role (h, answer) = some s')
    (v : H) (token : s'.shared.cancelled v = true) :
    (s'.handlers v).phase.inSlot = true ∨ (s'.handlers v).phase.ended = true := by
  refine placed_step stepped ?_
  rcases (advance_cancelled (Daemon.step_spec stepped).1 v).mp token with
    before | ⟨-, id, active⟩ | ⟨rfl, phase, -⟩
  · exact orderly.cancelled v before
  · exact orderly.owner id v active
  · rw [phase]
    exact .inl rfl

theorem Orderly.step (orderly : Orderly s) (stepped : s.step role (h, answer) = some s') :
    Orderly s' where
  gate := orderly.step_gate stepped
  older := orderly.step_older stepped
  numbered := orderly.step_numbered stepped
  issued := orderly.step_issued stepped
  slot := orderly.step_slot stepped
  owner := orderly.step_owner stepped
  cancelled := orderly.step_cancelled stepped

theorem orderly_of_reachable (reached : Reachable (Daemon.step role) Daemon.init s) : Orderly s :=
  reached.invariant (Daemon.step role) (P := Orderly)
    (fun _ _ _ orderly stepped => orderly.step stepped) .init

end Steps

end Walaru.Server
