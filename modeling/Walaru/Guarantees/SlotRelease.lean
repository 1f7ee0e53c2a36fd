import Walaru.Source.Daemon.Server

/-!
# Releasing the active-verification slot

A verify handler clears the slot by hand before it returns. It does so on every path
but one: when the runtime artifacts are gone before the requeued attempt, it returns
at once. The slot is released in every state of a run exactly when no handler of the
run takes that path.
-/
namespace Walaru.Server
open Lib.Trace

variable {H : Type} [DecidableEq H] {role : H → Role} {s s' : Daemon H} {h : H} {answer : Answer}

/-- The verification of a handler that is over is not the active one, and a cancel that
arrives while no verification runs reports that nothing was cancelled. -/
structure SlotReleased (role : H → Role) (s : Daemon H) : Prop where
  cleared : ∀ v w id, (s.handlers v).phase.ended = true → (s.handlers v).verificationId = some id →
    s.shared.active ≠ some (id, w)
  idle : (∀ v, (s.handlers v).phase.inSlot = false) → ∀ h answer s', role h = .cancel →
    (s.handlers h).phase = .incremented → s.step role (h, answer) = some s' →
      (s'.handlers h).phase = .done (.acknowledged false)

/-- The handler that moves does not fail to find the runtime artifacts again. -/
def Rediscovers (s : Daemon H) (label : H × Answer) : Prop :=
  (s.handlers label.1).phase = .requeueing → label.2 ≠ .failed

section Advance
variable {next : Handler} {self : Handler} {own : Role} {g g' : Shared H}

/-- A verification identifier is taken from the counter. -/
theorem advance_number (moved : advance own h answer self g = some (next, g')) :
    (next.verificationId = self.verificationId ∧ g'.nextVerificationId = g.nextVerificationId) ∨
      (next.verificationId = some g.nextVerificationId ∧
        g'.nextVerificationId = g.nextVerificationId + 1) := by
  simp only [advance] at moved
  split at moved <;> grind [Shared.cancelActive, Shared.clearActive]

/-- A handler leaves the slot by clearing it, or when it does not find the artifacts. -/
theorem advance_leaves (moved : advance own h answer self g = some (next, g'))
    (inside : self.phase.inSlot = true) (finished : next.phase.ended = true) :
    g' = g.clearActive self.verificationId ∨ (self.phase = .requeueing ∧ answer = .failed) := by
  simp only [advance] at moved
  split at moved <;> grind [Phase.inSlot, Phase.ended]

/-- A failed second discovery returns without a look at the slot. -/
theorem advance_requeueing_failed (moved : advance own h .failed self g = some (next, g'))
    (requeueing : self.phase = .requeueing) :
    next.phase = .releasing .failed ∧ next.verificationId = self.verificationId ∧ g' = g := by
  simp only [advance, requeueing, if_pos, Option.some.injEq, Prod.mk.injEq] at moved
  obtain ⟨rfl, rfl⟩ := moved
  exact ⟨rfl, rfl, rfl⟩

theorem advance_cancel (moved : advance .cancel h answer self g = some (next, g'))
    (incremented : self.phase = .incremented) :
    next.phase = .done (.acknowledged g.active.isSome) := by
  simp only [advance, incremented, Option.some.injEq, Prod.mk.injEq] at moved
  rw [← moved.1]

end Advance

/-- Identifiers are below the counter, no two handlers share one, and the slot holds the
identifier of its owner. -/
structure Numbered (s : Daemon H) : Prop where
  below : ∀ v id, (s.handlers v).verificationId = some id → id < s.shared.nextVerificationId
  apart : ∀ v w id, (s.handlers v).verificationId = some id →
    (s.handlers w).verificationId = some id → v = w
  entry : ∀ id v, s.shared.active = some (id, v) → (s.handlers v).verificationId = some id

omit [DecidableEq H] in
theorem Numbered.init : Numbered (Daemon.init : Daemon H) where
  below v id named := by cases named
  apart v w id named := by cases named
  entry id v active := by cases active

/-- Who stands in the slot keeps its identifier. -/
theorem Numbered.step_entry (numbered : Numbered s) (orderly : Orderly s)
    (stepped : s.step role (h, answer) = some s') (id : Nat) (v : H)
    (active : s'.shared.active = some (id, v)) : (s'.handlers v).verificationId = some id := by
  obtain ⟨moved, other⟩ := Daemon.step_spec stepped
  have kept : s.shared.active = some (id, v) → (s'.handlers v).verificationId = some id := by
    intro before
    by_cases own : v = h
    · subst own
      rcases advance_verificationId moved with ⟨same, -⟩ | ⟨checked, -, -⟩
      · rw [same]
        exact numbered.entry id v before
      · have placed := orderly.owner id v before
        rw [checked] at placed
        rcases placed with placed | placed <;> cases placed
    · rw [other v own]
      exact numbered.entry id v before
  rcases advance_active moved with ⟨same, -⟩ | ⟨numberedPhase, published, placed⟩ | ⟨-, -, cleared⟩
  · exact kept (same ▸ active)
  · rw [placed] at active
    obtain ⟨own, named, same⟩ := Option.map_eq_some_iff.mp active
    cases same
    rcases advance_verificationId moved with ⟨same, -⟩ | ⟨checked, -, -⟩
    · rw [same, named]
    · rw [numberedPhase] at checked
      cases checked
  · rw [cleared, Shared.clearActive] at active
    dsimp only at active
    split at active
    · cases active
    · exact kept active

theorem Numbered.step (numbered : Numbered s) (orderly : Orderly s)
    (stepped : s.step role (h, answer) = some s') : Numbered s' := by
  have entry := numbered.step_entry orderly stepped
  obtain ⟨moved, other⟩ := Daemon.step_spec stepped
  rcases advance_number moved with ⟨same, counter⟩ | ⟨given, counter⟩
  · have kept : ∀ v, (s'.handlers v).verificationId = (s.handlers v).verificationId := by
      intro v
      by_cases own : v = h
      · exact own ▸ same
      · rw [other v own]
    refine ⟨fun v id named => ?_, fun v w id first second => ?_, entry⟩
    · rw [counter]
      exact numbered.below v id (kept v ▸ named)
    · exact numbered.apart v w id (kept v ▸ first) (kept w ▸ second)
  · have old : ∀ v id, v ≠ h → (s'.handlers v).verificationId = some id →
        id < s.shared.nextVerificationId := by
      intro v id own named
      rw [other v own] at named
      exact numbered.below v id named
    have new : ∀ id, (s'.handlers h).verificationId = some id → id = s.shared.nextVerificationId := by
      intro id named
      rw [given] at named
      exact (Option.some.inj named).symm
    refine ⟨fun v id named => ?_, fun v w id first second => ?_, entry⟩
    · rw [counter]
      by_cases own : v = h
      · have := new id (own ▸ named)
        omega
      · have := old v id own named
        omega
    · by_cases own : v = h <;> by_cases also : w = h
      · rw [own, also]
      · have := new id (own ▸ first)
        have := old w id also second
        omega
      · have := old v id own first
        have := new id (also ▸ second)
        omega
      · rw [other v own] at first
        rw [other w also] at second
        exact numbered.apart v w id first second

/-- The entry of the slot belongs to a handler that is not over. -/
def Occupied (s : Daemon H) : Prop :=
  ∀ id v, s.shared.active = some (id, v) → (s.handlers v).phase.inSlot = true

omit [DecidableEq H] in
theorem Phase.not_ended_of_inSlot {phase : Phase} (inside : phase.inSlot = true) :
    phase.ended = false := by
  cases phase <;> first | rfl | cases inside

theorem Occupied.step (occupied : Occupied s) (orderly : Orderly s)
    (rediscovers : Rediscovers s (h, answer)) (stepped : s.step role (h, answer) = some s') :
    Occupied s' := by
  intro id v active
  obtain ⟨moved, other⟩ := Daemon.step_spec stepped
  rcases advance_active moved with ⟨kept, -⟩ | ⟨-, phase, placed⟩ | ⟨inside, -, cleared⟩
  · have before := occupied id v (kept ▸ active)
    by_cases own : v = h
    · subst own
      rcases advance_placed moved (.inl before) with inside | finished
      · exact inside
      · rcases advance_leaves moved before finished with cleared | ⟨requeueing, failed⟩
        · obtain ⟨own, named, held⟩ := orderly.slot v before
          rw [cleared, Shared.clearActive, named, held] at active
          simp at active
        · exact absurd failed (rediscovers requeueing)
    · rw [other v own]
      exact before
  · rw [placed] at active
    obtain ⟨_, -, same⟩ := Option.map_eq_some_iff.mp active
    cases same
    rw [phase]
    rfl
  · obtain ⟨own, named, held⟩ := orderly.slot h inside
    rw [cleared, Shared.clearActive, named, held] at active
    simp at active

/-- A slot that nobody who is over occupies is released. -/
theorem Occupied.released (occupied : Occupied s) (orderly : Orderly s) (numbered : Numbered s) :
    SlotReleased role s where
  cleared v w id finished named active := by
    have inside := occupied id w active
    obtain ⟨own, named', held⟩ := orderly.slot w inside
    have same : id = own := by
      rw [active] at held
      exact (Prod.mk.inj (Option.some.inj held)).1
    have := numbered.apart v w id named (same ▸ named')
    subst this
    rw [Phase.not_ended_of_inSlot inside] at finished
    cases finished
  idle quiet h answer s' cancels incremented stepped := by
    have empty : s.shared.active = none := by
      rw [Option.eq_none_iff_forall_ne_some]
      rintro ⟨id, v⟩ active
      have inside := occupied id v active
      rw [quiet v] at inside
      cases inside
    have moved := (Daemon.step_spec stepped).1
    rw [cancels] at moved
    rw [advance_cancel moved incremented, empty]
    rfl

/-- Nobody who is over occupies a released slot. -/
theorem SlotReleased.occupied (released : SlotReleased role s) (orderly : Orderly s)
    (numbered : Numbered s) : Occupied s := by
  intro id v active
  rcases orderly.owner id v active with inside | finished
  · exact inside
  · exact absurd active (released.cleared v v id finished (numbered.entry id v active))

/-- After a failed second discovery the slot still names the handler that returns. -/
theorem rediscovers_of_released (orderly : Orderly s) (stepped : s.step role (h, answer) = some s')
    (released : SlotReleased role s') : Rediscovers s (h, answer) := by
  rintro requeueing failed
  change (s.handlers h).phase = .requeueing at requeueing
  obtain rfl : answer = .failed := failed
  obtain ⟨id, named, active⟩ := orderly.slot h (by rw [requeueing]; rfl)
  obtain ⟨phase, same, shared⟩ :=
    advance_requeueing_failed (Daemon.step_spec stepped).1 requeueing
  have finished : (s'.handlers h).phase.ended = true := by
    rw [phase]
    rfl
  exact released.cleared h h id finished (same.trans named) (shared ▸ active)

/-- The slot is released in every state of a run exactly when no verify handler of the run
fails to find the runtime artifacts before its requeued attempt. -/
theorem slot_released_iff (role : H → Role) {labels : List (H × Answer)}
    (ran : run (Daemon.step role) Daemon.init labels = some s) :
    Along (Daemon.step role) Rediscovers Daemon.init labels ↔
      ∀ pre t, pre <+: labels → run (Daemon.step role) Daemon.init pre = some t →
        SlotReleased role t := by
  have start : Occupied (Daemon.init : Daemon H) := fun id v active => by cases active
  refine along_iff_always _ (I := fun t => Orderly t ∧ Numbered t) ran ⟨.init, .init⟩
    (start.released .init .init) ?_ ?_ ?_
  · rintro s ⟨h, answer⟩ s' ⟨orderly, numbered⟩ stepped
    exact ⟨orderly.step stepped, numbered.step orderly stepped⟩
  · rintro s ⟨h, answer⟩ s' ⟨orderly, numbered⟩ released rediscovers stepped
    have occupied := (released.occupied orderly numbered).step orderly rediscovers stepped
    exact occupied.released (orderly.step stepped) (numbered.step orderly stepped)
  · rintro s ⟨h, answer⟩ s' ⟨orderly, -⟩ stepped released
    exact rediscovers_of_released orderly stepped released

instance (s : Daemon H) (label : H × Answer) : Decidable (Rediscovers s label) :=
  inferInstanceAs (Decidable (_ → _))

def verifyAndCancel : Bool → Role
  | false => .verify false
  | true => .cancel

/-- The verification finds the workspace changed, finds the artifacts again, and a cancel
request comes while its second attempt runs. -/
def requeuedRun : List (Bool × Answer) :=
  List.replicate 6 (false, .finished) ++ (false, .stale) :: (false, .finished) ::
    List.replicate 2 (true, .finished) ++ (false, .cancelled) :: List.replicate 2 (false, .finished)

theorem slot_released_iff_demo :
    ∃ s, run (Daemon.step verifyAndCancel) Daemon.init requeuedRun = some s ∧
      (s.handlers false).phase = .done .superseded ∧
      (s.handlers true).phase = .done (.acknowledged true) ∧
      ∀ pre t, pre <+: requeuedRun → run (Daemon.step verifyAndCancel) Daemon.init pre = some t →
        SlotReleased verifyAndCancel t := by
  have ran : (run (Daemon.step verifyAndCancel) Daemon.init requeuedRun).any fun s =>
      decide ((s.handlers false).phase = .done .superseded ∧
        (s.handlers true).phase = .done (.acknowledged true)) := by
    decide +kernel
  have rediscovers : Along (Daemon.step verifyAndCancel) Rediscovers Daemon.init requeuedRun := by
    decide +kernel
  simp only [Option.any_eq_true, decide_eq_true_eq] at ran
  obtain ⟨s, ran, superseded, acknowledged⟩ := ran
  exact ⟨s, ran, superseded, acknowledged, (slot_released_iff verifyAndCancel ran).mp rediscovers⟩

/-- The artifacts are gone before the requeued attempt; the handler returns, and a cancel
request that comes later is told that it cancelled a verification. -/
def artifactsGone : List (Bool × Answer) :=
  List.replicate 6 (false, .finished) ++
    [(false, .stale), (false, .failed), (false, .finished), (true, .finished), (true, .finished)]

theorem slot_left_occupied :
    ∃ s, run (Daemon.step verifyAndCancel) Daemon.init artifactsGone = some s ∧
      (s.handlers false).phase = .done .failed ∧ (s.handlers false).verificationId = some 1 ∧
      s.shared.active = some (1, false) ∧ (∀ v, (s.handlers v).phase.inSlot = false) ∧
      (s.handlers true).phase = .done (.acknowledged true) := by
  have ran : (run (Daemon.step verifyAndCancel) Daemon.init artifactsGone).any fun s =>
      decide ((s.handlers false).phase = .done .failed ∧ (s.handlers false).verificationId = some 1 ∧
        s.shared.active = some (1, false) ∧ (∀ v, (s.handlers v).phase.inSlot = false) ∧
        (s.handlers true).phase = .done (.acknowledged true)) := by
    decide +kernel
  simp only [Option.any_eq_true, decide_eq_true_eq] at ran
  exact ran

end Walaru.Server
