import Walaru.Source.Daemon.Server

/-!
# Superseding and cancelling requests

A verify handler that an increment overtakes never answers with an outcome, and
its token is cancelled unless it was over before the cancel step. The newest
superseding handler survives exactly in the runs in which no delayed cancel step
of another handler finds it in the slot.
-/
namespace Walaru.Server
open Lib.Trace

variable {H : Type} [DecidableEq H] {role : H → Role} {s s' : Daemon H} {h : H} {answer : Answer}

/-- The increment of `w` leads from `s` to `s'`, after `v` has read its generation and
before `v` has decided on an outcome. -/
structure Overtakes (role : H → Role) (s s' : Daemon H) (v w : H) : Prop where
  verifies : ∃ supersede, role v = .verify supersede
  other : v ≠ w
  read : (s.handlers v).phase ≠ .start
  undecided : (s.handlers v).phase.reply ≠ some .outcome
  before : (s.handlers w).phase = .start
  increments : role w ≠ .verify false
  stepped : ∃ answer, s.step role (w, answer) = some s'

/-- What a verify handler can be about to answer. -/
def Verdict (reply : Option Reply) : Prop :=
  reply = none ∨ reply = some .outcome ∨ reply = some .superseded ∨ reply = some .failed

/-- An overtaken handler: its generation is old and it has no outcome. -/
structure Overtaken (v : H) (s : Daemon H) : Prop where
  read : (s.handlers v).phase ≠ .start
  older : (s.handlers v).generation < s.shared.generation
  undecided : (s.handlers v).phase.reply ≠ some .outcome

theorem generation_grows (stepped : s.step role (h, answer) = some s') :
    s.shared.generation ≤ s'.shared.generation := by
  rcases (advance_generation (Daemon.step_spec stepped).1).2 with ⟨-, -, same⟩ | ⟨-, -, read⟩
  · exact Nat.le_of_eq same.symm
  · rw [read]
    split <;> omega

/-- Past its first step a handler keeps its generation. -/
theorem generation_kept (stepped : s.step role (h, answer) = some s') {v : H}
    (read : (s.handlers v).phase ≠ .start) :
    (s'.handlers v).phase ≠ .start ∧ (s'.handlers v).generation = (s.handlers v).generation := by
  obtain ⟨moved, other⟩ := Daemon.step_spec stepped
  by_cases own : v = h
  · subst own
    obtain ⟨begun, ⟨-, same, -⟩ | ⟨start, -⟩⟩ := advance_generation moved
    · exact ⟨begun, same⟩
    · exact absurd start read
  · rw [other v own]
    exact ⟨read, rfl⟩

theorem cancelled_kept (stepped : s.step role (h, answer) = some s') {v : H}
    (token : s.shared.cancelled v = true) : s'.shared.cancelled v = true :=
  (advance_cancelled (Daemon.step_spec stepped).1 v).mpr (.inl token)

theorem verdict_step {v : H} (verifies : ∃ supersede, role v = .verify supersede)
    (verdict : Verdict (s.handlers v).phase.reply) (stepped : s.step role (h, answer) = some s') :
    Verdict (s'.handlers v).phase.reply := by
  obtain ⟨moved, other⟩ := Daemon.step_spec stepped
  by_cases own : v = h
  · subst own
    rcases advance_reply moved with kept | ⟨-, -, failed | ⟨superseded, -⟩ | ⟨outcome, -⟩ | canceller⟩
    · exact kept ▸ verdict
    · exact .inr (.inr (.inr failed))
    · exact .inr (.inr (.inl superseded))
    · exact .inr (.inl outcome)
    · obtain ⟨supersede, verify⟩ := verifies
      simp [verify] at canceller
  · rw [other v own]
    exact verdict

theorem Overtaken.step {v : H} (overtaken : Overtaken v s)
    (verifies : ∃ supersede, role v = .verify supersede)
    (stepped : s.step role (h, answer) = some s') : Overtaken v s' := by
  obtain ⟨moved, other⟩ := Daemon.step_spec stepped
  obtain ⟨begun, same⟩ := generation_kept stepped overtaken.read
  refine ⟨begun, same ▸ Nat.lt_of_lt_of_le overtaken.older (generation_grows stepped), ?_⟩
  by_cases own : v = h
  · subst own
    have older := overtaken.older
    rcases advance_reply moved with
      kept | ⟨-, -, failed | ⟨superseded, -⟩ | ⟨-, current, -⟩ | canceller⟩
    · exact kept ▸ overtaken.undecided
    · simp [failed]
    · simp [superseded]
    · omega
    · obtain ⟨supersede, verify⟩ := verifies
      simp [verify] at canceller
  · rw [other v own]
    exact overtaken.undecided

/-- The increment of another handler leaves every undecided handler overtaken. -/
theorem Overtakes.overtaken {v w : H} (orderly : Orderly s) (overtakes : Overtakes role s s' v w) :
    Overtaken v s' := by
  obtain ⟨answer, stepped⟩ := overtakes.stepped
  obtain ⟨moved, other⟩ := Daemon.step_spec stepped
  obtain ⟨begun, same⟩ := generation_kept stepped overtakes.read
  refine ⟨begun, ?_, other v overtakes.other ▸ overtakes.undecided⟩
  rcases (advance_generation moved).2 with ⟨begun, -⟩ | ⟨-, -, incremented⟩
  · exact absurd overtakes.before begun
  · rw [if_neg overtakes.increments] at incremented
    have := orderly.older v overtakes.read
    omega

/-- When an overtaken handler does its recheck it cancels its own token. -/
theorem Overtaken.recheck {v : H} (overtaken : Overtaken v s)
    (stepped : s.step role (h, answer) = some s')
    (token : (s.handlers v).rechecked = true → s.shared.cancelled v = true)
    (rechecked : (s'.handlers v).rechecked = true) : s'.shared.cancelled v = true := by
  obtain ⟨moved, other⟩ := Daemon.step_spec stepped
  by_cases own : v = h
  · subst own
    simp only [Handler.rechecked, Bool.and_eq_true, decide_eq_true_eq, ne_eq] at rechecked token
    obtain ⟨⟨given, notNumbered⟩, notPublished⟩ := rechecked
    rcases advance_verificationId moved with ⟨same, -⟩ | ⟨-, numbered, -⟩
    · by_cases numbered : (s.handlers v).phase = .numbered
      · exact absurd (advance_numbered moved numbered) notPublished
      · by_cases published : (s.handlers v).phase = .published
        · exact (advance_cancelled moved v).mpr
            (.inr (.inr ⟨rfl, published, Nat.ne_of_lt overtaken.older⟩))
        · exact cancelled_kept stepped (token ⟨⟨same ▸ given, numbered⟩, published⟩)
    · exact absurd numbered notNumbered
  · rw [other v own] at rechecked
    exact cancelled_kept stepped (token rechecked)

/-- The cancel step of another handler reaches whoever is in the slot. -/
theorem cancel_reaches {v : H} (orderly : Orderly s) (stepped : s.step role (h, answer) = some s')
    (cancelling : (s.handlers h).phase = .incremented) (other : v ≠ h)
    (rechecked : (s'.handlers v).rechecked = true) :
    s'.shared.cancelled v = true ∨ (s.handlers v).phase.ended = true := by
  obtain ⟨moved, same⟩ := Daemon.step_spec stepped
  rw [same v other] at rechecked
  simp only [Handler.rechecked, Bool.and_eq_true, decide_eq_true_eq, ne_eq] at rechecked
  obtain ⟨⟨given, notNumbered⟩, -⟩ := rechecked
  rcases orderly.issued v (Option.isSome_iff_ne_none.mp given) with numbered | inside | ended
  · exact absurd numbered notNumbered
  · obtain ⟨id, -, active⟩ := orderly.slot v inside
    exact .inl ((advance_cancelled moved v).mpr (.inr (.inl ⟨cancelling, id, active⟩)))
  · exact .inr ended

/-- An overtaken verify handler ends without an outcome. -/
theorem overtaken_reply {v : H} {t : Daemon H} (verifies : ∃ supersede, role v = .verify supersede)
    (overtaken : Overtaken v s) (verdict : Verdict (s.handlers v).phase.reply)
    (later : Reachable (Daemon.step role) s t) {reply : Reply}
    (answered : (t.handlers v).phase = .done reply) : reply = .superseded ∨ reply = .failed := by
  have kept : Overtaken v t ∧ Verdict (t.handlers v).phase.reply :=
    later.invariant _ (P := fun t => Overtaken v t ∧ Verdict (t.handlers v).phase.reply)
      (fun _ _ _ ⟨overtaken, verdict⟩ stepped =>
        ⟨overtaken.step verifies stepped, verdict_step verifies verdict stepped⟩)
      ⟨overtaken, verdict⟩
  obtain ⟨overtaken, verdict⟩ := kept
  have undecided := overtaken.undecided
  simp only [answered, Phase.reply, Verdict, Option.some.injEq, reduceCtorEq, false_or,
    ne_eq] at undecided verdict
  exact verdict.resolve_left undecided

/-- No request is lost. Nobody works beside a worker; a verify handler that another
handler's increment overtakes never answers with an outcome; and once that handler's
cancel step and its own recheck are done its token is cancelled, unless it was over
when the cancel step ran. -/
theorem overtaken_never_answers (role : H → Role) :
    (∀ s, Reachable (Daemon.step role) Daemon.init s → ∀ v w,
      (s.handlers v).phase.working = true → (s.handlers w).phase.working = true → v = w) ∧
    ∀ s₁ s₂ v w, Reachable (Daemon.step role) Daemon.init s₁ → Overtakes role s₁ s₂ v w →
      (∀ s reply, Reachable (Daemon.step role) s₂ s → (s.handlers v).phase = .done reply →
        reply = .superseded ∨ reply = .failed) ∧
      ∀ u u' s answer, Reachable (Daemon.step role) s₂ u → (u.handlers w).phase = .incremented →
        u.step role (w, answer) = some u' → Reachable (Daemon.step role) u' s →
        (s.handlers v).rechecked = true →
        s.shared.cancelled v = true ∨ (u.handlers v).phase.ended = true := by
  refine ⟨fun s reached v w working also => ?_, fun s₁ s₂ v w reached overtakes => ⟨?_, ?_⟩⟩
  · exact (orderly_of_reachable reached).alone (Phase.inGate_of_working working)
      (Phase.inGate_of_working also)
  · intro s reply later answered
    have verdict : Verdict (s₁.handlers v).phase.reply :=
      reached.invariant _ (P := fun s => Verdict (s.handlers v).phase.reply)
        (fun _ _ _ verdict stepped => verdict_step overtakes.verifies verdict stepped) (.inl rfl)
    obtain ⟨answer, stepped⟩ := overtakes.stepped
    exact overtaken_reply overtakes.verifies (overtakes.overtaken (orderly_of_reachable reached))
      (verdict_step overtakes.verifies verdict stepped) later answered
  · intro u u' s answer between cancelling cancels later rechecked
    obtain ⟨_, incremented⟩ := overtakes.stepped
    have overtaken : Overtaken v u :=
      between.invariant _ (P := Overtaken v)
        (fun _ _ _ overtaken stepped => overtaken.step overtakes.verifies stepped)
        (overtakes.overtaken (orderly_of_reachable reached))
    have orderly : Orderly u :=
      orderly_of_reachable ((reached.trans _ (.single _ incremented)).trans _ between)
    by_cases ended : (u.handlers v).phase.ended = true
    · exact .inr ended
    refine .inl ?_
    have kept : Overtaken v s ∧ ((s.handlers v).rechecked = true → s.shared.cancelled v = true) :=
      later.invariant _ (P := fun s => Overtaken v s ∧
          ((s.handlers v).rechecked = true → s.shared.cancelled v = true))
        (fun _ _ _ ⟨overtaken, token⟩ stepped =>
          ⟨overtaken.step overtakes.verifies stepped, overtaken.recheck stepped token⟩)
        ⟨overtaken.step overtakes.verifies cancels, fun rechecked =>
          (cancel_reaches orderly cancels cancelling overtakes.other rechecked).resolve_right ended⟩
    exact kept.2 rechecked

/-- A verification and a cancel request. -/
def oneCancelled : Bool → Role
  | false => .verify true
  | true => .cancel

/-- The cancel request finds the verification at work. -/
theorem overtaken_never_answers_demo :
    ∃ s₁ s₂ s : Daemon Bool, Reachable (Daemon.step oneCancelled) Daemon.init s₁ ∧
      Overtakes oneCancelled s₁ s₂ false true ∧ Reachable (Daemon.step oneCancelled) s₂ s ∧
      (∃ reply, (s.handlers false).phase = .done reply ∧ (reply = .superseded ∨ reply = .failed)) ∧
      s.shared.cancelled false = true := by
  have ran : (run (Daemon.step oneCancelled) Daemon.init (List.replicate 7 (false, .finished))).any
      fun s₁ => decide ((s₁.handlers false).phase = .running ∧ (s₁.handlers true).phase = .start) &&
        (s₁.step oneCancelled (true, .finished)).any fun u =>
          decide ((u.handlers true).phase = .incremented ∧ (u.handlers false).phase = .running) &&
          (u.step oneCancelled (true, .finished)).any fun u' =>
            (run (Daemon.step oneCancelled) u' (List.replicate 4 (false, .finished))).any fun s =>
              decide ((s.handlers false).phase = .done .superseded) &&
                (s.handlers false).rechecked := by
    decide +kernel
  simp only [Option.any_eq_true, Bool.and_eq_true, decide_eq_true_eq] at ran
  obtain ⟨s₁, first, ⟨working, before⟩, u, increments, ⟨incremented, still⟩, u', cancels, s, last,
    answered, rechecked⟩ := ran
  have reached : Reachable (Daemon.step oneCancelled) Daemon.init s₁ := ⟨_, first⟩
  have overtakes : Overtakes oneCancelled s₁ u false true :=
    ⟨⟨true, rfl⟩, by decide, by rw [working]; decide, by rw [working]; decide, before, by decide,
      ⟨_, increments⟩⟩
  have later : Reachable (Daemon.step oneCancelled) u s :=
    (Reachable.single _ cancels).trans _ ⟨_, last⟩
  obtain ⟨noOutcome, cancelled⟩ :=
    (overtaken_never_answers oneCancelled).2 s₁ u false true reached overtakes
  refine ⟨s₁, u, s, reached, overtakes, later, ⟨_, answered, noOutcome s _ later answered⟩, ?_⟩
  have at_work : (u.handlers false).phase.ended ≠ true := by
    rw [still]
    decide
  have done := cancelled u u' s .finished (.refl _ _) incremented cancels ⟨_, last⟩ rechecked
  exact done.resolve_right at_work

/-- The verification is overtaken before its last comparison and releases the slot;
then the cancel step finds nobody. Both are done, and the token is not cancelled. -/
theorem overtaken_token_left :
    ∃ s₁ s₂ u s : Daemon Bool, Reachable (Daemon.step oneCancelled) Daemon.init s₁ ∧
      Overtakes oneCancelled s₁ s₂ false true ∧ (s₁.handlers false).phase = .comparing ∧
      Reachable (Daemon.step oneCancelled) s₂ u ∧ (u.handlers true).phase = .incremented ∧
      u.step oneCancelled (true, .finished) = some s ∧ (s.handlers false).rechecked = true ∧
      s.shared.cancelled false = false := by
  have ran : (run (Daemon.step oneCancelled) Daemon.init (List.replicate 9 (false, .finished))).any
      fun s₁ => decide ((s₁.handlers false).phase = .comparing ∧ (s₁.handlers true).phase = .start) &&
        (s₁.step oneCancelled (true, .finished)).any fun s₂ =>
          (run (Daemon.step oneCancelled) s₂ (List.replicate 3 (false, .finished))).any fun u =>
            decide ((u.handlers true).phase = .incremented) &&
            (u.step oneCancelled (true, .finished)).any fun s =>
              (s.handlers false).rechecked && !s.shared.cancelled false := by
    decide +kernel
  simp only [Option.any_eq_true, Bool.and_eq_true, decide_eq_true_eq, Bool.not_eq_true'] at ran
  obtain ⟨s₁, first, ⟨comparing, before⟩, s₂, increments, u, last, incremented, s, cancels,
    rechecked, left⟩ := ran
  exact ⟨s₁, s₂, u, s, ⟨_, first⟩,
    ⟨⟨true, rfl⟩, by decide, by rw [comparing]; decide, by rw [comparing]; decide, before, by decide,
      ⟨_, increments⟩⟩,
    comparing, ⟨_, last⟩, incremented, cancels, rechecked, left⟩

/-- The superseding handler `n` has incremented the generation and nobody has since. -/
structure Newest (role : H → Role) (s : Daemon H) (n : H) : Prop where
  supersedes : role n = .verify true
  read : (s.handlers n).phase ≠ .start
  current : (s.handlers n).generation = s.shared.generation

/-- The newest handler is neither cancelled nor about to answer as superseded. -/
def NewestSurvives (role : H → Role) (s : Daemon H) : Prop :=
  ∀ n, Newest role s n →
    s.shared.cancelled n = false ∧ (s.handlers n).phase.reply ≠ some .superseded

/-- The handler that moves does not come to its cancel step with the newest in the slot. -/
def SparesNewest (role : H → Role) (s : Daemon H) (label : H × Answer) : Prop :=
  ∀ id n, (s.handlers label.1).phase = .incremented → s.shared.active = some (id, n) →
    ¬ Newest role s n

theorem Phase.begun_of_placed {phase : Phase} (placed : phase.inSlot = true ∨ phase.ended = true) :
    phase ≠ .start := by
  rintro rfl
  rcases placed with placed | placed <;> cases placed

theorem Phase.begun_of_reply {phase : Phase} {reply : Reply} (decided : phase.reply = some reply) :
    phase ≠ .start := by
  rintro rfl
  cases decided

/-- A handler turns superseded when its generation is old or its token cancelled. -/
theorem superseded_step {v : H} {supersede : Bool} (verifies : role v = .verify supersede)
    (stepped : s.step role (h, answer) = some s')
    (superseded : (s'.handlers v).phase.reply = some .superseded) :
    (s.handlers v).phase.reply = some .superseded ∨ (s.handlers v).phase ≠ .start ∧
      ((s.handlers v).generation ≠ s.shared.generation ∨ s.shared.cancelled v = true) := by
  obtain ⟨moved, other⟩ := Daemon.step_spec stepped
  by_cases own : v = h
  · subst own
    rcases advance_reply moved with
      kept | ⟨begun, -, failed | ⟨-, reason⟩ | ⟨outcome, -⟩ | canceller⟩
    · exact .inl (kept ▸ superseded)
    · rw [failed] at superseded
      cases superseded
    · exact .inr ⟨begun, reason⟩
    · rw [outcome] at superseded
      cases superseded
    · simp [verifies] at canceller
  · exact .inl (other v own ▸ superseded)

/-- The newest was the newest a step before, unless it has just incremented. -/
theorem Newest.before {n : H} (newest : Newest role s' n) (orderly : Orderly s)
    (stepped : s.step role (h, answer) = some s') (read : (s.handlers n).phase ≠ .start) :
    Newest role s n := by
  refine ⟨newest.supersedes, read, Nat.le_antisymm (orderly.older n read) ?_⟩
  rw [← (generation_kept stepped read).2, newest.current]
  exact generation_grows stepped

theorem NewestSurvives.step (survives : NewestSurvives role s) (orderly : Orderly s)
    (spares : SparesNewest role s (h, answer)) (stepped : s.step role (h, answer) = some s') :
    NewestSurvives role s' := by
  intro n newest
  refine ⟨Bool.eq_false_iff.mpr fun token => ?_, fun superseded => ?_⟩
  · rcases (advance_cancelled (Daemon.step_spec stepped).1 n).mp token with
      earlier | ⟨incremented, id, active⟩ | ⟨rfl, published, older⟩
    · have begun := Phase.begun_of_placed (orderly.cancelled n earlier)
      rw [(survives n (newest.before orderly stepped begun)).1] at earlier
      cases earlier
    · have begun := Phase.begun_of_placed (orderly.owner id n active)
      exact spares id n incremented active (newest.before orderly stepped begun)
    · exact older (newest.before orderly stepped (by rw [published]; decide)).current
  · rcases superseded_step newest.supersedes stepped superseded with earlier | ⟨begun, reason⟩
    · have before := newest.before orderly stepped (Phase.begun_of_reply earlier)
      exact (survives n before).2 earlier
    · have before := newest.before orderly stepped begun
      rcases reason with older | token
      · exact older before.current
      · rw [(survives n before).1] at token
        cases token

/-- A cancel step that comes with the newest in the slot cancels it. -/
theorem newest_cancelled {n : H} {id : Nat} (stepped : s.step role (h, answer) = some s')
    (incremented : (s.handlers h).phase = .incremented) (active : s.shared.active = some (id, n)) (newest : Newest role s n) :
    Newest role s' n ∧ s'.shared.cancelled n = true := by
  obtain ⟨moved, -⟩ := Daemon.step_spec stepped
  obtain ⟨read, kept⟩ := generation_kept stepped newest.read
  refine ⟨⟨newest.supersedes, read, ?_⟩,
    (advance_cancelled moved n).mpr (.inr (.inl ⟨incremented, id, active⟩))⟩
  rcases (advance_generation moved).2 with ⟨-, -, same⟩ | ⟨start, -⟩
  · rw [kept, same, newest.current]
  · rw [incremented] at start
    cases start

/-- The newest request survives in every state of a run exactly when no handler of
the run comes to its cancel step with the newest in the slot. -/
theorem newest_survives_iff (role : H → Role) {labels : List (H × Answer)}
    (ran : run (Daemon.step role) Daemon.init labels = some s) :
    Along (Daemon.step role) (SparesNewest role) Daemon.init labels ↔
      ∀ pre t, pre <+: labels → run (Daemon.step role) Daemon.init pre = some t →
        NewestSurvives role t := by
  have nobody : NewestSurvives role (Daemon.init : Daemon H) := fun n newest => absurd rfl newest.read
  apply along_iff_always _ (I := Orderly) ran .init nobody
  · rintro s ⟨h, answer⟩ s' orderly stepped
    exact orderly.step stepped
  · rintro s ⟨h, answer⟩ s' orderly survives spared stepped
    exact survives.step orderly spared stepped
  · rintro s ⟨h, answer⟩ s' orderly stepped survives id n incremented active newest
    obtain ⟨still, cancelled⟩ := newest_cancelled stepped incremented active newest
    have spared := (survives n still).1
    rw [cancelled] at spared
    cases spared

instance (role : H → Role) (s : Daemon H) (n : H) : Decidable (Newest role s n) :=
  decidable_of_iff (role n = .verify true ∧ (s.handlers n).phase ≠ .start ∧
      (s.handlers n).generation = s.shared.generation)
    ⟨fun ⟨supersedes, read, current⟩ => ⟨supersedes, read, current⟩,
      fun newest => ⟨newest.supersedes, newest.read, newest.current⟩⟩

instance (role : H → Role) (s : Daemon H) (label : H × Answer) :
    Decidable (SparesNewest role s label) :=
  decidable_of_iff ((s.handlers label.1).phase = .incremented →
      ∀ entry ∈ s.shared.active, ¬ Newest role s entry.2)
    ⟨fun spares id n incremented active => spares incremented (id, n) active,
      fun spares incremented entry active => spares entry.1 entry.2 incremented active⟩

def bothSupersede : Bool → Role := fun _ => .verify true

/-- The second handler comes while the worker of the first runs, and cancels it. -/
def supersededAtWork : List (Bool × Answer) :=
  List.replicate 7 (false, .finished) ++ List.replicate 2 (true, .finished) ++
    (false, .cancelled) :: List.replicate 2 (false, .finished) ++
    List.replicate 10 (true, .finished)

theorem newest_survives_iff_demo :
    ∃ s, run (Daemon.step bothSupersede) Daemon.init supersededAtWork = some s ∧
      (s.handlers false).phase = .done .superseded ∧ (s.handlers true).phase = .done .outcome ∧
      ∀ pre t, pre <+: supersededAtWork →
        run (Daemon.step bothSupersede) Daemon.init pre = some t → NewestSurvives bothSupersede t := by
  have ran : (run (Daemon.step bothSupersede) Daemon.init supersededAtWork).any fun s =>
      decide ((s.handlers false).phase = .done .superseded ∧
        (s.handlers true).phase = .done .outcome) := by
    decide +kernel
  have spares : Along (Daemon.step bothSupersede) (SparesNewest bothSupersede) Daemon.init
      supersededAtWork := by
    decide +kernel
  simp only [Option.any_eq_true, decide_eq_true_eq] at ran
  obtain ⟨s, ran, superseded, answered⟩ := ran
  exact ⟨s, ran, superseded, answered, (newest_survives_iff bothSupersede ran).mp spares⟩

/-- The older handler is delayed between its increment and its cancel step; the newer
one increments, finds nobody to cancel, and its worker runs when the older one comes. -/
def delayedCancel : List (Bool × Answer) :=
  (true, .finished) :: List.replicate 7 (false, .finished) ++
    (true, .finished) :: (false, .cancelled) :: List.replicate 2 (false, .finished)

theorem newest_superseded :
    ∃ s, run (Daemon.step bothSupersede) Daemon.init delayedCancel = some s ∧
      Newest bothSupersede s false ∧ s.shared.cancelled false = true ∧
      (s.handlers false).phase = .done .superseded := by
  have ran : (run (Daemon.step bothSupersede) Daemon.init delayedCancel).any fun s =>
      decide ((s.handlers false).generation = s.shared.generation ∧
        s.shared.cancelled false = true ∧ (s.handlers false).phase = .done .superseded) := by
    decide +kernel
  simp only [Option.any_eq_true, decide_eq_true_eq] at ran
  obtain ⟨s, ran, current, cancelled, answered⟩ := ran
  exact ⟨s, ran, ⟨rfl, by rw [answered]; decide, current⟩, cancelled, answered⟩

end Walaru.Server
