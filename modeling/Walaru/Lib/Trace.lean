import Mathlib.Data.List.Induction

/-!
# Runs of a labelled step function

A system is a partial step function `step : σ → α → Option σ`; `none` says that
the label is not enabled. A run takes a list of labels. The rules below carry an
invariant along a run, also when only some of its steps are admitted, and find a
stuck state below any state of a terminating system.
-/
namespace Walaru.Lib.Trace

section Runs
variable {σ α : Type*} (step : σ → α → Option σ)

/-- Take the labels in order; `none` as soon as one of them is not enabled. -/
def run (s : σ) : List α → Option σ
  | [] => some s
  | a :: as => (step s a).bind (run · as)

def Reachable (init s : σ) : Prop := ∃ as, run step init as = some s

def Stuck (s : σ) : Prop := ∀ a, step s a = none

/-- Every step of the run starts in a state and under a label that `ok` admits. -/
def Along (ok : σ → α → Prop) (s : σ) : List α → Prop
  | [] => True
  | a :: as => ok s a ∧ ∀ s', step s a = some s' → Along ok s' as

/-- A decidable side condition is looked up along the run. -/
instance decidableAlong {ok : σ → α → Prop} [∀ s a, Decidable (ok s a)] (s : σ) :
    ∀ as, Decidable (Along step ok s as)
  | [] => .isTrue trivial
  | a :: as =>
    match taken : step s a with
    | none =>
      decidable_of_iff (ok s a)
        ⟨fun admitted => ⟨admitted, fun t reached => by rw [taken] at reached; cases reached⟩, And.left⟩
    | some t =>
      have : Decidable (Along step ok t as) := decidableAlong t as
      decidable_of_iff (ok s a ∧ Along step ok t as)
        ⟨fun ⟨admitted, rest⟩ =>
          ⟨admitted, fun u reached => by rw [taken] at reached; cases reached; exact rest⟩,
          fun ⟨admitted, rest⟩ => ⟨admitted, rest t taken⟩⟩

@[simp] theorem run_nil (s : σ) : run step s [] = some s := rfl

theorem run_cons_eq_some {s t : σ} {a : α} {as : List α} :
    run step s (a :: as) = some t ↔ ∃ u, step s a = some u ∧ run step u as = some t := by
  simp [run, Option.bind_eq_some_iff]

theorem run_append (s : σ) (as bs : List α) :
    run step s (as ++ bs) = (run step s as).bind (run step · bs) := by
  induction as generalizing s with
  | nil => rfl
  | cons a as ih =>
    cases h : step s a with
    | none => simp [run, h]
    | some u => simpa [run, h] using ih u

theorem run_append_eq_some {s t : σ} {as bs : List α} :
    run step s (as ++ bs) = some t ↔ ∃ u, run step s as = some u ∧ run step u bs = some t := by
  simp [run_append, Option.bind_eq_some_iff]

theorem run_snoc_eq_some {s t : σ} {as : List α} {a : α} :
    run step s (as ++ [a]) = some t ↔ ∃ u, run step s as = some u ∧ step u a = some t := by
  rw [run_append_eq_some]
  simp [run]

theorem Reachable.refl (s : σ) : Reachable step s s := ⟨[], rfl⟩

theorem Reachable.trans {s t u : σ} (first : Reachable step s t) (second : Reachable step t u) :
    Reachable step s u := by
  obtain ⟨as, has⟩ := first
  obtain ⟨bs, hbs⟩ := second
  exact ⟨as ++ bs, (run_append_eq_some step).mpr ⟨t, has, hbs⟩⟩

theorem Reachable.single {s t : σ} {a : α} (h : step s a = some t) : Reachable step s t :=
  ⟨[a], by simp [run, h]⟩

/-- What one step preserves, a whole run preserves. -/
theorem run_invariant {P : σ → Prop}
    (preserved : ∀ s a s', P s → step s a = some s' → P s')
    {s t : σ} {as : List α} (h : run step s as = some t) (start : P s) : P t := by
  induction as generalizing s with
  | nil =>
    cases h
    exact start
  | cons a as ih =>
    obtain ⟨u, hstep, hrest⟩ := (run_cons_eq_some step).mp h
    exact ih hrest (preserved s a u start hstep)

theorem Reachable.invariant {P : σ → Prop}
    (preserved : ∀ s a s', P s → step s a = some s' → P s')
    {s t : σ} (h : Reachable step s t) (start : P s) : P t := by
  obtain ⟨as, has⟩ := h
  exact run_invariant step preserved has start

/-- Induction on the last step: `P` relates the labels so far to the state. -/
theorem run_history {P : List α → σ → Prop} {init t : σ} {as : List α}
    (h : run step init as = some t) (start : P [] init)
    (extend : ∀ as s a s', run step init as = some s → P as s → step s a = some s' →
      P (as ++ [a]) s') : P as t := by
  induction as using List.reverseRecOn generalizing t with
  | nil =>
    cases h
    exact start
  | append_singleton as a ih =>
    obtain ⟨u, before, hstep⟩ := (run_snoc_eq_some step).mp h
    exact extend as u a t before (ih before) hstep

/-- The invariant rule for runs whose steps all meet a side condition. -/
theorem run_invariant_along {P : σ → Prop} {ok : σ → α → Prop}
    (preserved : ∀ s a s', P s → ok s a → step s a = some s' → P s')
    {s t : σ} {as : List α} (h : run step s as = some t) (along : Along step ok s as)
    (start : P s) : P t := by
  induction as generalizing s with
  | nil =>
    cases h
    exact start
  | cons a as ih =>
    obtain ⟨u, hstep, hrest⟩ := (run_cons_eq_some step).mp h
    exact ih hrest (along.2 u hstep) (preserved s a u start along.1 hstep)

/-- A side condition holds along a run exactly when it holds at every split. -/
theorem along_iff {ok : σ → α → Prop} {s : σ} {as : List α} :
    Along step ok s as ↔
      ∀ pre a post u, as = pre ++ a :: post → run step s pre = some u → ok u a := by
  induction as generalizing s with
  | nil => simp [Along]
  | cons b bs ih =>
    constructor
    · rintro ⟨hok, hrest⟩ pre a post u split reached
      cases pre with
      | nil =>
        simp only [List.nil_append, List.cons.injEq] at split
        cases reached
        exact split.1 ▸ hok
      | cons c pre =>
        simp only [List.cons_append, List.cons.injEq] at split
        obtain ⟨rfl, split⟩ := split
        obtain ⟨v, hstep, reached⟩ := (run_cons_eq_some step).mp reached
        exact (ih.mp (hrest v hstep)) pre a post u split reached
    · intro all
      refine ⟨all [] b bs s rfl rfl, fun v hstep => ih.mpr fun pre a post u split reached => ?_⟩
      exact all (b :: pre) a post u (by simp [split])
        ((run_cons_eq_some step).mpr ⟨v, hstep, reached⟩)

/-- Along a run that meets a side condition, every step meets what the condition gives in
the states that keep an invariant. -/
theorem along_of_invariant {I : σ → Prop} {ok good : σ → α → Prop} {s : σ} {as : List α}
    (start : I s) (preserved : ∀ s a s', I s → ok s a → step s a = some s' → I s')
    (gives : ∀ s a, I s → ok s a → good s a) (along : Along step ok s as) : Along step good s as := by
  induction as generalizing s with
  | nil => exact along
  | cons a as ih =>
    refine ⟨gives s a start along.1, fun s' stepped => ?_⟩
    exact ih (preserved s a s' start along.1 stepped) (along.2 s' stepped)

theorem Along.left {ok : σ → α → Prop} {s : σ} {pre post : List α}
    (along : Along step ok s (pre ++ post)) : Along step ok s pre := by
  induction pre generalizing s with
  | nil => trivial
  | cons a pre ih => exact ⟨along.1, fun s' stepped => ih (along.2 s' stepped)⟩

theorem Along.and {ok good : σ → α → Prop} {s : σ} {as : List α} (first : Along step ok s as)
    (second : Along step good s as) : Along step (fun s a => ok s a ∧ good s a) s as := by
  induction as generalizing s with
  | nil => trivial
  | cons a as ih =>
    refine ⟨⟨first.1, second.1⟩, fun s' stepped => ?_⟩
    exact ih (first.2 s' stepped) (second.2 s' stepped)

theorem along_trivial (s : σ) (as : List α) : Along step (fun _ _ => True) s as := by
  induction as generalizing s with
  | nil => trivial
  | cons a as ih => exact ⟨trivial, fun s' _ => ih s'⟩

/-- A side condition that keeps a property holds along a run exactly when what the property
weakens to holds in every state of the run, when no step between two such states fails it.
The invariant may rest on a further side condition, met all along. -/
theorem along_iff_always_of {I P R : σ → Prop} {given ok : σ → α → Prop} {init s : σ} {as : List α}
    (ran : run step init as = some s) (met : Along step given init as) (base : I init)
    (start : P init)
    (invariant : ∀ s a s', I s → given s a → step s a = some s' → I s')
    (kept : ∀ s a s', I s → P s → ok s a → step s a = some s' → P s')
    (weaken : ∀ s, I s → P s → R s)
    (needed : ∀ s a s', I s → R s → step s a = some s' → R s' → ok s a) :
    Along step ok init as ↔ ∀ pre t, pre <+: as → run step init pre = some t → R t := by
  constructor
  · rintro along pre t ⟨post, rfl⟩ reached
    have both := run_invariant_along step (P := fun t => I t ∧ P t)
      (fun s a s' ⟨inv, holds⟩ ⟨given, admitted⟩ stepped =>
        ⟨invariant s a s' inv given stepped, kept s a s' inv holds admitted stepped⟩)
      reached ((met.left step).and step (along.left step)) ⟨base, start⟩
    exact weaken t both.1 both.2
  · intro always
    refine (along_iff step).mpr ?_
    rintro pre a post u rfl reached
    obtain ⟨v, before, rest⟩ := (run_append_eq_some step).mp ran
    obtain rfl : u = v := Option.some.inj (reached.symm.trans before)
    obtain ⟨u', stepped, -⟩ := (run_cons_eq_some step).mp rest
    have holds := always (pre ++ [a]) u' ⟨post, by simp⟩
      ((run_snoc_eq_some step).mpr ⟨u, reached, stepped⟩)
    exact needed u a u' (run_invariant_along step invariant reached (met.left step) base)
      (always pre u (List.prefix_append pre _) reached) stepped holds

/-- A side condition that keeps a property, and that every step which leaves the property
true meets, holds along a run exactly when the property holds in every state of the run. -/
theorem along_iff_always {I P : σ → Prop} {ok : σ → α → Prop} {init s : σ} {as : List α}
    (ran : run step init as = some s) (base : I init) (start : P init)
    (invariant : ∀ s a s', I s → step s a = some s' → I s')
    (kept : ∀ s a s', I s → P s → ok s a → step s a = some s' → P s')
    (needed : ∀ s a s', I s → step s a = some s' → P s' → ok s a) :
    Along step ok init as ↔ ∀ pre t, pre <+: as → run step init pre = some t → P t :=
  along_iff_always_of step ran (along_trivial step init as) base start
    (fun s a s' inv _ => invariant s a s' inv) kept (fun _ _ holds => holds)
    fun s a s' inv _ => needed s a s' inv

/-- When every step decreases a measure, some stuck state is reachable. -/
theorem exists_stuck (measure : σ → Nat)
    (decreases : ∀ s a s', step s a = some s' → measure s' < measure s) (s : σ) :
    ∃ t, Reachable step s t ∧ Stuck step t := by
  induction hn : measure s using Nat.strongRecOn generalizing s with
  | ind n ih =>
    by_cases stuck : Stuck step s
    · exact ⟨s, Reachable.refl step s, stuck⟩
    · simp only [Stuck, not_forall] at stuck
      obtain ⟨a, enabled⟩ := stuck
      obtain ⟨u, hstep⟩ := Option.ne_none_iff_exists'.mp enabled
      obtain ⟨t, reached, final⟩ := ih (measure u) (hn ▸ decreases s a u hstep) u rfl
      exact ⟨t, (Reachable.single step hstep).trans step reached, final⟩

end Runs

section Folds
variable {σ α : Type*} {f : σ → α → Option σ} {P : σ → Prop} {items : List α}

theorem foldlM_invariant (preserved : ∀ s, ∀ a ∈ items, ∀ t, P s → f s a = some t → P t) {s t : σ}
    (success : items.foldlM f s = some t) (start : P s) : P t := by
  induction items generalizing s with
  | nil =>
    cases success
    exact start
  | cons a items ih =>
    rw [List.foldlM_cons] at success
    obtain ⟨u, first, rest⟩ := Option.bind_eq_some_iff.mp success
    refine ih (fun s b member => preserved s b (List.mem_cons_of_mem a member)) rest ?_
    exact preserved s a List.mem_cons_self u start first

theorem foldlM_isSome (enabled : ∀ s, ∀ a ∈ items, P s → ∃ t, f s a = some t ∧ P t) {s : σ}
    (start : P s) : (items.foldlM f s).isSome = true := by
  induction items generalizing s with
  | nil => rfl
  | cons a items ih =>
    obtain ⟨t, first, holds⟩ := enabled s a List.mem_cons_self start
    rw [List.foldlM_cons, first]
    exact ih (fun s b member => enabled s b (List.mem_cons_of_mem a member)) holds

end Folds

end Walaru.Lib.Trace
