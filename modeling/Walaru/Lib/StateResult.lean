/-!
# Inverting programs over a store that survives failure

`EStateM` keeps the state on both ends of a computation. These rules take a
successful run of a sequence apart into the runs of its steps, so that a proof
about a long procedure never unfolds it.
-/
namespace Walaru.Lib.StateResult

section Inversion
variable {ε σ α β : Type}

theorem bind_ok {x : EStateM ε σ α} {f : α → EStateM ε σ β} {s t : σ} {b : β} :
    (x >>= f) s = .ok b t ↔ ∃ a u, x s = .ok a u ∧ f a u = .ok b t := by
  constructor
  · intro h
    cases hx : x s with
    | ok a u =>
      refine ⟨a, u, rfl, ?_⟩
      simpa [bind, EStateM.bind, hx] using h
    | error e u => simp [bind, EStateM.bind, hx] at h
  · rintro ⟨a, u, hx, hf⟩
    simp [bind, EStateM.bind, hx, hf]

theorem bind_error {x : EStateM ε σ α} {f : α → EStateM ε σ β} {s t : σ} {e : ε} :
    (x >>= f) s = .error e t ↔
      x s = .error e t ∨ ∃ a u, x s = .ok a u ∧ f a u = .error e t := by
  cases hx : x s with
  | ok a u =>
    simp only [bind, EStateM.bind, hx, reduceCtorEq, EStateM.Result.ok.injEq, false_or]
    constructor
    · exact fun h => ⟨a, u, ⟨rfl, rfl⟩, h⟩
    · rintro ⟨_, _, ⟨rfl, rfl⟩, h⟩
      exact h
  | error e' u => simp [bind, EStateM.bind, hx]

theorem bind_of_ok {x : EStateM ε σ α} {f : α → EStateM ε σ β} {s t : σ} {a : α}
    (run : x s = .ok a t) : (x >>= f) s = f a t := by
  simp [bind, EStateM.bind, run]

theorem bind_of_error {x : EStateM ε σ α} {f : α → EStateM ε σ β} {s t : σ} {e : ε}
    (run : x s = .error e t) : (x >>= f) s = .error e t := by
  simp [bind, EStateM.bind, run]

@[simp] theorem pure_ok {a b : α} {s t : σ} :
    (pure a : EStateM ε σ α) s = .ok b t ↔ a = b ∧ s = t := by
  simp [pure, EStateM.pure]

@[simp] theorem pure_error {a : α} {s t : σ} {e : ε} :
    (pure a : EStateM ε σ α) s = .error e t ↔ False := by
  simp [pure, EStateM.pure]

@[simp] theorem throw_ok {e : ε} {b : α} {s t : σ} :
    (throw e : EStateM ε σ α) s = .ok b t ↔ False := by
  change (EStateM.Result.error e s : EStateM.Result ε σ α) = .ok b t ↔ False
  simp

@[simp] theorem throw_error {e e' : ε} {s t : σ} :
    (throw e : EStateM ε σ α) s = .error e' t ↔ e = e' ∧ s = t := by
  change (EStateM.Result.error e s : EStateM.Result ε σ α) = .error e' t ↔ e = e' ∧ s = t
  simp

/-- A step that only inspects: it fails with `e` when told to. -/
def refuse (e : Option ε) : EStateM ε σ Unit :=
  match e with
  | some e => throw e
  | none => pure ()

@[simp] theorem refuse_ok {e : Option ε} {s t : σ} {u : Unit} :
    refuse e s = .ok u t ↔ e = none ∧ s = t := by
  cases e <;> simp [refuse]

@[simp] theorem refuse_error {e : Option ε} {e' : ε} {s t : σ} :
    refuse e s = .error e' t ↔ e = some e' ∧ s = t := by
  cases e <;> simp [refuse]

/-- Read an answer that does not depend on the store. -/
def answer (r : Except ε α) : EStateM ε σ α :=
  match r with
  | .ok a => pure a
  | .error e => throw e

@[simp] theorem answer_ok {r : Except ε α} {a : α} {s t : σ} :
    answer r s = .ok a t ↔ r = .ok a ∧ s = t := by
  cases r <;> simp [answer]

@[simp] theorem answer_error {r : Except ε α} {e : ε} {s t : σ} :
    answer r s = .error e t ↔ r = .error e ∧ s = t := by
  cases r <;> simp [answer]

/-- The computation answers a value that the test accepts. -/
def answers (accepts : α → Bool) : EStateM.Result ε σ α → Bool
  | .ok a _ => accepts a
  | .error _ _ => false

theorem exists_of_answers {accepts : α → Bool} {r : EStateM.Result ε σ α}
    (h : answers accepts r = true) : ∃ a s, r = .ok a s ∧ accepts a = true := by
  cases r with
  | ok a s => exact ⟨a, s, rfl, h⟩
  | error e s => cases h

/-- The store at the end of a computation, however it ended. -/
def storeOf : EStateM.Result ε σ α → σ
  | .ok _ s => s
  | .error _ s => s

/-- A computation that never writes. -/
def ReadOnly (x : EStateM ε σ α) : Prop := ∀ s, storeOf (x s) = s

theorem ReadOnly.ok {x : EStateM ε σ α} (h : ReadOnly x) {s t : σ} {a : α} (run : x s = .ok a t) :
    t = s := by
  simpa [run, storeOf] using h s

theorem ReadOnly.error {x : EStateM ε σ α} (h : ReadOnly x) {s t : σ} {e : ε}
    (run : x s = .error e t) : t = s := by
  simpa [run, storeOf] using h s

theorem ReadOnly.bind {x : EStateM ε σ α} {f : α → EStateM ε σ β} (first : ReadOnly x)
    (later : ∀ a, ReadOnly (f a)) : ReadOnly (x >>= f) := by
  intro s
  cases h : (x >>= f) s with
  | ok b t =>
    obtain ⟨a, u, run, rest⟩ := bind_ok.mp h
    exact ((later a).ok rest).trans (first.ok run)
  | error e t =>
    rcases bind_error.mp h with run | ⟨a, u, run, rest⟩
    · exact first.error run
    · exact ((later a).error rest).trans (first.ok run)

theorem ReadOnly.pure (a : α) : ReadOnly (pure a : EStateM ε σ α) := fun _ => rfl

theorem ReadOnly.refuse (e : Option ε) : ReadOnly (refuse e : EStateM ε σ Unit) := by
  intro s
  cases e <;> rfl

theorem ReadOnly.answer (r : Except ε α) : ReadOnly (answer r : EStateM ε σ α) := by
  intro s
  cases r <;> rfl

/-- A computation that keeps a property of the store, however it ends. -/
def Preserves (P : σ → Prop) (x : EStateM ε σ α) : Prop := ∀ s, P s → P (storeOf (x s))

variable {P : σ → Prop}

theorem Preserves.ok {x : EStateM ε σ α} (h : Preserves P x) {s t : σ} {a : α} (holds : P s)
    (run : x s = .ok a t) : P t := by
  simpa [run, storeOf] using h s holds

theorem Preserves.error {x : EStateM ε σ α} (h : Preserves P x) {s t : σ} {e : ε} (holds : P s)
    (run : x s = .error e t) : P t := by
  simpa [run, storeOf] using h s holds

theorem Preserves.bind {x : EStateM ε σ α} {f : α → EStateM ε σ β} (first : Preserves P x)
    (later : ∀ a, Preserves P (f a)) : Preserves P (x >>= f) := by
  intro s holds
  cases h : (x >>= f) s with
  | ok b t =>
    obtain ⟨a, u, run, rest⟩ := bind_ok.mp h
    exact (later a).ok (first.ok holds run) rest
  | error e t =>
    rcases bind_error.mp h with run | ⟨a, u, run, rest⟩
    · exact first.error holds run
    · exact (later a).error (first.ok holds run) rest

theorem ReadOnly.preserves {x : EStateM ε σ α} (h : ReadOnly x) : Preserves P x := by
  intro s holds
  rwa [h s]

theorem ReadOnly.throw (e : ε) : ReadOnly (throw e : EStateM ε σ α) := fun _ => rfl

theorem Preserves.foldlM {f : β → α → EStateM ε σ β} (step : ∀ b a, Preserves P (f b a))
    (items : List α) (b : β) : Preserves P (items.foldlM f b) := by
  induction items generalizing b with
  | nil => exact (ReadOnly.pure b).preserves
  | cons a items ih =>
    rw [List.foldlM_cons]
    exact (step b a).bind fun b' => ih b'

theorem Preserves.forM {f : α → EStateM ε σ PUnit} (step : ∀ a, Preserves P (f a))
    (items : List α) : Preserves P (items.forM f) := by
  induction items with
  | nil => exact (ReadOnly.pure _).preserves
  | cons a items ih => exact (step a).bind fun _ => ih

end Inversion

end Walaru.Lib.StateResult
