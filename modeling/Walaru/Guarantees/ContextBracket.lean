import Walaru.Guarantees.TestStack
import Walaru.Lib.Brackets
import Walaru.Source.Agent.ContextTokens

/-!
# Contexts are carried in brackets

A wrapped task is a scope of the slot of its thread, and a context that ends is a value that
dies. Whatever the other threads do, the code of a task sees the captured test while that is
active, and the thread is left with the test that it had before the outermost task, if that
is still active.
-/
namespace Walaru.Agent
open Lib.Brackets Lib.Trace

/-- The first contexts of an agent. -/
abbrev Below (n : Nat) : Nat → Prop := fun context => context < n

theorem TestContexts.deactivate_dies (v : TestContexts) (context : Nat) :
    Dies (fun _ => True) v.active (v.deactivate context).active := by
  intro value _ later
  rw [TestContexts.active_deactivate, Bool.and_eq_true] at later
  exact later.1

/-- A test that starts adds its context and may end the one it replaces. -/
theorem TestContexts.testStarted_shared (v : TestContexts) (id : String) :
    Dies (Below v.contexts.length) v.active (v.testStarted id).active ∧
      (v.testStarted id).contexts.length = v.contexts.length + 1 ∧
      (v.testStarted id).local_ = some v.contexts.length := by
  have added : ∀ context : TestContext, ∀ activeTests, Dies (Below v.contexts.length) v.active
      ({ v with contexts := v.contexts ++ [context], activeTests := activeTests } :
        TestContexts).active := by
    intro context activeTests value below later
    unfold TestContexts.active at later ⊢
    dsimp only at later
    rwa [List.getElem?_append_left below] at later
  unfold TestContexts.testStarted
  dsimp only
  cases v.activeTests[id]? with
  | none => exact ⟨added _ (v.activeTests.insert id v.contexts.length), by simp, rfl⟩
  | some replaced =>
    dsimp only
    refine ⟨fun value below later => ?_, by simp, rfl⟩
    exact added _ (v.activeTests.insert id v.contexts.length) value below
      (TestContexts.deactivate_dies _ replaced value trivial later)

theorem TestContexts.restore_shared (v : TestContexts) (slot : Option Nat)
    (known : Knows (Below v.contexts.length) v.local_) :
    (v.restore slot).contexts = v.contexts ∧
      Knows (Below v.contexts.length) (v.restore slot).local_ := by
  cases slot with
  | none => exact ⟨rfl, known⟩
  | some context =>
    refine ⟨rfl, fun value held => ?_⟩
    exact TestContexts.lt_of_active (Option.filter_eq_some_iff.mp held).2

/-- A test that finishes may end a context and leave the slot with the one before. -/
theorem TestContexts.testFinished_shared (v : TestContexts) (id : String)
    (known : Knows (Below v.contexts.length) v.local_) :
    Dies (fun _ => True) v.active (v.testFinished id).active ∧
      (v.testFinished id).contexts.length = v.contexts.length ∧
      Knows (Below v.contexts.length) (v.testFinished id).local_ := by
  have ended : ∀ ended : TestContexts, ended.local_ = v.local_ →
      ended.contexts.length = v.contexts.length → Dies (fun _ => True) v.active ended.active →
      ∀ (named : Prop) (dec : Decidable named),
        let result := if named then ended.restore ended.local_ else { ended with threw := false }
        Dies (fun _ => True) v.active result.active ∧ result.contexts.length = v.contexts.length ∧
          Knows (Below v.contexts.length) result.local_ := by
    intro ended same length dies named dec
    rw [← length, ← same] at known
    by_cases restored : named
    · obtain ⟨contexts, slot⟩ := ended.restore_shared ended.local_ known
      dsimp only
      rw [if_pos restored]
      refine ⟨fun value _ later => ?_, by rw [contexts, length], length ▸ slot⟩
      unfold TestContexts.active at later
      rw [contexts] at later
      exact dies value trivial later
    · dsimp only
      rw [if_neg restored]
      exact ⟨dies, length, length ▸ known⟩
  unfold TestContexts.testFinished
  dsimp only
  generalize (if v.activeTests[id]? = none ∧
    (v.local_.any fun context =>
      { v with activeTests := v.activeTests.erase id }.uniqueId context = some id) = true then v.local_
    else v.activeTests[id]?) = context
  cases context with
  | none =>
    exact @ended { v with activeTests := v.activeTests.erase id } rfl rfl (fun _ _ later => later) _ _
  | some context =>
    have dies : Dies (fun _ => True) v.active
        ({ v with activeTests := v.activeTests.erase id }.deactivate context).active :=
      fun value _ later => TestContexts.deactivate_dies
        { v with activeTests := v.activeTests.erase id } context value trivial later
    exact @ended ({ v with activeTests := v.activeTests.erase id }.deactivate context) rfl
      TestContexts.length_deactivate dies _ _

namespace ContextRun

/-- What one step does. -/
inductive Steps (s : ContextRun) : Nat × ContextCall → ContextRun → Prop
  | testStarted (thread : Nat) (id : String) (idle : s.Idle thread) :
      Steps s (thread, .testStarted id) (s.withView thread ((s.view thread).testStarted id))
  | testFinished (thread : Nat) (id : String) (idle : s.Idle thread) :
      Steps s (thread, .testFinished id) (s.withView thread ((s.view thread).testFinished id))
  | fork (thread child : Nat) (parent : thread ∈ s.threads) (fresh : child ∉ s.threads) :
      Steps s (thread, .fork child)
        { s with
          threads := child :: s.threads
          slot := Function.update s.slot child (s.slot thread) }
  | capture (thread : Nat) :
      Steps s (thread, .capture) { s with captured := s.capture thread :: s.captured }
  | wrap (thread : Nat) (token : Option Nat) (taken : token ∈ s.captured) :
      Steps s (thread, .wrap token) { s with tasks := ⟨token, s.present token⟩ :: s.tasks }
  | enter (thread : Nat) (task : ContextTask) (present : thread ∈ s.threads)
      (ready : s.pending thread = none) (wrapped : task ∈ s.tasks) :
      Steps s (thread, .enter task)
        { s with
          frames := Function.update s.frames thread (⟨task, s.currentTest thread⟩ :: s.frames thread)
          pending := Function.update s.pending thread
            (if task.swaps then some (s.swapped task.token) else none) }
  | leave (thread : Nat) (threw : Bool) (frame : ContextFrame) (rest : List ContextFrame)
      (ready : s.pending thread = none) (running : s.frames thread = frame :: rest) :
      Steps s (thread, .leave threw)
        { s with
          frames := Function.update s.frames thread rest
          pending := Function.update s.pending thread
            (if frame.task.swaps then some (s.swapped frame.previous) else none) }
  | install (thread : Nat) (context : Option Nat) (swapping : s.pending thread = some context) :
      Steps s (thread, .install)
        { s with
          slot := Function.update s.slot thread context
          pending := Function.update s.pending thread none }

theorem step_cases {s s' : ContextRun} {call : Nat × ContextCall} (stepped : s.step call = some s') :
    Steps s call s' := by
  obtain ⟨thread, call⟩ := call
  cases call with
  | testStarted id =>
    simp only [step, Option.ite_none_right_eq_some] at stepped
    obtain ⟨⟨-, idle⟩, built⟩ := stepped
    cases built
    exact .testStarted thread id idle
  | testFinished id =>
    simp only [step, Option.ite_none_right_eq_some] at stepped
    obtain ⟨⟨-, idle⟩, built⟩ := stepped
    cases built
    exact .testFinished thread id idle
  | fork child =>
    simp only [step, Option.ite_none_right_eq_some] at stepped
    obtain ⟨⟨parent, -, fresh⟩, built⟩ := stepped
    cases built
    exact .fork thread child parent fresh
  | capture =>
    simp only [step, Option.ite_none_right_eq_some] at stepped
    obtain ⟨-, built⟩ := stepped
    cases built
    exact .capture thread
  | wrap token =>
    simp only [step, Option.ite_none_right_eq_some] at stepped
    obtain ⟨⟨-, -, taken⟩, built⟩ := stepped
    cases built
    exact .wrap thread token taken
  | enter task =>
    simp only [step, Option.ite_none_right_eq_some] at stepped
    obtain ⟨⟨present, ready, wrapped⟩, built⟩ := stepped
    cases built
    exact .enter thread task present ready wrapped
  | leave threw =>
    simp only [step, Option.ite_none_right_eq_some] at stepped
    obtain ⟨ready, stepped⟩ := stepped
    split at stepped
    · cases stepped
    · rename_i frame rest running
      cases stepped
      exact .leave thread threw frame rest ready running
  | install =>
    simp only [step] at stepped
    split at stepped
    · cases stepped
    · rename_i context swapping
      cases stepped
      exact .install thread context swapping

/-- What the slot of a thread holds, or will hold when its swap is through. -/
def slotNow (s : ContextRun) (thread : Nat) : Option Nat := (s.pending thread).getD (s.slot thread)

/-- An action that is not wrapped shows what there was before it. -/
def scope (frame : ContextFrame) : Scope Nat :=
  ⟨if frame.task.swaps then frame.task.token else frame.previous, frame.previous⟩

/-- The tasks of the thread are scopes above this slot. -/
def Scoped (s : ContextRun) (thread : Nat) (base : Option Nat) : Prop :=
  Layered s.active (s.slotNow thread) ((s.frames thread).map scope) base

abbrev Known (contexts : List TestContext) : Option Nat → Prop := Knows (Below contexts.length)

def alive (contexts : List TestContext) (context : Nat) : Bool :=
  (contexts[context]?).any TestContext.active

/-- A task swaps only in a run with events, and the token of one that does not is dead. -/
structure Wrapped (events : Bool) (contexts : List TestContext) (task : ContextTask) : Prop where
  known : Known contexts task.token
  events : task.swaps = true → events = true
  dead : task.swaps = false → task.token.filter (alive contexts) = none

structure Sound (s : ContextRun) : Prop where
  slots : ∀ thread, Known s.contexts (s.slot thread)
  swaps : ∀ thread, Known s.contexts (s.slotNow thread)
  captured : ∀ token ∈ s.captured, Known s.contexts token ∧ (s.events = false → token = none)
  tasks : ∀ task ∈ s.tasks, Wrapped s.events s.contexts task
  frames : ∀ thread, ∀ frame ∈ s.frames thread,
    Wrapped s.events s.contexts frame.task ∧ Known s.contexts frame.previous
  outside : ∀ thread, thread ∉ s.threads → s.Idle thread

theorem filter_known (s : ContextRun) (slot : Option Nat) :
    Known s.contexts (slot.filter s.active) := by
  intro value held
  have live := (Option.filter_eq_some_iff.mp held).2
  unfold active at live
  obtain ⟨context, found, -⟩ := (Option.any_eq_true _ _).mp live
  exact (List.getElem?_eq_some_iff.mp found).1

theorem currentTest_eq (s : ContextRun) (thread : Nat) :
    s.currentTest thread = (s.slot thread).filter s.active := rfl

theorem swapped_known {s : ContextRun} {slot : Option Nat} (known : Known s.contexts slot) :
    Known s.contexts (s.swapped slot) := by
  unfold swapped
  split
  · exact known
  · exact nofun

theorem filter_swapped {s : ContextRun} (events : s.events = true) (slot : Option Nat) :
    (s.swapped slot).filter s.active = slot.filter s.active := by
  unfold swapped
  rw [events, Bool.true_and]
  cases slot with
  | none => rfl
  | some value => cases live : s.active value <;> simp [Option.filter, live]

theorem scope_known {s : ContextRun} {frame : ContextFrame}
    (known : Wrapped s.events s.contexts frame.task ∧ Known s.contexts frame.previous) :
    Known s.contexts (scope frame).shown ∧ Known s.contexts (scope frame).saved := by
  refine ⟨?_, known.2⟩
  unfold scope
  dsimp only
  split
  · exact known.1.known
  · exact known.2

theorem Wrapped.aged {events : Bool} {contexts later : List TestContext} {task : ContextTask}
    (wrapped : Wrapped events contexts task)
    (dies : Dies (Below contexts.length) (alive contexts) (alive later))
    (longer : contexts.length ≤ later.length) : Wrapped events later task where
  known := fun value held => Nat.lt_of_lt_of_le (wrapped.known value held) longer
  events := wrapped.events
  dead := by
    intro plain
    have same := filter_dies dies wrapped.known
    rw [wrapped.dead plain] at same
    exact same.symm

theorem Sound.withView {s : ContextRun} (sound : s.Sound) {thread : Nat} (idle : s.Idle thread)
    {agent : TestContexts} (dies : Dies (Below s.contexts.length) s.active agent.active)
    (longer : s.contexts.length ≤ agent.contexts.length)
    (known : Knows (Below agent.contexts.length) agent.local_) : (s.withView thread agent).Sound := by
  have slots : ∀ other, Known agent.contexts ((s.withView thread agent).slot other) := by
    intro other
    by_cases same : other = thread
    · rw [same]
      change Knows _ (Function.update s.slot thread agent.local_ thread)
      rw [Function.update_self]
      exact known
    · change Knows _ (Function.update s.slot thread agent.local_ other)
      rw [Function.update_of_ne same]
      exact fun value held => Nat.lt_of_lt_of_le (sound.slots other value held) longer
  constructor
  · exact slots
  · intro other
    by_cases same : other = thread
    · have now : (s.withView thread agent).slotNow other = (s.withView thread agent).slot other := by
        unfold slotNow
        rw [same, show (s.withView thread agent).pending thread = none from idle.2]
        rfl
      rw [now]
      exact slots other
    · have now : (s.withView thread agent).slotNow other = s.slotNow other := by
        unfold slotNow ContextRun.withView
        dsimp only
        rw [Function.update_of_ne same]
      rw [now]
      exact fun value held => Nat.lt_of_lt_of_le (sound.swaps other value held) longer
  · intro token taken
    obtain ⟨below, silent⟩ := sound.captured token taken
    exact ⟨fun value held => Nat.lt_of_lt_of_le (below value held) longer, silent⟩
  · exact fun task member => (sound.tasks task member).aged dies longer
  · intro other frame member
    obtain ⟨wrapped, below⟩ := sound.frames other frame member
    exact ⟨wrapped.aged dies longer,
      fun value held => Nat.lt_of_lt_of_le (below value held) longer⟩
  · exact sound.outside

/-- Tests that start and finish on one thread leave the scopes of the others. -/
theorem Scoped.withView {s : ContextRun} (sound : s.Sound) {thread other : Nat} (apart : other ≠ thread)
    {agent : TestContexts} (dies : Dies (Below s.contexts.length) s.active agent.active)
    {base : Option Nat} (known : Known s.contexts base) (layered : s.Scoped other base) :
    (s.withView thread agent).Scoped other base := by
  have now : (s.withView thread agent).slotNow other = s.slotNow other := by
    unfold slotNow ContextRun.withView
    dsimp only
    rw [Function.update_of_ne apart]
  unfold Scoped
  rw [now]
  refine Layered.dies dies layered (sound.swaps other) known fun scope member => ?_
  obtain ⟨frame, inside, rfl⟩ := List.mem_map.mp member
  exact scope_known (sound.frames other frame inside)

theorem view_shared {s : ContextRun} (sound : s.Sound) {thread : Nat} (id : String) :
    (Dies (Below s.contexts.length) s.active ((s.view thread).testStarted id).active ∧
      s.contexts.length ≤ ((s.view thread).testStarted id).contexts.length ∧
      Knows (Below ((s.view thread).testStarted id).contexts.length)
        ((s.view thread).testStarted id).local_) ∧
    Dies (Below s.contexts.length) s.active ((s.view thread).testFinished id).active ∧
      s.contexts.length ≤ ((s.view thread).testFinished id).contexts.length ∧
      Knows (Below ((s.view thread).testFinished id).contexts.length)
        ((s.view thread).testFinished id).local_ := by
  obtain ⟨started, length, slot⟩ := (s.view thread).testStarted_shared id
  obtain ⟨finished, same, known⟩ := (s.view thread).testFinished_shared id (sound.slots thread)
  refine ⟨⟨started, by rw [length]; exact Nat.le_succ _, fun value held => ?_⟩,
    fun value _ later => finished value trivial later, by rw [same]; exact Nat.le_refl _, ?_⟩
  · rw [slot] at held
    cases held
    rw [length]
    exact Nat.lt_succ_self _
  · rw [same]
    exact known

theorem update_known {contexts : List TestContext} {slots : Nat → Option Nat}
    (known : ∀ thread, Known contexts (slots thread)) (thread : Nat) {slot : Option Nat}
    (new : Known contexts slot) (other : Nat) : Known contexts (Function.update slots thread slot other) := by
  by_cases same : other = thread
  · rw [same, Function.update_self]
    exact new
  · rw [Function.update_of_ne same]
    exact known other

/-- The slot of a thread whose tasks change, when it swaps and when it does not. -/
theorem slotNow_swap (s : ContextRun) (frames : Nat → List ContextFrame) (thread : Nat)
    (next : Option (Option Nat)) (other : Nat) :
    ({ s with frames := frames, pending := Function.update s.pending thread next } :
        ContextRun).slotNow other =
      if other = thread then next.getD (s.slot thread) else s.slotNow other := by
  unfold slotNow
  dsimp only
  by_cases same : other = thread
  · rw [if_pos same, same, Function.update_self]
  · rw [if_neg same, Function.update_of_ne same]

theorem slotNow_install {s : ContextRun} {thread : Nat} {context : Option Nat}
    (swapping : s.pending thread = some context) (other : Nat) :
    ({ s with
        slot := Function.update s.slot thread context
        pending := Function.update s.pending thread none } : ContextRun).slotNow other =
      s.slotNow other := by
  unfold slotNow
  dsimp only
  by_cases same : other = thread
  · rw [same, Function.update_self, Function.update_self, swapping]
    rfl
  · rw [Function.update_of_ne same, Function.update_of_ne same]

theorem slotNow_fork {s : ContextRun} {child : Nat} (idle : s.Idle child) (threads : List Nat)
    (slot : Option Nat) (other : Nat) :
    ({ s with threads := threads, slot := Function.update s.slot child slot } : ContextRun).slotNow other =
      if other = child then slot else s.slotNow other := by
  unfold slotNow
  dsimp only
  by_cases same : other = child
  · rw [if_pos same, same, idle.2, Function.update_self]
    rfl
  · rw [if_neg same, Function.update_of_ne same]

/-- A swap, or none, leaves known slots. -/
theorem Sound.swap_known {s : ContextRun} (sound : s.Sound) (thread other : Nat) {slot : Option Nat}
    (known : Known s.contexts slot) (swaps : Bool) :
    Known s.contexts (if other = thread then
      (if swaps then some (s.swapped slot) else none).getD (s.slot thread) else s.slotNow other) := by
  by_cases same : other = thread
  · rw [if_pos same]
    cases swaps with
    | true => exact swapped_known known
    | false => exact sound.slots thread
  · rw [if_neg same]
    exact sound.swaps other

theorem Sound.step {s s' : ContextRun} (sound : s.Sound) {call : Nat × ContextCall}
    (stepped : s.step call = some s') : s'.Sound := by
  cases step_cases stepped with
  | testStarted thread id idle =>
    obtain ⟨⟨dies, longer, known⟩, -⟩ := @view_shared s sound thread id
    exact sound.withView idle dies longer known
  | testFinished thread id idle =>
    obtain ⟨-, dies, longer, known⟩ := @view_shared s sound thread id
    exact sound.withView idle dies longer known
  | fork thread child parent fresh =>
    refine ⟨update_known sound.slots child (sound.slots thread), fun other => ?_, sound.captured,
      sound.tasks, sound.frames, fun other absent => ?_⟩
    · rw [slotNow_fork (sound.outside child fresh)]
      split
      · exact sound.slots thread
      · exact sound.swaps other
    · exact sound.outside other fun member => absent (List.mem_cons_of_mem _ member)
  | capture thread =>
    refine ⟨sound.slots, sound.swaps, fun token taken => ?_, sound.tasks, sound.frames, sound.outside⟩
    rcases List.mem_cons.mp taken with new | old
    · rw [new]
      unfold ContextRun.capture
      constructor
      · split
        · exact s.filter_known _
        · exact nofun
      · intro silent
        dsimp only at silent
        rw [silent]
        rfl
    · exact sound.captured token old
  | wrap thread token taken =>
    refine ⟨sound.slots, sound.swaps, sound.captured, fun task member => ?_, sound.frames, sound.outside⟩
    rcases List.mem_cons.mp member with new | old
    · rw [new]
      obtain ⟨known, silent⟩ := sound.captured token taken
      refine ⟨known, fun swaps => (Bool.and_eq_true _ _ ▸ swaps).1, fun plain => ?_⟩
      dsimp only at plain ⊢
      unfold present at plain
      cases events : s.events with
      | false => rw [silent events]; rfl
      | true =>
        rw [events, Bool.true_and] at plain
        cases token with
        | none => rfl
        | some context =>
          change s.active context = false at plain
          rw [Option.filter_some, if_neg]
          change ¬s.active context = true
          rw [plain]
          exact Bool.false_ne_true
    · exact sound.tasks task old
  | enter thread task present ready wrapped =>
    have known := sound.tasks task wrapped
    refine ⟨sound.slots, fun other => ?_, sound.captured, sound.tasks, fun other frame member => ?_,
      fun other absent => ?_⟩
    · rw [slotNow_swap]
      exact sound.swap_known thread other known.known task.swaps
    · by_cases same : other = thread
      · rw [same] at member
        dsimp only at member
        rw [Function.update_self] at member
        rcases List.mem_cons.mp member with new | old
        · rw [new]
          exact ⟨known, s.filter_known _⟩
        · exact sound.frames thread frame old
      · dsimp only at member
        rw [Function.update_of_ne same] at member
        exact sound.frames other frame member
    · have apart : other ≠ thread := fun same => absent (same ▸ present)
      unfold Idle
      dsimp only
      rw [Function.update_of_ne apart, Function.update_of_ne apart]
      exact sound.outside other absent
  | leave thread threw frame rest ready running =>
    have known := sound.frames thread
    rw [running] at known
    refine ⟨sound.slots, fun other => ?_, sound.captured, sound.tasks, fun other inner member => ?_,
      fun other absent => ?_⟩
    · rw [slotNow_swap]
      exact sound.swap_known thread other (known frame List.mem_cons_self).2 frame.task.swaps
    · by_cases same : other = thread
      · rw [same] at member
        dsimp only at member
        rw [Function.update_self] at member
        exact known inner (List.mem_cons_of_mem _ member)
      · dsimp only at member
        rw [Function.update_of_ne same] at member
        exact sound.frames other inner member
    · have apart : other ≠ thread := by
        rintro rfl
        rw [(sound.outside other absent).1] at running
        cases running
      unfold Idle
      dsimp only
      rw [Function.update_of_ne apart, Function.update_of_ne apart]
      exact sound.outside other absent
  | install thread context swapping =>
    refine ⟨update_known sound.slots thread ?_, fun other => ?_, sound.captured, sound.tasks,
      sound.frames, fun other absent => ?_⟩
    · have known := sound.swaps thread
      unfold slotNow at known
      rwa [swapping] at known
    · rw [slotNow_install swapping]
      exact sound.swaps other
    · have apart : other ≠ thread := by
        rintro rfl
        rw [(sound.outside other absent).2] at swapping
        cases swapping
      unfold Idle
      dsimp only
      rw [Function.update_of_ne apart]
      exact sound.outside other absent

/-- The call gives the slot of the thread a new value from outside any task. -/
def Resets (thread : Nat) (call : Nat × ContextCall) : Prop :=
  call.2 = .fork thread ∨
    call.1 = thread ∧ ∃ id, call.2 = .testStarted id ∨ call.2 = .testFinished id

theorem Resets.idle {s s' : ContextRun} (sound : s.Sound) {call : Nat × ContextCall}
    (stepped : s.step call = some s') {thread : Nat} (resets : Resets thread call) : s.Idle thread := by
  cases step_cases stepped with
  | testStarted other id idle =>
    rcases resets with fork | ⟨rfl, -⟩
    · cases fork
    · exact idle
  | testFinished other id idle =>
    rcases resets with fork | ⟨rfl, -⟩
    · cases fork
    · exact idle
  | fork other child parent fresh =>
    rcases resets with fork | ⟨-, id, start | finish⟩
    · cases fork
      exact sound.outside _ fresh
    · cases start
    · cases finish
  | capture | wrap | enter | leave | install =>
    rcases resets with fork | ⟨-, id, start | finish⟩
    · cases fork
    · cases start
    · cases finish

/-- The scopes of a thread stand above the same slot behind every other step. -/
theorem Scoped.step {s s' : ContextRun} (sound : s.Sound) {call : Nat × ContextCall}
    (stepped : s.step call = some s') {thread : Nat} {base : Option Nat} (known : Known s.contexts base)
    (layered : s.Scoped thread base) (kept : ¬Resets thread call) : s'.Scoped thread base := by
  cases step_cases stepped with
  | testStarted other id idle =>
    obtain ⟨⟨dies, -, -⟩, -⟩ := @view_shared s sound other id
    have apart : thread ≠ other := fun same => kept (Or.inr ⟨same.symm, id, Or.inl rfl⟩)
    exact Scoped.withView sound apart dies known layered
  | testFinished other id idle =>
    obtain ⟨-, dies, -, -⟩ := @view_shared s sound other id
    have apart : thread ≠ other := fun same => kept (Or.inr ⟨same.symm, id, Or.inr rfl⟩)
    exact Scoped.withView sound apart dies known layered
  | fork other child parent fresh =>
    have apart : thread ≠ child := fun same => kept (Or.inl (by rw [same]))
    unfold Scoped
    rw [slotNow_fork (sound.outside child fresh), if_neg apart]
    exact layered
  | capture => exact layered
  | wrap => exact layered
  | enter other task present ready wrapped =>
    unfold Scoped
    rw [slotNow_swap]
    dsimp only
    by_cases same : thread = other
    · rw [if_pos same, same, Function.update_self, List.map_cons]
      rw [same] at layered
      have slot : s.slotNow other = s.slot other := by
        unfold slotNow
        rw [ready]
        rfl
      unfold Scoped at layered
      rw [slot] at layered
      refine layered.push ?_
      cases swaps : task.swaps with
      | true => exact filter_swapped ((sound.tasks task wrapped).events swaps) task.token
      | false => exact (filter_filter s.active (s.slot other)).symm
    · rw [if_neg same, Function.update_of_ne same]
      exact layered
  | leave other threw frame rest ready running =>
    unfold Scoped
    rw [slotNow_swap]
    dsimp only
    by_cases same : thread = other
    · rw [if_pos same, same, Function.update_self]
      rw [same] at layered
      have slot : s.slotNow other = s.slot other := by
        unfold slotNow
        rw [ready]
        rfl
      unfold Scoped at layered
      rw [running, List.map_cons, slot] at layered
      refine layered.pop ?_
      have wrapped := (sound.frames other frame (running ▸ List.mem_cons_self)).1
      cases swaps : frame.task.swaps with
      | true => exact filter_swapped (wrapped.events swaps) frame.previous
      | false =>
        have shown := layered.1
        unfold scope at shown
        rw [swaps] at shown
        exact shown
    · rw [if_neg same, Function.update_of_ne same]
      exact layered
  | install other context swapping =>
    unfold Scoped
    rw [slotNow_install swapping]
    exact layered

/-- The tasks of every thread are scopes above some slot. -/
structure Bracketed (s : ContextRun) : Prop where
  sound : s.Sound
  layered : ∀ thread, ∃ base, Known s.contexts base ∧ s.Scoped thread base

theorem step_longer {s s' : ContextRun} (sound : s.Sound) {call : Nat × ContextCall}
    (stepped : s.step call = some s') : s.contexts.length ≤ s'.contexts.length := by
  cases step_cases stepped with
  | testStarted thread id idle =>
    obtain ⟨⟨-, longer, -⟩, -⟩ := @view_shared s sound thread id
    exact longer
  | testFinished thread id idle =>
    obtain ⟨-, -, longer, -⟩ := @view_shared s sound thread id
    exact longer
  | fork | capture | wrap | enter | leave | install => exact Nat.le_refl _

theorem Resets.frames {s s' : ContextRun} (sound : s.Sound) {call : Nat × ContextCall}
    (stepped : s.step call = some s') {thread : Nat} (resets : Resets thread call) :
    s'.frames thread = [] := by
  have idle := resets.idle sound stepped
  cases step_cases stepped with
  | testStarted => exact idle.1
  | testFinished => exact idle.1
  | fork => exact idle.1
  | capture | wrap | enter | leave | install =>
    rcases resets with fork | ⟨-, id, start | finish⟩
    · cases fork
    · cases start
    · cases finish

theorem Bracketed.step {s : ContextRun} {call : Nat × ContextCall} {s' : ContextRun}
    (bracketed : s.Bracketed) (stepped : s.step call = some s') : s'.Bracketed := by
  have sound := bracketed.sound.step stepped
  refine ⟨sound, fun thread => ?_⟩
  by_cases resets : Resets thread call
  · refine ⟨s'.slotNow thread, sound.swaps thread, ?_⟩
    unfold Scoped
    rw [resets.frames bracketed.sound stepped]
    rfl
  · obtain ⟨base, known, layered⟩ := bracketed.layered thread
    have longer := step_longer bracketed.sound stepped
    exact ⟨base, fun value held => Nat.lt_of_lt_of_le (known value held) longer,
      layered.step bracketed.sound stepped known resets⟩

theorem initial_bracketed (events : Bool) : (initial events).Bracketed where
  sound :=
    { slots := fun _ => nofun
      swaps := fun _ => nofun
      captured := nofun
      tasks := nofun
      frames := fun _ => nofun
      outside := fun _ _ => ⟨rfl, rfl⟩ }
  layered := fun _ => ⟨none, nofun, rfl⟩

/-- The code of a task sees the captured test while that is active. -/
theorem Bracketed.sees {s : ContextRun} (bracketed : s.Bracketed) {thread : Nat} {frame : ContextFrame}
    {rest : List ContextFrame} (running : s.frames thread = frame :: rest)
    (ready : s.pending thread = none) {context : Nat} (captured : frame.task.token = some context) :
    s.currentTest thread = some context ↔ s.active context = true := by
  obtain ⟨base, -, layered⟩ := bracketed.layered thread
  have wrapped := (bracketed.sound.frames thread frame (running ▸ List.mem_cons_self)).1
  unfold Scoped slotNow at layered
  rw [running, List.map_cons, ready] at layered
  have shown : (s.slot thread).filter s.active = (scope frame).shown.filter s.active := layered.1
  rw [currentTest_eq]
  cases swaps : frame.task.swaps with
  | true =>
    unfold scope at shown
    rw [swaps, if_pos rfl, captured] at shown
    rw [shown, Option.filter_eq_some_iff]
    exact ⟨fun held => held.2, fun live => ⟨rfl, live⟩⟩
  | false =>
    have dead : s.active context = false := by
      have gone := wrapped.dead swaps
      rw [captured] at gone
      rw [Bool.eq_false_iff]
      intro live
      have kept : (some context).filter s.active = some context := by simp [Option.filter, live]
      rw [show (some context).filter s.active = none from gone] at kept
      cases kept
    rw [dead]
    constructor
    · intro held
      rw [← dead]
      exact (Option.filter_eq_some_iff.mp held).2
    · exact nofun

/-- A thread on which a task was entered and has returned has the test it had, if that is active. -/
theorem Bracketed.restores {s s₂ s₃ : ContextRun} (bracketed : s.Bracketed) {thread : Nat}
    (idle : s.Idle thread) {task : ContextTask} (entered : s.step (thread, .enter task) = some s₂)
    {inside : List (Nat × ContextCall)} (went : run ContextRun.step s₂ inside = some s₃)
    (busy : Along ContextRun.step (fun u _ => ¬u.Idle thread) s₂ inside) (returned : s₃.Idle thread) :
    s₃.currentTest thread = (s.currentTest thread).filter s₃.active := by
  have noReset : ¬Resets thread (thread, .enter task) := by
    rintro (fork | ⟨-, id, start | finish⟩)
    · cases fork
    · cases start
    · cases finish
  have before : s.Scoped thread (s.currentTest thread) := by
    unfold Scoped slotNow
    rw [idle.1, idle.2]
    exact (filter_filter s.active (s.slot thread)).symm
  have known := s.filter_known (s.slot thread)
  have opened := before.step bracketed.sound entered known noReset
  have longer := step_longer bracketed.sound entered
  obtain ⟨-, -, closed⟩ := run_invariant_along ContextRun.step
    (P := fun u => u.Sound ∧ Known u.contexts (s.currentTest thread) ∧
      u.Scoped thread (s.currentTest thread))
    (fun u call u' ⟨sound, known, layered⟩ running stepped =>
      ⟨sound.step stepped,
        fun value held => Nat.lt_of_lt_of_le (known value held) (step_longer sound stepped),
        layered.step sound stepped known fun resets => running (resets.idle sound stepped)⟩)
    went busy ⟨bracketed.sound.step entered,
      fun value held => Nat.lt_of_lt_of_le (known value held) longer, opened⟩
  unfold Scoped slotNow at closed
  rw [returned.1, returned.2] at closed
  exact closed

/-- In every run, the code of a wrapped task sees the captured test exactly while that is
active, and behind an outermost task the thread has the test it had before, if that is active. -/
theorem context_bracket (events : Bool) {calls : List (Nat × ContextCall)} {s : ContextRun}
    (ran : run step (initial events) calls = some s) (thread : Nat) :
    (∀ frame rest context, s.frames thread = frame :: rest → s.pending thread = none →
        frame.task.token = some context →
        (s.currentTest thread = some context ↔ s.active context = true)) ∧
      ∀ task s₂ inside s₃, s.Idle thread → s.step (thread, .enter task) = some s₂ →
        run step s₂ inside = some s₃ → Along step (fun u _ => ¬u.Idle thread) s₂ inside →
        s₃.Idle thread → s₃.currentTest thread = (s.currentTest thread).filter s₃.active := by
  have bracketed := run_invariant step (fun _ _ _ kept stepped => kept.step stepped) ran
    (initial_bracketed events)
  exact ⟨fun _ _ _ running ready captured => bracketed.sees running ready captured,
    fun _ _ _ _ idle entered went busy returned => bracketed.restores idle entered went busy returned⟩

/-- A thread of a pool runs a test of its own; the task it is given is wrapped in another. -/
def poolTask : List (Nat × ContextCall) :=
  [(0, .fork 1), (0, .testStarted "a"), (0, .capture), (0, .wrap (some 0)), (1, .testStarted "b")]

/-- The test of the task finishes while the task runs. -/
def testEnds : List (Nat × ContextCall) :=
  [(1, .install), (0, .testFinished "a"), (1, .leave true), (1, .install)]

theorem context_bracket_demo :
    ∃ s s₂ s₃, run step (initial true) poolTask = some s ∧ s.currentTest 1 = some 1 ∧
      s.step (1, .enter ⟨some 0, true⟩) = some s₂ ∧ run step s₂ testEnds = some s₃ ∧
      s₃.active 0 = false ∧ s₃.active 1 = true ∧
      s₃.currentTest 1 = (s.currentTest 1).filter s₃.active := by
  have ran : (run step (initial true) poolTask).any fun s =>
      decide (s.Idle 1 ∧ s.currentTest 1 = some 1) &&
        (s.step (1, .enter ⟨some 0, true⟩)).any fun s₂ =>
          decide (Along step (fun u _ => ¬u.Idle 1) s₂ testEnds) &&
            (run step s₂ testEnds).any fun s₃ =>
              decide (s₃.Idle 1 ∧ s₃.active 0 = false ∧ s₃.active 1 = true) := by
    decide +kernel
  simp only [Option.any_eq_true, Bool.and_eq_true, decide_eq_true_eq] at ran
  obtain ⟨s, ran, ⟨idle, current⟩, s₂, entered, busy, s₃, went, returned, finished, active⟩ := ran
  exact ⟨s, s₂, s₃, ran, current, entered, went, finished, active,
    (context_bracket true ran 1).2 _ s₂ _ s₃ idle entered went busy returned⟩

end ContextRun
end Walaru.Agent
