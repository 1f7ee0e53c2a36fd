import Mathlib.Data.Nat.Find
import Walaru.Source.Agent.TestContexts

/-!
# The current test of a thread

A context links to the test that was current when it started, and only to that one. The
thread's current test is the newest unfinished one as long as the test that ends while it is
current can fall back on its link, or is the last one.
-/
namespace Walaru.Agent
open Lib.Trace

namespace TestContexts

variable {s : TestContexts} {id : String} {r p q : Nat}

theorem lt_of_active (here : s.active r = true) : r < s.contexts.length := by
  unfold active at here
  obtain ⟨context, found, -⟩ := (Option.any_eq_true _ _).mp here
  exact (List.getElem?_eq_some_iff.mp found).1

theorem exists_uniqueId (here : s.active r = true) : ∃ id, s.uniqueId r = some id :=
  ⟨_, by rw [uniqueId, List.getElem?_eq_getElem (lt_of_active here), Option.map_some]⟩

@[simp] theorem length_deactivate : (s.deactivate r).contexts.length = s.contexts.length := by
  simp [deactivate]

@[simp] theorem uniqueId_deactivate : (s.deactivate r).uniqueId q = s.uniqueId q := by
  unfold uniqueId deactivate
  rw [List.getElem?_modify]
  cases s.contexts[q]? with
  | none => rfl
  | some context => by_cases same : r = q <;> simp [same]

@[simp] theorem previous_deactivate : (s.deactivate r).previous q = s.previous q := by
  unfold previous deactivate
  rw [List.getElem?_modify]
  cases s.contexts[q]? with
  | none => rfl
  | some context => by_cases same : r = q <;> simp [same]

theorem active_deactivate : (s.deactivate r).active q = (s.active q && !decide (q = r)) := by
  unfold active deactivate
  rw [List.getElem?_modify]
  cases s.contexts[q]? with
  | none => rfl
  | some context => by_cases same : r = q <;> simp [same, eq_comm]

/-- The ids of the active contexts, oldest first. -/
def activeIds (s : TestContexts) : List String :=
  (s.contexts.filter TestContext.active).map TestContext.uniqueId

/-- The context is active and no later one is. -/
def Newest (s : TestContexts) (r : Nat) : Prop :=
  s.active r = true ∧ ∀ q, r < q → s.active q = false

theorem exists_newest (here : s.active q = true) : ∃ r, s.Newest r := by
  have bound := lt_of_active here
  refine ⟨Nat.findGreatest (fun r => s.active r = true) s.contexts.length,
    Nat.findGreatest_spec (P := fun r => s.active r = true) (Nat.le_of_lt bound) here, fun r later => ?_⟩
  by_contra found
  rw [Bool.not_eq_false] at found
  exact Nat.findGreatest_is_greatest later (Nat.le_of_lt (lt_of_active found)) found

theorem activeIds_getLast? (newest : s.Newest r) : s.activeIds.getLast? = s.uniqueId r := by
  obtain ⟨here, later⟩ := newest
  have inside := lt_of_active here
  have split : s.contexts = s.contexts.take r ++ s.contexts[r] :: s.contexts.drop (r + 1) := by
    rw [← List.drop_eq_getElem_cons inside, List.take_append_drop]
  have after : (s.contexts.drop (r + 1)).filter TestContext.active = [] := by
    rw [List.filter_eq_nil_iff]
    intro context member active
    obtain ⟨i, found⟩ := List.getElem?_of_mem member
    rw [List.getElem?_drop] at found
    have ended := later (r + 1 + i) (by omega)
    simp [TestContexts.active, found, active] at ended
  have own : s.contexts[r].active = true := by
    simpa [TestContexts.active, List.getElem?_eq_getElem inside] using here
  unfold activeIds
  rw [split, List.filter_append, List.filter_cons_of_pos own, after]
  simp [uniqueId, List.getElem?_eq_getElem inside]

theorem activeIds_eq_nil_iff : s.activeIds = [] ↔ ∀ q, s.active q = false := by
  unfold activeIds
  rw [List.map_eq_nil_iff, List.filter_eq_nil_iff]
  constructor
  · intro none_ q
    unfold active
    cases found : s.contexts[q]? with
    | none => rfl
    | some context => simpa using none_ context (List.mem_of_getElem? found)
  · intro none_ context member active
    obtain ⟨q, found⟩ := List.getElem?_of_mem member
    have ended := none_ q
    simp [TestContexts.active, found, active] at ended

/-- What holds in every run: ids are distinct, the table holds the active contexts, the
thread's context is active, and links lead back. -/
structure Tracked (s : TestContexts) : Prop where
  distinct : (s.contexts.map TestContext.uniqueId).Nodup
  table : ∀ id r, s.activeTests[id]? = some r ↔ s.active r = true ∧ s.uniqueId r = some id
  held : ∀ r, s.local_ = some r → s.active r = true
  links : ∀ r p, s.previous r = some p → p < r

theorem Tracked.same (tracked : Tracked s) (left : s.uniqueId r = some id)
    (right : s.uniqueId q = some id) : r = q := by
  unfold uniqueId at left right
  rw [← List.getElem?_map] at left right
  obtain ⟨inside, -⟩ := List.getElem?_eq_some_iff.mp left
  exact (List.getElem?_inj inside tracked.distinct).mp (left.trans right.symm)

theorem Tracked.currentTest (tracked : Tracked s) : s.currentTest = s.local_ := by
  unfold TestContexts.currentTest
  cases found : s.local_ with
  | none => rfl
  | some r => simp [tracked.held r found]

/-- Ending a test takes its id off the list. -/
theorem Tracked.activeIds_deactivate (tracked : Tracked s) (here : s.active r = true)
    (named : s.uniqueId r = some id) : (s.deactivate r).activeIds = s.activeIds.erase id := by
  have inside := lt_of_active here
  have own : s.contexts[r].active = true := by
    simpa [active, List.getElem?_eq_getElem inside] using here
  have id_eq : s.contexts[r].uniqueId = id := by
    simpa [uniqueId, List.getElem?_eq_getElem inside] using named
  have split : s.contexts = s.contexts.take r ++ s.contexts[r] :: s.contexts.drop (r + 1) := by
    rw [← List.drop_eq_getElem_cons inside, List.take_append_drop]
  have before : id ∉ ((s.contexts.take r).filter TestContext.active).map TestContext.uniqueId := by
    intro member
    have distinct := tracked.distinct
    rw [split, List.map_append, List.map_cons, id_eq, List.nodup_append] at distinct
    obtain ⟨context, present, same⟩ := List.mem_map.mp member
    exact distinct.2.2 _ (List.mem_map_of_mem (List.mem_of_mem_filter present)) id
      List.mem_cons_self same
  have after : (s.deactivate r).activeIds =
      ((s.contexts.take r).filter TestContext.active ++
        (s.contexts.drop (r + 1)).filter TestContext.active).map TestContext.uniqueId := by
    unfold activeIds deactivate
    rw [List.modify_eq_take_cons_drop inside, List.filter_append, List.filter_cons_of_neg (by simp)]
  have whole : s.activeIds = ((s.contexts.take r).filter TestContext.active).map TestContext.uniqueId ++
      id :: ((s.contexts.drop (r + 1)).filter TestContext.active).map TestContext.uniqueId := by
    unfold activeIds
    conv => lhs; rw [split]
    rw [List.filter_append, List.filter_cons_of_pos own, List.map_append, List.map_cons, id_eq]
  rw [after, whole, List.erase_append_right _ before, List.erase_cons_head, List.map_append]

theorem Tracked.named (tracked : Tracked s) : (s.local_.any fun context => s.uniqueId context = some id) =
    true ↔ ∃ r, s.local_ = some r ∧ s.activeTests[id]? = some r := by
  rw [Option.any_eq_true]
  constructor
  · rintro ⟨r, found, named⟩
    exact ⟨r, found, (tracked.table id r).mpr ⟨tracked.held r found, of_decide_eq_true named⟩⟩
  · rintro ⟨r, found, listed⟩
    exact ⟨r, found, decide_eq_true ((tracked.table id r).mp listed).2⟩

/-- A finish for an id that no active test has: it throws when the thread has no test. -/
theorem Tracked.testFinished_unknown (tracked : Tracked s) (unknown : s.activeTests[id]? = none) :
    s.testFinished id =
      { s with activeTests := s.activeTests.erase id, threw := decide (s.local_ = none) } := by
  have other : (s.local_.any fun context => s.uniqueId context = some id) = false := by
    rw [Bool.eq_false_iff]
    intro named
    obtain ⟨r, -, listed⟩ := tracked.named.mp named
    rw [unknown] at listed
    cases listed
  unfold testFinished
  have other' : (s.local_.any fun context => decide
      (({ s with activeTests := s.activeTests.erase id } : TestContexts).uniqueId context = some id)) =
        false := other
  simp only [other', unknown]
  cases found : s.local_ with
  | none => simp [restore]
  | some r => simp

/-- The state after the context of this id has ended. -/
def ended (s : TestContexts) (id : String) (r : Nat) : TestContexts :=
  { s with activeTests := s.activeTests.erase id, threw := false }.deactivate r

/-- A finish of the thread's test falls back on its link. -/
theorem Tracked.testFinished_current (tracked : Tracked s) (listed : s.activeTests[id]? = some r)
    (current : s.local_ = some r) :
    s.testFinished id =
      { s.ended id r with local_ := (s.previous r).filter (s.deactivate r).active } := by
  have named : (s.local_.any fun context => decide
      (({ s with activeTests := s.activeTests.erase id } : TestContexts).uniqueId context = some id)) =
        true := tracked.named.mpr ⟨r, current, listed⟩
  unfold testFinished
  simp only [named, listed, reduceCtorEq, false_and, if_false, or_true, if_true]
  have fallen : ∀ (t : TestContexts) (own : Option Nat), own = some r →
      t.restore own = { t with local_ := (t.previous r).filter t.active, threw := false } := by
    rintro t _ rfl
    rfl
  have same : (({ s with activeTests := s.activeTests.erase id } : TestContexts).deactivate r).previous r =
      s.previous r := previous_deactivate
  refine (fallen _ _ current).trans ?_
  rw [same]
  rfl

/-- A finish of another test leaves the thread with its own. -/
theorem Tracked.testFinished_other (tracked : Tracked s) (listed : s.activeTests[id]? = some r)
    (other : s.local_ ≠ some r) : s.testFinished id = s.ended id r := by
  have named : (s.local_.any fun context => decide
      (({ s with activeTests := s.activeTests.erase id } : TestContexts).uniqueId context = some id)) =
        false := by
    rw [Bool.eq_false_iff]
    intro named
    obtain ⟨q, current, again⟩ := tracked.named.mp named
    rw [listed] at again
    cases again
    exact other current
  unfold testFinished
  simp only [named, listed, reduceCtorEq, false_and, if_false, Bool.false_eq_true, or_false]
  change (if s.local_ = some r then _ else _) = _
  rw [if_neg other]
  rfl

/-- A new test is the thread's own, linked to the one before. -/
theorem Tracked.testStarted (tracked : Tracked s)
    (fresh : id ∉ s.contexts.map TestContext.uniqueId) :
    s.testStarted id =
      { contexts := s.contexts ++ [⟨id, s.local_, true⟩],
        activeTests := s.activeTests.insert id s.contexts.length,
        local_ := some s.contexts.length, threw := false } := by
  have absent : s.activeTests[id]? = none := by
    rw [Option.eq_none_iff_forall_ne_some]
    intro r listed
    obtain ⟨here, named⟩ := (tracked.table id r).mp listed
    unfold uniqueId at named
    obtain ⟨context, found, same⟩ := Option.map_eq_some_iff.mp named
    exact fresh (same ▸ List.mem_map_of_mem (List.mem_of_getElem? found))
  simp only [TestContexts.testStarted, absent, tracked.currentTest]

section Ended
variable (s) (id) (r)

@[simp] theorem active_ended : (s.ended id r).active q = (s.active q && !decide (q = r)) :=
  active_deactivate
@[simp] theorem uniqueId_ended : (s.ended id r).uniqueId q = s.uniqueId q := uniqueId_deactivate
@[simp] theorem previous_ended : (s.ended id r).previous q = s.previous q := previous_deactivate

end Ended

theorem Tracked.erased (tracked : Tracked s) (here : s.active r = true)
    (named : s.uniqueId r = some id) {t : TestContexts} (contexts : t.contexts = (s.ended id r).contexts)
    (table : t.activeTests = s.activeTests.erase id)
    (held : ∀ q, t.local_ = some q → (s.ended id r).active q = true) : Tracked t where
  distinct := by
    have ids : t.contexts.map TestContext.uniqueId = s.contexts.map TestContext.uniqueId := by
      rw [contexts]
      unfold ended deactivate
      apply List.ext_getElem?
      intro q
      simp only [List.getElem?_map, List.getElem?_modify]
      cases s.contexts[q]? with
      | none => rfl
      | some context => by_cases same : r = q <;> simp [same]
    rw [ids]
    exact tracked.distinct
  table other q := by
    have at_ : t.active q = (s.ended id r).active q ∧ t.uniqueId q = (s.ended id r).uniqueId q := by
      unfold active uniqueId
      rw [contexts]
      exact ⟨rfl, rfl⟩
    rw [table, at_.1, at_.2, active_ended, uniqueId_ended, Std.ExtTreeMap.getElem?_erase]
    split
    · rename_i same
      obtain rfl := Std.LawfulEqCmp.compare_eq_iff_eq.mp same
      refine iff_of_false (by simp) ?_
      rintro ⟨still, found⟩
      have equal := tracked.same named found
      simp [equal] at still
    · rename_i apart
      rw [tracked.table other q]
      constructor
      · rintro ⟨still, found⟩
        refine ⟨?_, found⟩
        rw [still, Bool.true_and, Bool.not_eq_true', decide_eq_false_iff_not]
        rintro rfl
        rw [named] at found
        cases found
        exact apart (Std.LawfulEqCmp.compare_eq_iff_eq.mpr rfl)
      · rintro ⟨still, found⟩
        rw [Bool.and_eq_true] at still
        exact ⟨still.1, found⟩
  held q found := by
    have same : t.active q = (s.ended id r).active q := by
      unfold active
      rw [contexts]
    rw [same]
    exact held q found
  links q p link := by
    have same : t.previous q = (s.ended id r).previous q := by
      unfold previous
      rw [contexts]
    rw [same, previous_ended] at link
    exact tracked.links q p link

theorem Tracked.initial : Tracked TestContexts.initial where
  distinct := List.nodup_nil
  table id r := by simp [TestContexts.initial, active]
  held r found := by cases found
  links r p link := by simp [TestContexts.initial, previous] at link

/-- The new context stands after all others. -/
theorem at_testStarted (tracked : Tracked s) (fresh : id ∉ s.contexts.map TestContext.uniqueId) :
    (∀ q, (s.testStarted id).active q = (s.active q || decide (q = s.contexts.length))) ∧
      (∀ q, (s.testStarted id).uniqueId q =
        if q = s.contexts.length then some id else s.uniqueId q) ∧
      ∀ q, (s.testStarted id).previous q =
        if q = s.contexts.length then s.local_ else s.previous q := by
  rw [tracked.testStarted fresh]
  unfold active uniqueId previous
  dsimp only
  refine ⟨fun q => ?_, fun q => ?_, fun q => ?_⟩
  all_goals
    rcases Nat.lt_trichotomy q s.contexts.length with inside | rfl | outside
  · rw [List.getElem?_append_left inside]
    simp [Nat.ne_of_lt inside]
  · simp
  · rw [List.getElem?_eq_none (by simp; omega), List.getElem?_eq_none (by omega)]
    simp [Nat.ne_of_gt outside]
  · rw [List.getElem?_append_left inside, if_neg (Nat.ne_of_lt inside)]
  · simp
  · rw [List.getElem?_eq_none (by simp; omega), List.getElem?_eq_none (by omega),
      if_neg (Nat.ne_of_gt outside)]
  · rw [List.getElem?_append_left inside, if_neg (Nat.ne_of_lt inside)]
  · simp
  · rw [List.getElem?_eq_none (by simp; omega), List.getElem?_eq_none (by omega),
      if_neg (Nat.ne_of_gt outside)]

theorem Tracked.started (tracked : Tracked s) (fresh : id ∉ s.contexts.map TestContext.uniqueId) :
    Tracked (s.testStarted id) := by
  obtain ⟨actives, names, links⟩ := at_testStarted tracked fresh
  have spec := tracked.testStarted fresh
  constructor
  · rw [spec]
    change ((s.contexts ++ [_]).map TestContext.uniqueId).Nodup
    rw [List.map_append, List.nodup_append]
    refine ⟨tracked.distinct, by simp, fun a member b single same => ?_⟩
    rw [List.map_singleton, List.mem_singleton] at single
    change b = id at single
    exact fresh (single ▸ same ▸ member)
  · intro other q
    rw [actives, names]
    have listed : (s.testStarted id).activeTests[other]? =
        if compare id other = .eq then some s.contexts.length else s.activeTests[other]? := by
      rw [spec, Std.ExtTreeMap.getElem?_insert]
    rw [listed]
    have unnamed : ∀ q, s.uniqueId q ≠ some id := by
      intro q named
      unfold uniqueId at named
      obtain ⟨context, found, same⟩ := Option.map_eq_some_iff.mp named
      exact fresh (same ▸ List.mem_map_of_mem (List.mem_of_getElem? found))
    by_cases new : q = s.contexts.length
    · subst new
      have outside : s.active s.contexts.length = false := by
        rw [Bool.eq_false_iff]
        intro here
        exact Nat.lt_irrefl _ (lt_of_active here)
      split
      · rename_i same
        obtain rfl := Std.LawfulEqCmp.compare_eq_iff_eq.mp same
        simp
      · rename_i apart
        have absent : s.activeTests[other]? ≠ some s.contexts.length := by
          intro listed
          rw [((tracked.table other _).mp listed).1] at outside
          cases outside
        refine iff_of_false absent ?_
        rintro ⟨-, named⟩
        rw [if_pos rfl] at named
        cases named
        exact apart (Std.LawfulEqCmp.compare_eq_iff_eq.mpr rfl)
    · rw [if_neg new]
      split
      · rename_i same
        obtain rfl := Std.LawfulEqCmp.compare_eq_iff_eq.mp same
        refine iff_of_false ?_ fun found => unnamed q found.2
        intro equal
        exact new (Option.some.inj equal).symm
      · simp [tracked.table other q, new]
  · intro q found
    rw [spec] at found
    cases found
    rw [actives]
    simp
  · intro q p link
    rw [links] at link
    split at link
    · rename_i new
      rw [new]
      exact lt_of_active (tracked.held p link)
    · exact tracked.links q p link

theorem Tracked.finished (tracked : Tracked s) (id : String) : Tracked (s.testFinished id) := by
  cases listed : s.activeTests[id]? with
  | none =>
    rw [tracked.testFinished_unknown listed]
    refine ⟨tracked.distinct, fun other r => ?_, tracked.held, tracked.links⟩
    change (s.activeTests.erase id)[other]? = some r ↔ s.active r = true ∧ s.uniqueId r = some other
    rw [← tracked.table, Std.ExtTreeMap.getElem?_erase]
    split
    · rename_i same
      obtain rfl := Std.LawfulEqCmp.compare_eq_iff_eq.mp same
      rw [listed]
    · rfl
  | some r =>
    obtain ⟨here, named⟩ := (tracked.table id r).mp listed
    by_cases current : s.local_ = some r
    · rw [tracked.testFinished_current listed current]
      refine tracked.erased here named rfl rfl fun q found => ?_
      exact (Option.filter_eq_some_iff.mp found).2
    · rw [tracked.testFinished_other listed current]
      refine tracked.erased here named rfl rfl fun q found => ?_
      change s.local_ = some q at found
      rw [active_ended, tracked.held q found, Bool.true_and, Bool.not_eq_true', decide_eq_false_iff_not]
      rintro rfl
      exact current found

/-- No context between the link of an active context and itself is active. -/
def Linked (s : TestContexts) : Prop :=
  ∀ r, s.active r = true → ∀ q < r, (∀ p, s.previous r = some p → p < q) → s.active q = false

/-- The thread has the newest active context, or none when there is none. -/
structure Aligned (s : TestContexts) : Prop where
  newest : ∀ r, s.local_ = some r → s.Newest r
  none_ : s.local_ = none → ∀ q, s.active q = false
  linked : Linked s

/-- The id of the current test. -/
def currentId (s : TestContexts) : Option String := s.currentTest.bind s.uniqueId

theorem Tracked.currentId_eq_iff (tracked : Tracked s) :
    s.currentId = s.activeIds.getLast? ↔
      (∀ r, s.local_ = some r → s.Newest r) ∧ (s.local_ = none → ∀ q, s.active q = false) := by
  unfold currentId
  rw [tracked.currentTest]
  cases current : s.local_ with
  | none =>
    simp only [Option.bind_none, reduceCtorEq, false_implies, implies_true, true_and]
    rw [eq_comm, List.getLast?_eq_none_iff, activeIds_eq_nil_iff]
    exact ⟨fun none_ _ => none_, fun none_ => none_ trivial⟩
  | some r =>
    simp only [Option.bind_some, Option.some.injEq, forall_eq', reduceCtorEq, false_implies, and_true]
    have here := tracked.held r current
    constructor
    · intro last
      obtain ⟨q, newest⟩ := exists_newest here
      rw [activeIds_getLast? newest] at last
      have inside := lt_of_active here
      have named : s.uniqueId r = some s.contexts[r].uniqueId := by
        simp [uniqueId, List.getElem?_eq_getElem inside]
      rw [tracked.same named (last.symm.trans named)]
      exact newest
    · intro newest
      rw [activeIds_getLast? newest]

theorem Aligned.initial : Aligned TestContexts.initial :=
  ⟨(fun _ found => nomatch found), fun _ _ => rfl, fun _ here => nomatch here⟩

theorem Aligned.started (aligned : Aligned s) (tracked : Tracked s)
    (fresh : id ∉ s.contexts.map TestContext.uniqueId) : Aligned (s.testStarted id) := by
  obtain ⟨actives, names, links⟩ := at_testStarted tracked fresh
  have own : (s.testStarted id).local_ = some s.contexts.length := by rw [tracked.testStarted fresh]
  constructor
  · intro r found
    rw [own] at found
    cases found
    refine ⟨by simp [actives], fun q later => ?_⟩
    rw [actives, Bool.or_eq_false_iff]
    refine ⟨?_, decide_eq_false (Nat.ne_of_gt later)⟩
    rw [Bool.eq_false_iff]
    exact fun here => absurd (lt_of_active here) (Nat.not_lt_of_gt later)
  · intro none_
    rw [own] at none_
    cases none_
  · intro r here q before apart
    rw [actives] at here ⊢
    rw [links] at apart
    by_cases new : r = s.contexts.length
    · subst new
      rw [if_pos rfl] at apart
      rw [decide_eq_false (Nat.ne_of_lt before), Bool.or_false]
      cases current : s.local_ with
      | none => exact aligned.none_ current q
      | some p => exact (aligned.newest p current).2 q (apart p current)
    · rw [if_neg new] at apart
      rw [decide_eq_false new, Bool.or_false] at here
      have inside := lt_of_active here
      rw [decide_eq_false (by omega), Bool.or_false]
      exact aligned.linked r here q before apart

theorem Linked.ended (linked : Linked s) (id : String) (r : Nat) : Linked (s.ended id r) := by
  intro q here p before apart
  rw [active_ended, Bool.and_eq_true] at here
  rw [active_ended]
  simp only [previous_ended] at apart
  rw [linked q here.1 p before apart, Bool.false_and]

end TestContexts

namespace TestRun

/-- The test that ends while it is current is the last one or can fall back on its link, and
an id that is not running comes only while some test is. -/
def Admitted (s : TestRun) : TestCall → Prop
  | .started _ => True
  | .finished id =>
    (id ∉ s.unfinished → s.unfinished ≠ []) ∧
      (s.unfinished.getLast? = some id → s.unfinished = [id] ∨
        ∃ r p, s.agent.uniqueId r = some id ∧ s.agent.previous r = some p ∧ s.agent.active p = true)

/-- The last call returned, and the current test is the one started last of those that have
not finished. -/
structure CurrentIsNewest (s : TestRun) : Prop where
  returned : s.agent.threw = false
  current : s.agent.currentId = s.unfinished.getLast?

variable {s t : TestRun} {id : String} {r : Nat} {call : TestCall}

/-- What holds in every run, with the list beside the agent. -/
structure Sound (s : TestRun) : Prop where
  tracked : s.agent.Tracked
  unfinished : s.unfinished = s.agent.activeIds

theorem Sound.mem_unfinished (sound : Sound s) :
    id ∈ s.unfinished ↔ ∃ r, s.agent.activeTests[id]? = some r := by
  rw [sound.unfinished]
  unfold TestContexts.activeIds
  constructor
  · intro member
    obtain ⟨context, present, rfl⟩ := List.mem_map.mp member
    obtain ⟨present, here⟩ := List.mem_filter.mp present
    obtain ⟨r, found⟩ := List.getElem?_of_mem present
    refine ⟨r, (sound.tracked.table _ r).mpr ⟨?_, ?_⟩⟩
    · simp [TestContexts.active, found, here]
    · simp [TestContexts.uniqueId, found]
  · rintro ⟨r, listed⟩
    obtain ⟨here, named⟩ := (sound.tracked.table id r).mp listed
    unfold TestContexts.active at here
    unfold TestContexts.uniqueId at named
    obtain ⟨context, found, rfl⟩ := Option.map_eq_some_iff.mp named
    rw [found, Option.any_some] at here
    exact List.mem_map_of_mem (List.mem_filter.mpr ⟨List.mem_of_getElem? found, here⟩)

/-- When one test is unfinished, its context is the only active one. -/
theorem Sound.only (sound : Sound s) (only : s.unfinished = [id])
    (listed : s.agent.activeTests[id]? = some r) {q : Nat} (here : s.agent.active q = true) : q = r := by
  obtain ⟨other, named⟩ := TestContexts.exists_uniqueId here
  have found := (sound.tracked.table other q).mpr ⟨here, named⟩
  have member := sound.mem_unfinished.mpr ⟨q, found⟩
  rw [only, List.mem_singleton] at member
  rw [member, listed] at found
  exact (Option.some.inj found).symm

theorem Sound.step (sound : Sound s) (stepped : s.step call = some t) : Sound t := by
  cases call with
  | started id =>
    simp only [TestRun.step] at stepped
    split at stepped
    · cases stepped
    · rename_i fresh
      cases stepped
      refine ⟨sound.tracked.started fresh, ?_⟩
      rw [sound.tracked.testStarted fresh]
      simp [TestContexts.activeIds, sound.unfinished]
  | finished id =>
    cases stepped
    refine ⟨sound.tracked.finished id, ?_⟩
    cases listed : s.agent.activeTests[id]? with
    | none =>
      have absent : id ∉ s.unfinished := by
        rw [sound.mem_unfinished, listed]
        rintro ⟨r, found⟩
        cases found
      rw [sound.tracked.testFinished_unknown listed]
      exact (List.erase_of_not_mem absent).trans sound.unfinished
    | some r =>
      obtain ⟨here, named⟩ := (sound.tracked.table id r).mp listed
      have contexts : (s.agent.testFinished id).contexts = (s.agent.deactivate r).contexts := by
        by_cases current : s.agent.local_ = some r
        · rw [sound.tracked.testFinished_current listed current]
          rfl
        · rw [sound.tracked.testFinished_other listed current]
          rfl
      have ids := sound.tracked.activeIds_deactivate here named
      unfold TestContexts.activeIds at ids
      rw [sound.unfinished, TestContexts.activeIds, TestContexts.activeIds, contexts, ids]

theorem Sound.newest_iff (sound : Sound s) : CurrentIsNewest s ↔ s.agent.threw = false ∧
    (∀ r, s.agent.local_ = some r → s.agent.Newest r) ∧
      (s.agent.local_ = none → ∀ q, s.agent.active q = false) := by
  rw [← sound.tracked.currentId_eq_iff, ← sound.unfinished]
  exact ⟨fun holds => ⟨holds.1, holds.2⟩, fun holds => ⟨holds.1, holds.2⟩⟩

/-- What an admitted step keeps. -/
structure Following (s : TestRun) : Prop where
  returned : s.agent.threw = false
  aligned : s.agent.Aligned

theorem Following.newest (following : Following s) (sound : Sound s) : CurrentIsNewest s :=
  sound.newest_iff.mpr ⟨following.returned, following.aligned.newest, following.aligned.none_⟩

/-- The current test ends and the thread falls back on the test before it. -/
theorem Following.current (following : Following s) (sound : Sound s)
    (listed : s.agent.activeTests[id]? = some r) (current : s.agent.local_ = some r)
    (admitted : Admitted s (.finished id)) : Following ⟨s.agent.testFinished id, s.unfinished.erase id⟩ := by
  have tracked := sound.tracked
  obtain ⟨here, named⟩ := (tracked.table id r).mp listed
  have newest := following.aligned.newest r current
  have last : s.unfinished.getLast? = some id := by
    rw [sound.unfinished, TestContexts.activeIds_getLast? newest, named]
  have spec := tracked.testFinished_current listed current
  have actives : ∀ q, (s.agent.testFinished id).active q = (s.agent.active q && !decide (q = r)) := by
    intro q
    rw [spec]
    exact TestContexts.active_ended s.agent id r
  have local_ : (s.agent.testFinished id).local_ =
      (s.agent.previous r).filter (s.agent.deactivate r).active := by rw [spec]
  have linked : (s.agent.testFinished id).Linked := by
    rw [spec]
    exact following.aligned.linked.ended id r
  refine ⟨by rw [spec]; rfl, ⟨?_, ?_, linked⟩⟩
  · intro p found
    rw [local_] at found
    obtain ⟨link, still⟩ := Option.filter_eq_some_iff.mp found
    rw [TestContexts.active_deactivate] at still
    refine ⟨by rw [actives, still], fun q later => ?_⟩
    rw [actives]
    rcases Nat.lt_trichotomy q r with before | same | after
    · have between := following.aligned.linked r here q before (by
        intro other again
        rw [link] at again
        cases again
        exact later)
      rw [between, Bool.false_and]
    · simp [same]
    · rw [newest.2 q after, Bool.false_and]
  · intro none_ q
    rw [actives]
    rcases admitted.2 last with only | ⟨r', p, named', link, still⟩
    · by_contra other
      rw [Bool.not_eq_false, Bool.and_eq_true, Bool.not_eq_true', decide_eq_false_iff_not] at other
      exact other.2 (sound.only only listed other.1)
    · exfalso
      rw [tracked.same named' named] at link
      have before := tracked.links r p link
      rw [local_, link, Option.filter_some, TestContexts.active_deactivate, still,
        decide_eq_false (Nat.ne_of_lt before)] at none_
      cases none_

/-- Another test ends, and the thread keeps its own. -/
theorem Following.other (following : Following s) (sound : Sound s)
    (listed : s.agent.activeTests[id]? = some r) (other : s.agent.local_ ≠ some r) :
    Following ⟨s.agent.testFinished id, s.unfinished.erase id⟩ := by
  have spec := sound.tracked.testFinished_other listed other
  have here := ((sound.tracked.table id r).mp listed).1
  constructor
  · change (s.agent.testFinished id).threw = false
    rw [spec]
    rfl
  · change (s.agent.testFinished id).Aligned
    rw [spec]
    refine ⟨fun q found => ?_, fun none_ => ?_, following.aligned.linked.ended id r⟩
    · have newest := following.aligned.newest q found
      refine ⟨?_, fun p later => ?_⟩
      · rw [TestContexts.active_ended, newest.1, Bool.true_and, Bool.not_eq_true',
          decide_eq_false_iff_not]
        rintro rfl
        exact other found
      · rw [TestContexts.active_ended, newest.2 p later, Bool.false_and]
    · rw [following.aligned.none_ none_ r] at here
      cases here

theorem Following.step (following : Following s) (sound : Sound s) (admitted : Admitted s call)
    (stepped : s.step call = some t) : Following t := by
  cases call with
  | started id =>
    simp only [TestRun.step] at stepped
    split at stepped
    · cases stepped
    · rename_i fresh
      cases stepped
      refine ⟨?_, following.aligned.started sound.tracked fresh⟩
      rw [sound.tracked.testStarted fresh]
  | finished id =>
    cases stepped
    cases listed : s.agent.activeTests[id]? with
    | none =>
      have running : s.agent.local_ ≠ none := by
        intro none_
        have absent : id ∉ s.unfinished := by
          rw [sound.mem_unfinished, listed]
          rintro ⟨r, found⟩
          cases found
        apply admitted.1 absent
        rw [sound.unfinished, TestContexts.activeIds_eq_nil_iff]
        exact following.aligned.none_ none_
      have spec := sound.tracked.testFinished_unknown listed
      constructor
      · change (s.agent.testFinished id).threw = false
        rw [spec]
        exact decide_eq_false running
      · change (s.agent.testFinished id).Aligned
        rw [spec]
        exact ⟨following.aligned.newest, following.aligned.none_, following.aligned.linked⟩
    | some r =>
      by_cases current : s.agent.local_ = some r
      · exact following.current sound listed current admitted
      · exact following.other sound listed current

/-- A step that is not admitted shows in the state after it. -/
theorem admitted_of_newest (sound : Sound s) (before : CurrentIsNewest s)
    (stepped : s.step call = some t) (after : CurrentIsNewest t) : Admitted s call := by
  cases call with
  | started id => trivial
  | finished id =>
    have sound' := sound.step stepped
    cases stepped
    obtain ⟨-, newest, none_⟩ := sound.newest_iff.mp before
    constructor
    · intro absent empty
      have idle : ∀ q, s.agent.active q = false := by
        rw [← TestContexts.activeIds_eq_nil_iff, ← sound.unfinished, empty]
      have unknown : s.agent.activeTests[id]? = none := by
        rw [Option.eq_none_iff_forall_ne_some]
        exact fun r listed => absent (sound.mem_unfinished.mpr ⟨r, listed⟩)
      have alone : s.agent.local_ = none := by
        rw [Option.eq_none_iff_forall_ne_some]
        intro r current
        have running := sound.tracked.held r current
        rw [idle r] at running
        cases running
      have returned := after.returned
      rw [sound.tracked.testFinished_unknown unknown] at returned
      simp [alone] at returned
    · intro last
      obtain ⟨r, listed⟩ := sound.mem_unfinished.mp (List.mem_of_getLast? last)
      obtain ⟨here, named⟩ := (sound.tracked.table id r).mp listed
      have current : s.agent.local_ = some r := by
        cases found : s.agent.local_ with
        | none =>
          rw [none_ found r] at here
          cases here
        | some q =>
          have seen := TestContexts.activeIds_getLast? (newest q found)
          rw [← sound.unfinished, last] at seen
          rw [sound.tracked.same seen.symm named]
      have local_ : (s.agent.testFinished id).local_ =
          (s.agent.previous r).filter (s.agent.deactivate r).active := by
        rw [sound.tracked.testFinished_current listed current]
      cases link : (s.agent.previous r).filter (s.agent.deactivate r).active with
      | some p =>
        obtain ⟨linked, still⟩ := Option.filter_eq_some_iff.mp link
        rw [TestContexts.active_deactivate, Bool.and_eq_true] at still
        exact .inr ⟨r, p, named, linked, still.1⟩
      | none =>
        left
        have idle := (sound'.newest_iff.mp after).2.2 (local_.trans link)
        rw [← TestContexts.activeIds_eq_nil_iff, ← sound'.unfinished] at idle
        change s.unfinished.erase id = [] at idle
        have rest := List.perm_cons_erase (List.mem_of_getLast? last)
        rw [idle] at rest
        exact List.perm_singleton.mp rest

/-- In every run without a test started twice, no call throws and the current test is the one
started last of those that have not finished, after every call, exactly when each test that
ends while it is current is the last one or can fall back on the test that was current at
its start, and each id that is not running comes only while some test is. -/
theorem current_is_newest_iff {calls : List TestCall} (ran : run step initial calls = some s) :
    Along step Admitted initial calls ↔
      ∀ before t, before <+: calls → run step initial before = some t → CurrentIsNewest t := by
  have start : Following TestRun.initial := ⟨rfl, .initial⟩
  apply along_iff_always_of _ (I := Sound) (P := Following) ran (along_trivial _ _ _)
    ⟨.initial, rfl⟩ start
  · exact fun s call t sound _ stepped => sound.step stepped
  · exact fun s call t sound following admitted stepped => following.step sound admitted stepped
  · exact fun s sound following => following.newest sound
  · exact fun s call t sound before stepped after => admitted_of_newest sound before stepped after

/-- A test inside a test, an older test that ends first, and an id that never started. -/
def nestedTests : List TestCall :=
  [.started "a", .started "b", .started "c", .finished "a", .finished "skipped", .finished "c",
    .finished "b"]

theorem current_is_newest_iff_demo :
    ∃ s, run step initial nestedTests = some s ∧ s.unfinished = [] ∧
      (Along step Admitted initial nestedTests ↔
        ∀ before t, before <+: nestedTests → run step initial before = some t →
          CurrentIsNewest t) := by
  have ran : (run step initial nestedTests).any fun s => decide (s.unfinished = []) := by
    decide +kernel
  rw [Option.any_eq_true] at ran
  obtain ⟨s, ran, empty⟩ := ran
  exact ⟨s, ran, of_decide_eq_true empty, current_is_newest_iff ran⟩

/-- A skipped test that never started ends without a current test, and the call throws; and
the test that ends after the one before it leaves the oldest one running without being
current. -/
theorem current_is_not_newest :
    (¬ ∀ calls s, run step initial calls = some s → s.agent.threw = false) ∧
      ¬ ∀ calls s, run step initial calls = some s → s.agent.currentId = s.unfinished.getLast? := by
  constructor
  · intro claim
    have ran : (run step initial [.finished "skipped"]).any fun s => s.agent.threw := by
      decide +kernel
    rw [Option.any_eq_true] at ran
    obtain ⟨s, ran, threw⟩ := ran
    rw [claim _ s ran] at threw
    cases threw
  · intro claim
    have ran : (run step initial [.started "a", .started "b", .started "c", .finished "b",
        .finished "c"]).any fun s =>
          decide (s.agent.currentId = none ∧ s.unfinished = ["a"]) := by
      decide +kernel
    rw [Option.any_eq_true] at ran
    obtain ⟨s, ran, seen⟩ := ran
    obtain ⟨nobody, left⟩ := of_decide_eq_true seen
    have current := claim _ s ran
    rw [nobody, left] at current
    cases current

end TestRun

end Walaru.Agent
