import Walaru.Source.Daemon.IngestEffects

/-!
# What the accumulators say about a stream

Each accumulator is related to the events that contribute to it: an entry is
there after the stream exactly when it was there before or some event, at its
place in the stream, adds it.
-/
namespace Walaru

section Fold
variable (ctx : IngestContext) (P : IngestState → Prop) (adds : Nat → Json → Prop)

/-- What can only come from an event that adds it. -/
theorem observeAll_imp
    (step : ∀ st raw, P (st.observe ctx raw) → P st ∨ adds st.eventCount raw)
    {st : IngestState} {raws : List Json} (after : P (observeAll ctx st raws)) :
    P st ∨ ∃ i raw, raws[i]? = some raw ∧ adds (st.eventCount + i) raw := by
  induction raws generalizing st with
  | nil => exact .inl after
  | cons raw rest ih =>
    rcases @ih (st.observe ctx raw) after with now | ⟨i, later, place, added⟩
    · rcases step st raw now with before | added
      · exact .inl before
      · exact .inr ⟨0, raw, rfl, added⟩
    · refine .inr ⟨i + 1, later, place, ?_⟩
      rwa [observe_eventCount, show st.eventCount + 1 + i = st.eventCount + (i + 1) by omega] at added

/-- What stays once it is there, and is there exactly when some event adds it. -/
theorem observeAll_iff
    (step : ∀ st raw, P (st.observe ctx raw) ↔ P st ∨ adds st.eventCount raw)
    (st : IngestState) (raws : List Json) :
    P (observeAll ctx st raws) ↔
      P st ∨ ∃ i raw, raws[i]? = some raw ∧ adds (st.eventCount + i) raw := by
  refine ⟨observeAll_imp ctx P adds fun st raw => (step st raw).mp, ?_⟩
  induction raws generalizing st with
  | nil => simp [observeAll]
  | cons raw rest ih =>
    intro contributed
    apply ih (st.observe ctx raw)
    rcases contributed with before | ⟨i, later, place, added⟩
    · exact .inl ((step st raw).mpr (.inl before))
    · cases i with
      | zero =>
        cases place
        exact .inl ((step st raw).mpr (.inr added))
      | succ i =>
        refine .inr ⟨i, later, place, ?_⟩
        rwa [observe_eventCount, show st.eventCount + 1 + i = st.eventCount + (i + 1) by omega]

end Fold

/-- A test event: it makes the test known to the run. -/
def testEvent (raw : Json) : Prop := kindName raw = "TEST_START" ∨ kindName raw = "TEST_FINISH"

instance : DecidablePred testEvent := fun raw => by
  unfold testEvent
  infer_instance

/-- The file holds an event of this shape at this place. -/
def EventFile.at (file : EventFile) (i : Nat) (raw : Json) : Prop := file.raws[i]? = some raw

theorem EventFile.mem_of_at {file : EventFile} {i : Nat} {raw : Json} (place : file.at i raw) :
    raw ∈ file.raws := List.mem_of_getElem? place

theorem observe_tests (ctx : IngestContext) (st : IngestState) (raw : Json) :
    (st.observe ctx raw).tests =
      if kindName raw = "TEST_START" then st.tests.insertIfNew (publicTestId raw) none
      else if kindName raw = "TEST_FINISH" then
        st.tests.insert (publicTestId raw) (some (finishStatus raw))
      else st.tests := rfl

theorem observe_failures (ctx : IngestContext) (st : IngestState) (raw : Json) :
    (st.observe ctx raw).failures =
      if failedFinish raw then st.failures ++ [failureId ctx st.eventCount raw]
      else st.failures := rfl

theorem mem_observe_tests (ctx : IngestContext) (testId : String) (st : IngestState) (raw : Json) :
    testId ∈ (st.observe ctx raw).tests ↔
      testId ∈ st.tests ∨ (testEvent raw ∧ publicTestId raw = testId) := by
  rw [observe_tests]
  unfold testEvent
  split
  · rename_i start
    simp only [Std.ExtTreeMap.mem_insertIfNew, Std.LawfulEqCmp.compare_eq_iff_eq, start, true_or,
      true_and]
    tauto
  · split
    · rename_i finish
      simp only [Std.ExtTreeMap.mem_insert, Std.LawfulEqCmp.compare_eq_iff_eq, finish, or_true,
        true_and]
      tauto
    · simp [*]

/-- What starts out false and is there exactly when some event adds it. -/
theorem finalState_iff (ctx : IngestContext) (P : IngestState → Prop) (adds : Json → Prop)
    (never : ¬ P .start) (step : ∀ st raw, P (st.observe ctx raw) ↔ P st ∨ adds raw)
    (file : EventFile) : P (finalState ctx file) ↔ ∃ raw ∈ file.raws, adds raw := by
  rw [finalState, observeAll_iff ctx P (fun _ raw => adds raw) step]
  constructor
  · rintro (before | ⟨i, raw, place, added⟩)
    · exact absurd before never
    · exact ⟨raw, List.mem_of_getElem? place, added⟩
  · rintro ⟨raw, member, added⟩
    obtain ⟨i, place⟩ := List.getElem?_of_mem member
    exact .inr ⟨i, raw, place, added⟩

/-- The tests of a run are those its stream starts or finishes. -/
theorem mem_tests_iff (ctx : IngestContext) (file : EventFile) (testId : String) :
    testId ∈ (finalState ctx file).tests ↔
      ∃ raw ∈ file.raws, testEvent raw ∧ publicTestId raw = testId:=
  finalState_iff ctx (fun st => testId ∈ st.tests) _ Std.ExtTreeMap.not_mem_empty
    (mem_observe_tests ctx testId) file

/-- A terminal status is the one a finish event of the test reports. -/
theorem finish_of_status {ctx : IngestContext} {file : EventFile} {testId status : String}
    (recorded : (finalState ctx file).tests[testId]? = some (some status)) :
    ∃ raw ∈ file.raws, kindName raw = "TEST_FINISH" ∧ publicTestId raw = testId ∧
      finishStatus raw = status := by
  have fold := observeAll_imp ctx (fun st => st.tests[testId]? = some (some status))
    (fun _ raw => kindName raw = "TEST_FINISH" ∧ publicTestId raw = testId ∧
      finishStatus raw = status) ?_ recorded
  · rcases fold with none | ⟨i, raw, place, added⟩
    · simp [IngestState.start] at none
    · exact ⟨raw, List.mem_of_getElem? place, added⟩
  · intro st raw after
    rw [observe_tests] at after
    split at after
    · rw [Std.ExtTreeMap.getElem?_insertIfNew] at after
      split at after
      · cases after
      · exact .inl after
    · split at after
      · rename_i finish
        rw [Std.ExtTreeMap.getElem?_insert] at after
        split at after
        · rename_i same
          simp only [Option.some.injEq] at after
          exact .inr ⟨finish, Std.LawfulEqCmp.compare_eq_iff_eq.mp same, after⟩
        · exact .inl after
      · exact .inl after

/-- Failures are listed exactly when some test event reports one. -/
theorem failures_eq_nil_iff (ctx : IngestContext) (file : EventFile) :
    (finalState ctx file).failures = [] ↔ ∀ raw ∈ file.raws, failedFinish raw = false := by
  have some_ := finalState_iff ctx (fun st => st.failures ≠ [])
    (fun raw => failedFinish raw = true) (by simp [IngestState.start]) (fun st raw => by
      rw [observe_failures]
      split <;> simp [*]) file
  rw [← not_iff_not]
  change (finalState ctx file).failures ≠ [] ↔ _
  rw [some_]
  simp

/-- A covered line of a test, read at a place of the stream. -/
def lineOf (ctx : IngestContext) (testId path : String) (place : Nat) (raw : Json) : Prop :=
  kindName raw = "LINE" ∧ publicTestId raw = testId ∧ sourcePath (ctx.tree place) raw = some path

theorem mem_learnedPaths_observe (ctx : IngestContext) (testId path : String) (st : IngestState)
    (raw : Json) :
    path ∈ learnedPaths (st.observe ctx raw) testId ↔
      path ∈ learnedPaths st testId ∨ lineOf ctx testId path st.eventCount raw := by
  have field : (st.observe ctx raw).dependencies =
      ((sourcePath (ctx.tree st.eventCount) raw).filter fun _ => kindName raw = "LINE").elim
        st.dependencies fun found => st.dependencies.insert (publicTestId raw)
          (((st.dependencies.get? (publicTestId raw)).getD ∅).insert found) := by
    change (IngestState.observeLine ctx raw st).dependencies = _
    unfold IngestState.observeLine
    cases (sourcePath (ctx.tree st.eventCount) raw).filter fun _ => kindName raw = "LINE" <;> rfl
  unfold learnedPaths lineOf
  rw [field]
  simp only [Std.ExtTreeMap.get?_eq_getElem?]
  cases source : sourcePath (ctx.tree st.eventCount) raw with
  | none => simp
  | some found =>
    by_cases line : kindName raw = "LINE"
    · simp only [line, Option.filter_some, decide_true, if_true, true_and, Option.some.injEq,
        Option.elim_some, Std.ExtTreeMap.getElem?_insert, Std.LawfulEqCmp.compare_eq_iff_eq]
      by_cases same : publicTestId raw = testId
      · simp only [same, if_true, Option.getD_some, Std.ExtTreeSet.mem_insert,
          Std.LawfulEqCmp.compare_eq_iff_eq, true_and]
        tauto
      · simp [same]
    · simp [line]

/-- The dependencies learned for a test are the paths of its covered lines. -/
theorem mem_learnedPaths_iff (ctx : IngestContext) (file : EventFile) (testId path : String) :
    path ∈ learnedPaths (finalState ctx file) testId ↔
      ∃ i raw, file.at i raw ∧ lineOf ctx testId path i raw := by
  have fold := observeAll_iff ctx (fun st => path ∈ learnedPaths st testId)
    (lineOf ctx testId path) (mem_learnedPaths_observe ctx testId path) .start file.raws
  have none_yet : path ∉ learnedPaths IngestState.start testId := by
    simp [learnedPaths, IngestState.start]
  have from_zero : ∀ i, IngestState.start.eventCount + i = i := Nat.zero_add
  rw [finalState, fold]
  simp only [none_yet, false_or, from_zero]
  rfl

end Walaru
