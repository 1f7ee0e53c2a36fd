import Mathlib.Data.List.Sort
import Mathlib.Data.String.Basic
import Walaru.Source.Daemon.Impact

/-!
# What impact selection answers

`Verifier::impacted_tests` narrows a run exactly when every path that differs from the
baseline is a body-only edit with dependency evidence, and its answer is then the sorted
union of the evidence. In every other case it answers nothing.
-/
namespace Walaru
open Lib.FileTree

/-- A test has dependency evidence on the path. -/
def DependsOn (s : EvidenceStore) (testId path : String) : Prop :=
  ∃ row ∈ s.dependencies, row.subject = path ∧ row.testId = testId

/-- A differing path that does not widen the run. -/
structure BodyEdit (s : EvidenceStore) (baseline : RevisionManifest) (current : RevisionSnapshot)
    (path : String) : Prop where
  before : path ∈ baseline.fileDigests
  after : path ∈ current.fileDigests
  source : implementationSource path = true
  surface : baseline.surfaceDigests[path]? = current.surfaceDigests[path]?
  evidence : ∃ testId, DependsOn s testId path

/-- The paths that differ between a baseline and the current revision. -/
def DifferingPath (baseline : RevisionManifest) (current : RevisionSnapshot) (path : String) : Prop :=
  baseline.fileDigests[path]? ≠ current.fileDigests[path]?

/-- The inputs on which the run is narrowed to these tests. -/
structure NarrowedTo (s : EvidenceStore) (baseline : RevisionManifest) (current : RevisionSnapshot)
    (tests : List String) : Prop where
  some_ : ∃ path, DifferingPath baseline current path
  edits : ∀ path, DifferingPath baseline current path → BodyEdit s baseline current path
  sorted : tests.Pairwise (· < ·)
  union : ∀ testId, testId ∈ tests ↔
    ∃ path, DifferingPath baseline current path ∧ DependsOn s testId path

variable {s : EvidenceStore} {baseline : RevisionManifest} {current : RevisionSnapshot}

theorem mem_differingPaths' {path : String} :
    path ∈ differingPaths baseline current ↔ DifferingPath baseline current path := by
  rw [mem_differingPaths, DifferingPath, Std.ExtTreeMap.get?_eq_getElem?,
    Std.ExtTreeMap.get?_eq_getElem?]

/-- Evidence on a subject makes the selection exact. -/
theorem selectImpact_of_evidence {subject module : String} :
    (∃ tests, s.selectImpact subject module = .exact tests) ↔ ∃ testId, DependsOn s testId subject := by
  constructor
  · rintro ⟨tests, exact_⟩
    obtain ⟨known, members⟩ := selectImpact_exact exact_
    obtain ⟨testId, rest, rfl⟩ := List.exists_cons_of_ne_nil known
    exact ⟨testId, (members testId).mp (by simp)⟩
  · rintro ⟨testId, row, member, subject_, same⟩
    have known : Store.distinctSorted ((s.dependencies.filter fun row => row.subject = subject).map
        fun row => row.testId) ≠ [] := by
      apply List.ne_nil_of_mem (a := testId)
      rw [mem_distinctSorted]
      simp only [List.mem_map, List.mem_filter, decide_eq_true_eq]
      exact ⟨row, ⟨member, subject_⟩, same⟩
    exact ⟨_, by rw [Store.selectImpact, if_pos known]⟩

theorem bodyEdit_iff {path : String} :
    BodyEdit s baseline current path ↔ bodyOnlyEdit baseline current path = true ∧
      ∃ tests, s.selectImpact path (moduleForPath path) = .exact tests := by
  rw [selectImpact_of_evidence]
  simp only [bodyOnlyEdit, Bool.and_eq_true, decide_eq_true_eq, Std.ExtTreeMap.contains_iff_mem,
    Std.ExtTreeMap.get?_eq_getElem?]
  constructor
  · intro edit
    exact ⟨⟨⟨edit.source, edit.before, edit.after⟩, edit.surface⟩, edit.evidence⟩
  · rintro ⟨⟨⟨source, before, after⟩, surface⟩, evidence⟩
    exact ⟨before, after, source, surface, evidence⟩

/-- The loop goes through when every path is a body-only edit with evidence. -/
theorem selectPaths_isSome_iff {paths : List String} {start : BTreeSet String} :
    (∃ selected, selectPaths s baseline current start paths = some selected) ↔
      ∀ path ∈ paths, BodyEdit s baseline current path := by
  induction paths generalizing start with
  | nil => simp [selectPaths]
  | cons path rest ih =>
    rw [List.forall_mem_cons, bodyEdit_iff, selectPaths]
    by_cases edit : bodyOnlyEdit baseline current path = true
    · rw [if_pos edit]
      cases chosen : s.selectImpact path (moduleForPath path) with
      | exact tests =>
        rw [ih]
        simp [edit]
      | moduleAll tests reason => simp
    · rw [if_neg edit]
      simp [edit]

theorem toList_sorted (set : BTreeSet String) : set.toList.Pairwise (· < ·) :=
  set.ordered_toList.imp fun {_ _} less => compare_lt_iff_lt.mp less

/-- A strictly sorted list is determined by its members. -/
theorem sorted_ext {tests others : List String} (first : tests.Pairwise (· < ·))
    (second : others.Pairwise (· < ·)) (same : ∀ testId, testId ∈ tests ↔ testId ∈ others) :
    tests = others :=
  first.eq_of_mem_iff second same

theorem mem_selected {selected : BTreeSet String}
    (chosen : selectPaths s baseline current ∅ (differingPaths baseline current) = some selected)
    (testId : String) :
    testId ∈ selected.toList ↔
      ∃ path, DifferingPath baseline current path ∧ DependsOn s testId path := by
  rw [Std.ExtTreeSet.mem_toList, selectPaths_mem chosen]
  simp only [Std.ExtTreeSet.not_mem_empty, false_or, mem_differingPaths', DependsOn]
  constructor
  · rintro ⟨row, member, differs, same⟩
    exact ⟨row.subject, differs, row, member, rfl, same⟩
  · rintro ⟨path, differs, row, member, rfl, same⟩
    exact ⟨row, member, differs, same⟩

/-- The answer against one baseline. -/
theorem narrowedTo_iff {tests : List String} :
    (∃ selected, selectPaths s baseline current ∅ (differingPaths baseline current) = some selected ∧
      selected.isEmpty = false ∧ selected.toList = tests) ↔ NarrowedTo s baseline current tests := by
  constructor
  · rintro ⟨selected, chosen, filled, rfl⟩
    have edits := selectPaths_isSome_iff.mp ⟨selected, chosen⟩
    refine ⟨?_, fun path differs => edits path (mem_differingPaths'.mpr differs),
      toList_sorted selected, mem_selected chosen⟩
    have occupied : selected.toList ≠ [] := by
      intro empty
      rw [Std.ExtTreeSet.isEmpty_eq_false_iff] at filled
      exact filled (Std.ExtTreeSet.toList_eq_nil_iff.mp empty)
    obtain ⟨testId, rest, shape⟩ := List.exists_cons_of_ne_nil occupied
    obtain ⟨path, differs, -⟩ := (mem_selected chosen testId).mp (by simp [shape])
    exact ⟨path, differs⟩
  · intro narrowed
    have edits : ∀ path ∈ differingPaths baseline current, BodyEdit s baseline current path :=
      fun path member => narrowed.edits path (mem_differingPaths'.mp member)
    obtain ⟨selected, chosen⟩ := selectPaths_isSome_iff.mpr edits
    refine ⟨selected, chosen, ?_, sorted_ext (toList_sorted selected) narrowed.sorted ?_⟩
    · obtain ⟨path, differs⟩ := narrowed.some_
      obtain ⟨testId, depends⟩ := (narrowed.edits path differs).evidence
      have member := (mem_selected chosen testId).mpr ⟨path, differs, depends⟩
      rw [Std.ExtTreeSet.isEmpty_eq_false_iff]
      rintro rfl
      simp at member
    · intro testId
      rw [mem_selected chosen, narrowed.union]

/-- Two maps filled from the same entries have the same keys. -/
theorem mem_filled {α : Type} {files : List α} {key : α → String} {value other : α → String}
    {map also : BTreeMap String String} (start : ∀ path, path ∈ map → path ∈ also) {path : String}
    (member : path ∈ files.foldl (fun map file => map.insert (key file) (value file)) map) :
    path ∈ files.foldl (fun map file => map.insert (key file) (other file)) also := by
  induction files generalizing map also with
  | nil => exact start path member
  | cons file rest ih =>
    apply ih _ member
    intro path found
    rw [Std.ExtTreeMap.mem_insert] at found ⊢
    exact found.imp_right (start path)

/-- A captured revision has a surface digest for every file. -/
theorem captured_surface {hash : RevisionHash} {root : Path} {tree : Tree} {path : String}
    (member : path ∈ (capture hash root tree).snapshot.fileDigests) :
    path ∈ (capture hash root tree).snapshot.surfaceDigests :=
  mem_filled (fun _ found => absurd found Std.ExtTreeMap.not_mem_empty) member

/-- The surface digests of a narrowed path exist on both sides. -/
theorem BodyEdit.captured {hash : RevisionHash} {root : Path} {tree : Tree} {path : String}
    (edit : BodyEdit s baseline (capture hash root tree).snapshot path) :
    ∃ surface, baseline.surfaceDigests[path]? = some surface ∧
      (capture hash root tree).snapshot.surfaceDigests[path]? = some surface := by
  have known := captured_surface edit.after
  refine ⟨_, ?_, Std.ExtTreeMap.getElem?_eq_some_getElem known⟩
  rw [edit.surface]
  exact Std.ExtTreeMap.getElem?_eq_some_getElem known

theorem impactedTests_iff {requested : Option String} {tests : List String} :
    impactedTests s current requested = some tests ↔
      ∃ revision baseline, (requested <|> s.latestCachedRevision) = some revision ∧
        s.revisionManifest revision = some baseline ∧ revision ≠ current.revision ∧
        NarrowedTo s baseline current tests := by
  simp only [impactedTests, Option.bind_eq_bind, Option.bind_eq_some_iff, ← narrowedTo_iff]
  constructor
  · rintro ⟨revision, found, narrowed⟩
    split at narrowed
    · cases narrowed
    · rename_i differs
      simp only [Option.bind_eq_some_iff] at narrowed
      obtain ⟨baseline, stored, selected, chosen, narrowed⟩ := narrowed
      split at narrowed
      · cases narrowed
      · rename_i filled
        cases narrowed
        exact ⟨revision, baseline, found, stored, differs, selected, chosen, by simpa using filled, rfl⟩
  · rintro ⟨revision, baseline, found, stored, differs, selected, chosen, filled, rfl⟩
    refine ⟨revision, found, ?_⟩
    rw [if_neg differs]
    simp only [Option.bind_eq_some_iff]
    exact ⟨baseline, stored, selected, chosen, by simp [filled]⟩

/-- For every store, current revision and requested baseline: the run is narrowed to these
tests exactly when a stored baseline of another revision admits it. Against a captured
revision every narrowed path has a surface digest on both sides. -/
theorem impacted_tests_exact (s : EvidenceStore) (current : RevisionSnapshot)
    (requested : Option String) (tests : List String) :
    (impactedTests s current requested = some tests ↔
      ∃ revision baseline, (requested <|> s.latestCachedRevision) = some revision ∧
        s.revisionManifest revision = some baseline ∧ revision ≠ current.revision ∧
        NarrowedTo s baseline current tests) ∧
    ∀ hash root tree baseline path, BodyEdit s baseline (capture hash root tree).snapshot path →
      ∃ surface, baseline.surfaceDigests[path]? = some surface ∧
        (capture hash root tree).snapshot.surfaceDigests[path]? = some surface :=
  ⟨impactedTests_iff, fun _ _ _ _ _ edit => edit.captured⟩

end Walaru
