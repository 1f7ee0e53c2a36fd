import Walaru.Source.Core.Workspace

/-!
# The files a capture holds

Which files the walk of `workspace.rs` collects, independently of the order in
which a directory lists its entries and of where the workspace lies.
-/
namespace Walaru
open Lib.Text Lib.FileTree

@[simp] theorem stripRoot_nil (path : Path) : stripRoot [] path = path := by
  simp [stripRoot]

@[simp] theorem stripRoot_append (root path : Path) : stripRoot root (root ++ path) = path := by
  simp [stripRoot]

theorem relativeString_append (root path : Path) :
    relativeString root (root ++ path) = relativeString [] path := by
  simp [relativeString]

theorem includedFile_append (root : Path) {path : Path} (nonempty : path ≠ []) :
    includedFile root (root ++ path) = includedFile [] path := by
  simp [includedFile, List.getLast?_append_of_ne_nil root nonempty]

/-- A name of well-formed Unicode without a backslash. -/
def FileName.plain (name : FileName) : Bool :=
  name.units.all fun
    | .scalar c => c != '\\'
    | .illFormed _ => false

theorem FileName.units_of_plain {name : FileName} (plain : name.plain = true) :
    name.units = name.toStringLossy.toList.map .scalar ∧ '\\' ∉ name.toStringLossy.toList := by
  simp only [FileName.plain] at plain
  simp only [FileName.toStringLossy, String.toList_ofList]
  generalize name.units = units at plain
  induction units with
  | nil => simp
  | cons u rest ih =>
    rw [List.all_cons, Bool.and_eq_true] at plain
    obtain ⟨same, absent⟩ := ih plain.2
    cases u with
    | scalar c =>
      have other : c ≠ '\\' := by simpa using plain.1
      refine ⟨by simp [NameUnit.lossy, ← same], ?_⟩
      simp [NameUnit.lossy, absent, Ne.symm other]
    | illFormed bytes => simp at plain

theorem FileName.toStringLossy_injective {a b : FileName} (plainA : a.plain = true)
    (plainB : b.plain = true) (same : a.toStringLossy = b.toStringLossy) : a = b := by
  have units : a.units = b.units := by
    rw [(units_of_plain plainA).1, (units_of_plain plainB).1, same]
  cases a
  cases b
  simpa using units

theorem FileName.separator_not_mem (name : FileName) : '/' ∉ name.toStringLossy.toList := by
  intro inside
  simp only [FileName.toStringLossy, String.toList_ofList, List.mem_map] at inside
  obtain ⟨unit, member, shown⟩ := inside
  cases unit with
  | scalar c =>
    have same : c = '/' := shown
    exact name.separatorFree (same ▸ member)
  | illFormed bytes => cases shown

/-- The displayed path is split into its names again. -/
theorem splitChar_displayPath {path : Path} (nonempty : path ≠ []) :
    splitChar '/' (displayPath path) = path.map FileName.toStringLossy := by
  have joined : (path.map fun name => name.toStringLossy.toList) =
      (path.map FileName.toStringLossy).map String.toList := by
    rw [List.map_map]
    rfl
  rw [displayPath, joined]
  refine splitChar_intercalate (by simpa using nonempty) ?_
  intro piece member
  obtain ⟨name, -, rfl⟩ := List.mem_map.mp member
  exact name.separator_not_mem

/-- Among plain names the normalised text is the displayed one. -/
theorem relativeString_plain {path : Path} (plain : ∀ name ∈ path, name.plain = true) :
    relativeString [] path = displayPath path := by
  have unchanged : ∀ name ∈ path,
      (name.toStringLossy.toList.map fun c => if c = '\\' then '/' else c) =
        name.toStringLossy.toList := by
    intro name member
    refine List.map_congr_left (fun c here => ?_) |>.trans (List.map_id _)
    have other : c ≠ '\\' := by
      intro same
      subst same
      exact (FileName.units_of_plain (plain name member)).2 here
    simp [other]
  simp only [relativeString, stripRoot_nil, displayPath, replaceChar, String.toList_ofList,
    map_intercalate, List.map_map]
  congr 2
  exact List.map_congr_left unchanged

/-- Plain paths are told apart by their text. -/
theorem relativeString_injective {a b : Path} (nonemptyA : a ≠ []) (nonemptyB : b ≠ [])
    (plainA : ∀ name ∈ a, name.plain = true) (plainB : ∀ name ∈ b, name.plain = true)
    (same : relativeString [] a = relativeString [] b) : a = b := by
  have texts : a.map FileName.toStringLossy = b.map FileName.toStringLossy := by
    rw [← splitChar_displayPath nonemptyA, ← splitChar_displayPath nonemptyB,
      ← relativeString_plain plainA, ← relativeString_plain plainB, same]
  clear same nonemptyA nonemptyB
  induction a generalizing b with
  | nil => simpa using texts.symm
  | cons x a ih =>
    cases b with
    | nil => simp at texts
    | cons y b =>
      simp only [List.map_cons, List.cons.injEq] at texts
      rw [List.forall_mem_cons] at plainA plainB
      rw [FileName.toStringLossy_injective plainA.1 plainB.1 texts.1,
        ih plainA.2 plainB.2 texts.2]

theorem mem_visitedFiles {visits : List (Visit FileName FileData)} {path : Path} {data : FileData} :
    (path, data) ∈ visitedFiles visits ↔ Visit.file path data ∈ visits := by
  simp only [visitedFiles, List.mem_filterMap]
  constructor
  · intro ⟨visit, member, shown⟩
    cases visit with
    | file => simpa [← (Prod.mk.inj (Option.some.inj shown)).1,
        ← (Prod.mk.inj (Option.some.inj shown)).2] using member
    | directory => cases shown
  · intro member
    exact ⟨_, member, rfl⟩

/-- The collected files are those with included contents, below the root. -/
theorem mem_collectFiles {tree : Tree} (distinct : tree.distinct = true) {root path : Path}
    {data : FileData} :
    (path, data) ∈ collectFiles root tree ↔
      ∃ below, path = root ++ below ∧ tree.get below = some (.file data) ∧
        includedContents tree below = some data.contents := by
  have whole : (Node.dir tree).distinct = true := distinct
  rw [collectFiles, List.mem_filter, mem_visitedFiles, Node.mem_visits_file whole]
  constructor
  · intro ⟨⟨below, nonempty, here, got, above⟩, included⟩
    subst here
    rw [includedFile_append root nonempty] at included
    refine ⟨below, rfl, got, ?_⟩
    have entered : (below.dropLast.all fun name => !ignoredDirectory name.toStringLossy) = true :=
      List.all_eq_true.mpr above
    have found : tree.get below = some (.file data) := got
    simp [includedContents, entered, included, found]
  · intro ⟨below, here, got, shown⟩
    subst here
    have nonempty : below ≠ [] := by
      intro empty
      subst empty
      cases got
    unfold includedContents at shown
    split at shown
    · rename_i rules
      rw [Bool.and_eq_true] at rules
      exact ⟨⟨below, nonempty, rfl, got, List.all_eq_true.mp rules.1⟩,
        (includedFile_append root nonempty).trans rules.2⟩
    · cases shown

theorem includedContents_file {tree : Tree} {path : Path} {contents : List UInt8}
    (included : includedContents tree path = some contents) :
    ∃ data, tree.get path = some (.file data) ∧ data.contents = contents := by
  unfold includedContents at included
  split at included
  · split at included
    · rename_i data shown
      exact ⟨data, shown, Option.some.inj included⟩
    · cases included
  · cases included

theorem mem_capturedFiles {tree : Tree} {root : Path} {file : Path × FileData} :
    file ∈ capturedFiles root tree ↔ file ∈ collectFiles root tree := by
  rw [capturedFiles, List.mem_insertionSort]

theorem collectFiles_nodup {tree : Tree} (distinct : tree.distinct = true) (root : Path) :
    ((collectFiles root tree).map Prod.fst).Nodup := by
  have whole : (Node.dir tree).distinct = true := distinct
  have once : (((Node.dir tree).visits FileName.before
      (fun name => !ignoredDirectory name.toStringLossy) root).map Visit.path).Nodup :=
    Node.visits_nodup whole root
  refine List.Nodup.sublist ?_ once
  refine (List.filter_sublist.map Prod.fst).trans ?_
  generalize (Node.dir tree).visits FileName.before
    (fun name => !ignoredDirectory name.toStringLossy) root = visits
  induction visits with
  | nil => exact List.Sublist.slnil
  | cons visit rest ih =>
    cases visit with
    | file path data => exact ih.cons_cons path
    | directory path => exact ih.cons path

end Walaru
