import Walaru.Lib.FileTree

/-!
# Everything below a directory that is not a directory

`leaves` is the recursive walk that takes each directory as it lists itself. It meets
the path of every other entry, and meets it once.
-/
namespace Walaru.Lib.FileTree

variable {ν φ : Type}

mutual
/-- The paths of what is no directory, in the order of the listings. -/
def Node.leaves (base : List ν) : Node ν φ → List (List ν)
  | .dir entries => entries.leaves base
  | _ => [base]

def Entries.leaves (base : List ν) : Entries ν φ → List (List ν)
  | .nil => []
  | .cons name node rest => node.leaves (base ++ [name]) ++ rest.leaves base
end

variable [DecidableEq ν]

theorem Node.distinct_get {node : Node ν φ} (distinct : node.distinct = true) {path : List ν}
    {found : Node ν φ} (shown : node.get path = some found) : found.distinct = true := by
  induction path generalizing node with
  | nil =>
    rw [Node.get_nil] at shown
    exact Option.some.inj shown ▸ distinct
  | cons name below ih =>
    cases node with
    | dir entries =>
      obtain ⟨next, listed, shown⟩ := Option.bind_eq_some_iff.mp shown
      exact ih (Entries.distinct_lookup distinct listed) shown
    | _ => cases shown

/-- An entry that is no directory stands at this path. -/
def Node.Leaf (path : List ν) (node : Node ν φ) : Prop :=
  ∃ found, node.get path = some found ∧ found.kind ≠ .dir

/-- Nothing stands below an entry that is no directory. -/
theorem Node.leaf_of_kind {node : Node ν φ} (kind : node.kind ≠ .dir) {path : List ν} :
    node.Leaf path ↔ path = [] := by
  cases path with
  | nil => simp [Node.Leaf, kind]
  | cons name below =>
    cases node with
    | dir entries => exact absurd rfl kind
    | _ => simp [Node.Leaf, Node.get]

/-- The walk below a directory, by the entry it goes into. -/
def Entries.Leaf (path : List ν) (entries : Entries ν φ) : Prop := (Node.dir entries).Leaf path

theorem Entries.leaf_iff {entries : Entries ν φ} {path : List ν} :
    entries.Leaf path ↔
      ∃ name below node, path = name :: below ∧ entries.lookup name = some node ∧
        node.Leaf below := by
  unfold Entries.Leaf Node.Leaf
  cases path with
  | nil => simp [Node.kind]
  | cons name below =>
    simp only [Node.get, Option.bind_eq_some_iff]
    constructor
    · rintro ⟨found, ⟨node, listed, shown⟩, leaf⟩
      exact ⟨name, below, node, rfl, listed, found, shown, leaf⟩
    · rintro ⟨name', below', node, same, listed, found, shown, leaf⟩
      obtain ⟨rfl, rfl⟩ := List.cons.inj same
      exact ⟨found, ⟨node, listed, shown⟩, leaf⟩

theorem Node.mem_leaves {node : Node ν φ} (distinct : node.distinct = true) {base path : List ν} :
    path ∈ node.leaves base ↔ ∃ below, path = base ++ below ∧ node.Leaf below := by
  induction node using Node.rec (motive_2 := fun (entries : Entries ν φ) => entries.distinct = true → ∀ base,
      (path ∈ entries.leaves base ↔ ∃ below, path = base ++ below ∧ entries.Leaf below))
      generalizing base with
  | dir entries ih => exact ih distinct base
  | nil => simp [Entries.leaves, Entries.leaf_iff, Entries.lookup]
  | cons name node rest own ih =>
    rename_i whole base
    simp only [Entries.distinct, Bool.and_eq_true, decide_eq_true_eq] at whole
    obtain ⟨⟨unlisted, nodeDistinct⟩, restDistinct⟩ := whole
    rw [Entries.leaves, List.mem_append, own nodeDistinct, ih restDistinct base]
    constructor
    · intro met
      rcases met with ⟨below, rfl, leaf⟩ | ⟨below, rfl, leaf⟩
      · refine ⟨name :: below, by simp, Entries.leaf_iff.mpr ⟨name, below, node, rfl, ?_, leaf⟩⟩
        simp [Entries.lookup]
      · obtain ⟨other, deeper, found, rfl, listed, leaf⟩ := Entries.leaf_iff.mp leaf
        refine ⟨_, rfl, Entries.leaf_iff.mpr ⟨other, deeper, found, rfl, ?_, leaf⟩⟩
        have different : name ≠ other := by
          rintro rfl
          exact unlisted (Entries.lookup_isSome_iff.mp (by simp [listed]))
        simpa [Entries.lookup, different] using listed
    · rintro ⟨below, path, leaf⟩
      obtain ⟨other, deeper, found, rfl, listed, leaf⟩ := Entries.leaf_iff.mp leaf
      simp only [Entries.lookup] at listed
      split at listed
      · rename_i same
        cases listed
        exact .inl ⟨deeper, by simp [path, same], leaf⟩
      · exact .inr ⟨_, path, Entries.leaf_iff.mpr ⟨other, deeper, found, rfl, listed, leaf⟩⟩
  | file payload =>
    simp [Node.leaves, Node.leaf_of_kind (show (Node.file payload).kind ≠ .dir by simp [kind])]
  | symlink => simp [Node.leaves, Node.leaf_of_kind (show Node.symlink.kind ≠ .dir by simp [kind])]
  | special => simp [Node.leaves, Node.leaf_of_kind (show Node.special.kind ≠ .dir by simp [kind])]

theorem Node.leaves_nodup {node : Node ν φ} (distinct : node.distinct = true) (base : List ν) :
    (node.leaves base).Nodup := by
  induction node using Node.rec (motive_2 := fun (entries : Entries ν φ) => entries.distinct = true → ∀ base,
      (entries.leaves base).Nodup) generalizing base with
  | dir entries ih => exact ih distinct base
  | nil => exact List.nodup_nil
  | cons name node rest own ih =>
    rename_i whole base
    simp only [Entries.distinct, Bool.and_eq_true, decide_eq_true_eq] at whole
    obtain ⟨⟨unlisted, nodeDistinct⟩, restDistinct⟩ := whole
    rw [Entries.leaves]
    refine List.Nodup.append (own nodeDistinct _) (ih restDistinct base) ?_
    intro path here there
    obtain ⟨below, first, -⟩ := (Node.mem_leaves nodeDistinct).mp here
    have whole : (Node.dir rest).distinct = true := restDistinct
    obtain ⟨below', second, leaf⟩ := (Node.mem_leaves whole).mp there
    obtain ⟨other, deeper, found, rfl, listed, -⟩ := Entries.leaf_iff.mp leaf
    rw [first, List.append_assoc, List.append_cancel_left_eq] at second
    obtain ⟨rfl, -⟩ := List.cons.inj second
    exact unlisted (Entries.lookup_isSome_iff.mp (by simp [listed]))
  | _ => exact List.nodup_singleton _

/-- A path that the walk meets alone under a test is the only leaf that passes it. -/
theorem Node.filter_leaves_eq_singleton {node : Node ν φ} (distinct : node.distinct = true)
    {base only : List ν} {test : List ν → Bool} :
    (node.leaves base).filter test = [only] ↔
      ∀ path, (∃ below, path = base ++ below ∧ node.Leaf below) ∧ test path = true ↔
        path = only := by
  have once : ((node.leaves base).filter test).Nodup := (Node.leaves_nodup distinct base).filter _
  constructor
  · intro single path
    rw [← Node.mem_leaves distinct, ← List.mem_filter, single, List.mem_singleton]
  · intro unique
    have member : ∀ path, path ∈ (node.leaves base).filter test ↔ path = only := by
      intro path
      rw [List.mem_filter, Node.mem_leaves distinct]
      exact unique path
    exact List.perm_singleton.mp
      ((List.perm_ext_iff_of_nodup once (List.nodup_singleton _)).mpr (by simpa using member))

end Walaru.Lib.FileTree
