import Mathlib.Data.List.Sort

/-!
# Directory trees

A tree of named entries as a file system shows it, with names and file payloads of
any type. A directory lists its entries in no particular order. `visits` is the
recursive walk that sorts each directory by name and enters only some of them.
-/
namespace Walaru.Lib.FileTree

mutual
inductive Node (ν φ : Type) where
  | file (payload : φ)
  | dir (entries : Entries ν φ)
  | symlink
  /-- A socket, pipe or device. -/
  | special
  deriving DecidableEq

inductive Entries (ν φ : Type) where
  | nil
  | cons (name : ν) (node : Node ν φ) (rest : Entries ν φ)
  deriving DecidableEq
end

variable {ν φ : Type}

namespace Entries

def names : Entries ν φ → List ν
  | nil => []
  | cons name _ rest => name :: rest.names

/-- The entry of that name. -/
def lookup [DecidableEq ν] (name : ν) : Entries ν φ → Option (Node ν φ)
  | nil => none
  | cons found node rest => if found = name then some node else rest.lookup name

end Entries

mutual
/-- No directory lists a name twice. -/
def Node.distinct [DecidableEq ν] : Node ν φ → Bool
  | .dir entries => entries.distinct
  | _ => true

def Entries.distinct [DecidableEq ν] : Entries ν φ → Bool
  | .nil => true
  | .cons name node rest => decide (name ∉ rest.names) && node.distinct && rest.distinct
end

/-- What a path of names leads to, symbolic links not followed. -/
def Node.get [DecidableEq ν] : List ν → Node ν φ → Option (Node ν φ)
  | [], node => some node
  | name :: path, .dir entries => (entries.lookup name).bind (Node.get path)
  | _ :: _, _ => none

def Entries.get [DecidableEq ν] (path : List ν) (entries : Entries ν φ) : Option (Node ν φ) :=
  (Node.dir entries).get path

/-- What stands at a path, without what is below it. -/
inductive Kind (φ : Type) where
  | file (payload : φ)
  | dir
  | symlink
  | special
  deriving DecidableEq

def Node.kind : Node ν φ → Kind φ
  | .file payload => .file payload
  | .dir _ => .dir
  | .symlink => .symlink
  | .special => .special

def Entries.look [DecidableEq ν] (path : List ν) (entries : Entries ν φ) : Option (Kind φ) :=
  (entries.get path).map Node.kind

/-- Put an entry at a name, or take the name away. -/
def Entries.assign [DecidableEq ν] (name : ν) (entry : Option (Node ν φ)) :
    Entries ν φ → Entries ν φ
  | .nil =>
    match entry with
    | some node => .cons name node .nil
    | none => .nil
  | .cons found node rest =>
    if found = name then
      match entry with
      | some other => .cons name other rest
      | none => rest
    else .cons found node (rest.assign name entry)

/-- Change the entry at a path, if the path above it consists of directories. -/
def Entries.alter [DecidableEq ν] (change : Option (Node ν φ) → Option (Node ν φ)) :
    List ν → Entries ν φ → Option (Entries ν φ)
  | [], _ => none
  | [name], entries => some (entries.assign name (change (entries.lookup name)))
  | name :: next :: rest, entries =>
    match entries.lookup name with
    | some (.dir inner) =>
      (inner.alter change (next :: rest)).map fun inner' => entries.assign name (some (.dir inner'))
    | _ => none

/-- What a walk comes across. -/
inductive Visit (ν φ : Type) where
  | directory (path : List ν)
  | file (path : List ν) (payload : φ)
  deriving DecidableEq

def Visit.path : Visit ν φ → List ν
  | directory path | file path _ => path

/-- The visits that one entry gives, `below` being those of its own entries. -/
def entryVisits (enter : ν → Bool) (name : ν) (path : List ν) (node : Node ν φ)
    (below : List (Visit ν φ)) : List (Visit ν φ) :=
  match node with
  | .file payload => [.file path payload]
  | .dir _ => if enter name then .directory path :: below else []
  | .symlink | .special => []

section Walk

variable (before : ν → ν → Prop) [DecidableRel before] (enter : ν → Bool)

mutual
/-- The walk below a directory at `base`: entries in name order, files and entered
directories recorded as they are met. -/
def Node.visits (base : List ν) : Node ν φ → List (Visit ν φ)
  | .dir entries =>
    ((entries.visits base).insertionSort fun a b => before a.1 b.1).flatMap Prod.snd
  | _ => []

/-- The visits of each entry, beside its name. -/
def Entries.visits (base : List ν) : Entries ν φ → List (ν × List (Visit ν φ))
  | .nil => []
  | .cons name node rest =>
    (name, entryVisits enter name (base ++ [name]) node (node.visits (base ++ [name]))) ::
      rest.visits base
end

end Walk

section Get

variable [DecidableEq ν]

theorem Entries.lookup_isSome_iff {name : ν} {entries : Entries ν φ} :
    (entries.lookup name).isSome ↔ name ∈ entries.names := by
  induction entries using Entries.rec (motive_1 := fun _ => True) with
  | nil => simp [Entries.lookup, Entries.names]
  | cons found node rest _ ih =>
    simp only [Entries.lookup, Entries.names, List.mem_cons]
    split
    · rename_i same
      simp [same]
    · rename_i different
      simp [ih, Ne.symm different]
  | _ => trivial

@[simp] theorem Node.get_nil (node : Node ν φ) : node.get [] = some node := by
  cases node <;> rfl

theorem Node.get_append (path rest : List ν) (node : Node ν φ) :
    node.get (path ++ rest) = (node.get path).bind (Node.get rest) := by
  induction path generalizing node with
  | nil => simp
  | cons name path ih =>
    cases node with
    | dir entries =>
      simp only [List.cons_append, Node.get]
      cases entries.lookup name with
      | none => rfl
      | some below => simp [ih]
    | _ => rfl

theorem Entries.look_file {entries : Entries ν φ} {path : List ν} {payload : φ} :
    entries.look path = some (.file payload) ↔ entries.get path = some (.file payload) := by
  unfold Entries.look
  cases entries.get path with
  | none => simp
  | some node => cases node <;> simp [Node.kind]

/-- Only a directory has something below it. -/
theorem Node.get_dir_of_get {path : List ν} {name : ν} {rest : List ν} {node found : Node ν φ}
    (shown : node.get (path ++ name :: rest) = some found) :
    ∃ entries, node.get path = some (.dir entries) := by
  rw [Node.get_append] at shown
  cases above : node.get path with
  | none => simp [above] at shown
  | some t =>
    cases t with
    | dir entries => exact ⟨entries, rfl⟩
    | _ => simp [above, Node.get] at shown

/-- Induction on a tree: a directory may use the claim of everything it lists. -/
theorem Node.induct {P : Node ν φ → Prop} (file : ∀ payload, P (.file payload))
    (dir : ∀ entries : Entries ν φ,
      (∀ name node, entries.lookup name = some node → P node) → P (.dir entries))
    (symlink : P .symlink) (special : P .special) (node : Node ν φ) : P node := by
  induction node using Node.rec
    (motive_2 := fun entries => ∀ name node, entries.lookup name = some node → P node) with
  | file payload => exact file payload
  | dir entries ih => exact dir entries ih
  | symlink => exact symlink
  | special => exact special
  | nil =>
    rename_i shown
    cases shown
  | cons found node rest own ih =>
    rename_i name other shown
    simp only [Entries.lookup] at shown
    split at shown
    · cases shown
      exact own
    · exact ih name other shown

theorem Entries.distinct_lookup {entries : Entries ν φ} (distinct : entries.distinct = true)
    {name : ν} {node : Node ν φ} (shown : entries.lookup name = some node) :
    node.distinct = true := by
  induction entries using Entries.rec (motive_1 := fun _ => True) with
  | nil => cases shown
  | cons found other rest _ ih =>
    simp only [Entries.distinct, Bool.and_eq_true, decide_eq_true_eq] at distinct
    simp only [Entries.lookup] at shown
    split at shown
    · cases shown
      exact distinct.1.2
    · exact ih distinct.2 shown
  | _ => trivial

end Get

section Alter

variable [DecidableEq ν]

theorem Entries.lookup_assign {entries : Entries ν φ} (distinct : entries.distinct = true)
    (name other : ν) (entry : Option (Node ν φ)) :
    (entries.assign name entry).lookup other =
      if other = name then entry else entries.lookup other := by
  induction entries using Entries.rec (motive_1 := fun _ => True) with
  | nil =>
    cases entry with
    | none => simp [Entries.assign, Entries.lookup]
    | some node => simp [Entries.assign, Entries.lookup, eq_comm]
  | cons found node rest _ ih =>
    simp only [Entries.distinct, Bool.and_eq_true, decide_eq_true_eq] at distinct
    obtain ⟨⟨unlisted, -⟩, restDistinct⟩ := distinct
    simp only [Entries.assign]
    by_cases same : found = name
    · subst same
      have absent : rest.lookup found = none := by
        rw [← Option.not_isSome_iff_eq_none, Entries.lookup_isSome_iff]
        exact unlisted
      cases entry with
      | none =>
        by_cases here : other = found
        · simp [here, absent]
        · simp [here, Entries.lookup, Ne.symm here]
      | some node =>
        by_cases here : other = found
        · simp [here, Entries.lookup]
        · simp [here, Entries.lookup, Ne.symm here]
    · simp only [same, if_false, Entries.lookup, ih restDistinct]
      by_cases here : found = other
      · subst here
        simp [same]
      · simp [here]
  | _ => trivial

theorem Entries.mem_names_assign {entries : Entries ν φ} {name other : ν}
    {entry : Option (Node ν φ)} (member : other ∈ (entries.assign name entry).names) :
    other = name ∨ other ∈ entries.names := by
  induction entries using Entries.rec (motive_1 := fun _ => True) with
  | nil =>
    cases entry with
    | none => cases member
    | some node => simpa [Entries.assign, Entries.names] using member
  | cons found node rest _ ih =>
    simp only [Entries.assign] at member
    split at member
    · rename_i same
      cases entry with
      | none => exact .inr (List.mem_cons_of_mem _ member)
      | some node => simpa [Entries.names, same] using member
    · simp only [Entries.names, List.mem_cons] at member ⊢
      rcases member with rfl | member
      · exact .inr (.inl rfl)
      · rcases ih member with rfl | old
        · exact .inl rfl
        · exact .inr (.inr old)
  | _ => trivial

theorem Entries.distinct_assign {entries : Entries ν φ} (distinct : entries.distinct = true)
    {name : ν} {entry : Option (Node ν φ)} (good : ∀ node ∈ entry, node.distinct = true) :
    (entries.assign name entry).distinct = true := by
  induction entries using Entries.rec (motive_1 := fun _ => True) with
  | nil =>
    cases entry with
    | none => rfl
    | some node => simp [Entries.assign, Entries.distinct, Entries.names, good node rfl]
  | cons found node rest _ ih =>
    simp only [Entries.distinct, Bool.and_eq_true, decide_eq_true_eq] at distinct
    obtain ⟨⟨unlisted, nodeDistinct⟩, restDistinct⟩ := distinct
    simp only [Entries.assign]
    split
    · rename_i same
      subst same
      cases entry with
      | none => exact restDistinct
      | some other => simp [Entries.distinct, unlisted, good other rfl, restDistinct]
    · rename_i different
      have fresh : found ∉ (rest.assign name entry).names := by
        intro member
        rcases Entries.mem_names_assign member with same | old
        · exact different same
        · exact unlisted old
      simp [Entries.distinct, fresh, nodeDistinct, ih restDistinct]
  | _ => trivial

theorem Entries.distinct_alter {change : Option (Node ν φ) → Option (Node ν φ)}
    (good : ∀ old, (∀ node ∈ old, node.distinct = true) → ∀ node ∈ change old, node.distinct = true)
    {path : List ν} {entries after : Entries ν φ} (distinct : entries.distinct = true)
    (success : entries.alter change path = some after) : after.distinct = true := by
  induction path generalizing entries after with
  | nil => cases success
  | cons name rest ih =>
    cases rest with
    | nil =>
      simp only [Entries.alter, Option.some.injEq] at success
      subst success
      refine Entries.distinct_assign distinct (good _ ?_)
      intro node shown
      exact Entries.distinct_lookup distinct shown
    | cons next rest =>
      simp only [Entries.alter] at success
      split at success
      · rename_i inner shown
        obtain ⟨inner', changed, rfl⟩ := Option.map_eq_some_iff.mp success
        refine Entries.distinct_assign distinct ?_
        intro node here
        cases here
        exact ih (Entries.distinct_lookup distinct shown) changed
      · cases success

/-- The effect of a change: at and below the path its result, elsewhere nothing. -/
theorem Entries.look_alter {change : Option (Node ν φ) → Option (Node ν φ)}
    {path : List ν} {entries after : Entries ν φ} (distinct : entries.distinct = true)
    (success : entries.alter change path = some after) (query : List ν) :
    after.look query =
      if path <+: query then
        ((change (entries.get path)).bind (Node.get (query.drop path.length))).map Node.kind
      else entries.look query := by
  induction path generalizing entries after query with
  | nil => cases success
  | cons name rest ih =>
    cases query with
    | nil => simp [Entries.look, Entries.get, Node.kind]
    | cons first query =>
      cases rest with
      | nil =>
        simp only [Entries.alter, Option.some.injEq] at success
        subst success
        simp only [Entries.look, Entries.get, Node.get, Entries.lookup_assign distinct,
          List.cons_prefix_cons, List.nil_prefix, and_true, List.length_cons, List.length_nil,
          List.drop_succ_cons, List.drop_zero]
        by_cases same : name = first
        · subst same
          simp
        · simp [same, Ne.symm same]
      | cons next rest =>
        simp only [Entries.alter] at success
        split at success
        · rename_i inner shown
          obtain ⟨inner', changed, rfl⟩ := Option.map_eq_some_iff.mp success
          have deeper := ih (Entries.distinct_lookup distinct shown) changed query
          simp only [Entries.look, Entries.get, Node.get, Entries.lookup_assign distinct,
            List.cons_prefix_cons]
          by_cases same : name = first
          · subst same
            simpa [Entries.look, Entries.get, Node.get, shown, List.cons_prefix_cons] using deeper
          · simp [same, Ne.symm same]
        · cases success

end Alter

section Spec

variable [DecidableEq ν] {before : ν → ν → Prop} [DecidableRel before] {enter : ν → Bool}

/-- The visits of a directory are those of what it lists. -/
theorem Entries.mem_visits {entries : Entries ν φ} (distinct : entries.distinct = true)
    {base : List ν} {name : ν} {visited : List (Visit ν φ)} :
    (name, visited) ∈ entries.visits before enter base ↔
      ∃ node, entries.lookup name = some node ∧
        visited = entryVisits enter name (base ++ [name]) node
          (node.visits before enter (base ++ [name])) := by
  induction entries using Entries.rec (motive_1 := fun _ => True) with
  | nil => simp [Entries.visits, Entries.lookup]
  | cons found node rest _ ih =>
    simp only [Entries.distinct, Bool.and_eq_true, decide_eq_true_eq] at distinct
    obtain ⟨⟨unlisted, -⟩, distinct⟩ := distinct
    simp only [Entries.visits, Entries.lookup, List.mem_cons, Prod.mk.injEq, ih distinct]
    by_cases same : found = name
    · subst same
      have absent : rest.lookup found = none := by
        rw [← Option.not_isSome_iff_eq_none, Entries.lookup_isSome_iff]
        exact unlisted
      simp [absent]
    · simp [same, Ne.symm same]
  | _ => trivial

theorem Node.mem_visits_dir {entries : Entries ν φ} (distinct : entries.distinct = true)
    {base : List ν} {visit : Visit ν φ} :
    visit ∈ (Node.dir entries).visits before enter base ↔
      ∃ name node, entries.lookup name = some node ∧
        visit ∈ entryVisits enter name (base ++ [name]) node
          (node.visits before enter (base ++ [name])) := by
  simp only [Node.visits, List.mem_flatMap, List.mem_insertionSort, Prod.exists]
  constructor
  · intro ⟨name, visited, listed, member⟩
    obtain ⟨node, shown, rfl⟩ := (Entries.mem_visits distinct).mp listed
    exact ⟨name, node, shown, member⟩
  · intro ⟨name, node, shown, member⟩
    exact ⟨name, _, (Entries.mem_visits distinct).mpr ⟨node, shown, rfl⟩, member⟩

/-- The walk meets exactly the files whose directories it enters. -/
theorem Node.mem_visits_file {node : Node ν φ} (distinct : node.distinct = true)
    {base path : List ν} {payload : φ} :
    Visit.file path payload ∈ node.visits before enter base ↔
      ∃ below, below ≠ [] ∧ path = base ++ below ∧ node.get below = some (.file payload) ∧
        ∀ name ∈ below.dropLast, enter name = true := by
  induction node using Node.induct generalizing base with
  | dir entries ih =>
    rw [Node.mem_visits_dir distinct]
    constructor
    · intro ⟨name, node, shown, member⟩
      cases node with
      | file found =>
        simp only [entryVisits, List.mem_singleton, Visit.file.injEq] at member
        exact ⟨[name], by simp, member.1, by simp [Node.get, shown, member.2], by simp⟩
      | dir inner =>
        simp only [entryVisits] at member
        split at member
        · rename_i entered
          simp only [List.mem_cons, reduceCtorEq, false_or] at member
          have innerDistinct := Entries.distinct_lookup distinct shown
          obtain ⟨below, nonempty, rfl, got, above⟩ := (ih name _ shown innerDistinct).mp member
          refine ⟨name :: below, by simp, by simp, by simp [Node.get, shown, got], ?_⟩
          rw [List.dropLast_cons_of_ne_nil nonempty]
          simpa [entered] using above
        · cases member
      | _ => cases member
    · intro ⟨below, nonempty, here, got, above⟩
      cases below with
      | nil => exact absurd rfl nonempty
      | cons name rest =>
        simp only [Node.get, Option.bind_eq_some_iff] at got
        obtain ⟨node, shown, got⟩ := got
        refine ⟨name, node, shown, ?_⟩
        cases rest with
        | nil =>
          cases got
          simp [entryVisits, here]
        | cons next rest =>
          cases node with
          | dir inner =>
            have entered : enter name = true := above name (by simp)
            simp only [entryVisits, entered, if_true, List.mem_cons, reduceCtorEq, false_or]
            have innerDistinct := Entries.distinct_lookup distinct shown
            refine (ih name _ shown innerDistinct).mpr ⟨next :: rest, by simp, by simp [here], got, ?_⟩
            intro other member
            exact above other (by simp [member])
          | _ => cases got
  | _ =>
    simp only [Node.visits, List.not_mem_nil, false_iff]
    intro ⟨below, nonempty, _, got, _⟩
    cases below with
    | nil => exact nonempty rfl
    | cons name rest => cases got

/-- Every visit is below where the walk starts. -/
theorem Node.visits_path {node : Node ν φ} (distinct : node.distinct = true) {base : List ν}
    {visit : Visit ν φ} (met : visit ∈ node.visits before enter base) :
    ∃ name below, visit.path = base ++ name :: below := by
  induction node using Node.induct generalizing base with
  | dir entries ih =>
    obtain ⟨name, node, shown, member⟩ := (Node.mem_visits_dir distinct).mp met
    cases node with
    | file payload =>
      simp only [entryVisits, List.mem_singleton] at member
      subst member
      exact ⟨name, [], rfl⟩
    | dir inner =>
      simp only [entryVisits] at member
      split at member
      · rcases List.mem_cons.mp member with rfl | member
        · exact ⟨name, [], rfl⟩
        · obtain ⟨next, below, path⟩ := ih name _ shown (Entries.distinct_lookup distinct shown) member
          exact ⟨name, next :: below, by simp [path]⟩
      · cases member
    | _ => cases member
  | _ => cases met

/-- What one entry gives lies at its name or below it. -/
theorem entryVisits_path {name : ν} {node : Node ν φ} (distinct : node.distinct = true)
    {base : List ν} {visit : Visit ν φ}
    (met : visit ∈ entryVisits enter name (base ++ [name]) node
      (node.visits before enter (base ++ [name]))) :
    ∃ below, visit.path = base ++ name :: below := by
  cases node with
  | file payload =>
    simp only [entryVisits, List.mem_singleton] at met
    subst met
    exact ⟨[], rfl⟩
  | dir inner =>
    simp only [entryVisits] at met
    split at met
    · rcases List.mem_cons.mp met with rfl | met
      · exact ⟨[], rfl⟩
      · obtain ⟨next, below, path⟩ := Node.visits_path distinct met
        exact ⟨next :: below, by simp [path]⟩
    · cases met
  | _ => cases met

/-- A walk meets a path once. -/
theorem Node.visits_nodup {node : Node ν φ} (distinct : node.distinct = true) (base : List ν) :
    ((node.visits before enter base).map Visit.path).Nodup := by
  induction node using Node.rec (motive_2 := fun entries => entries.distinct = true → ∀ base,
      (((entries.visits before enter base).flatMap Prod.snd).map Visit.path).Nodup)
      generalizing base with
  | dir entries ih =>
    have once := ih distinct base
    have sorted := List.perm_insertionSort (fun a b => before a.1 b.1)
      (entries.visits before enter base)
    exact ((sorted.flatMap_right Prod.snd).map Visit.path).nodup_iff.mpr once
  | nil => exact List.nodup_nil
  | cons name node rest own ih =>
    rename_i whole base
    simp only [Entries.distinct, Bool.and_eq_true, decide_eq_true_eq] at whole
    obtain ⟨⟨unlisted, nodeDistinct⟩, restDistinct⟩ := whole
    simp only [Entries.visits, List.flatMap_cons, List.map_append]
    refine List.Nodup.append ?_ (ih restDistinct base) ?_
    · cases node with
      | dir inner =>
        simp only [entryVisits]
        split
        · refine List.nodup_cons.mpr ⟨?_, own nodeDistinct _⟩
          intro again
          obtain ⟨visit, met, path⟩ := List.mem_map.mp again
          obtain ⟨next, below, deeper⟩ := Node.visits_path nodeDistinct met
          rw [deeper] at path
          simp [Visit.path] at path
        · exact List.nodup_nil
      | file payload => exact List.nodup_singleton _
      | _ => exact List.nodup_nil
    · intro path here there
      obtain ⟨visit, met, rfl⟩ := List.mem_map.mp here
      obtain ⟨below, first⟩ := entryVisits_path nodeDistinct met
      obtain ⟨later, listed, second⟩ := List.mem_map.mp there
      obtain ⟨⟨other, visited⟩, listed, met⟩ := List.mem_flatMap.mp listed
      obtain ⟨node', shown, rfl⟩ := (Entries.mem_visits restDistinct).mp listed
      obtain ⟨below', path⟩ := entryVisits_path (Entries.distinct_lookup restDistinct shown) met
      rw [path, first, List.append_cancel_left_eq] at second
      obtain ⟨rfl, -⟩ := List.cons.inj second
      have here : other ∈ rest.names := by
        rw [← Entries.lookup_isSome_iff, shown]
        rfl
      exact unlisted here
  | _ => exact List.nodup_nil

/-- A walk over a tree in which a file has been written again. -/
def Visit.rewritten (target : List ν) (payload : φ) : Visit ν φ → Visit ν φ
  | directory path => directory path
  | file path old => file path (if path = target then payload else old)

theorem Visit.rewritten_other {target : List ν} {visit : Visit ν φ}
    (other : visit.path ≠ target) (payload : φ) : visit.rewritten target payload = visit := by
  cases visit with
  | directory path => rfl
  | file path old => simp [rewritten, show path ≠ target from other]

theorem Entries.visits_assign {entries : Entries ν φ} (distinct : entries.distinct = true)
    {name : ν} {node other : Node ν φ} (shown : entries.lookup name = some node) (base : List ν) :
    (entries.assign name (some other)).visits before enter base =
      (entries.visits before enter base).map fun entry =>
        if entry.1 = name then (name, entryVisits enter name (base ++ [name]) other
          (other.visits before enter (base ++ [name]))) else entry := by
  induction entries using Entries.rec (motive_1 := fun _ => True) with
  | nil => cases shown
  | cons found listed rest _ ih =>
    simp only [Entries.distinct, Bool.and_eq_true, decide_eq_true_eq] at distinct
    obtain ⟨⟨unlisted, -⟩, restDistinct⟩ := distinct
    simp only [Entries.lookup] at shown
    simp only [Entries.assign, Entries.visits, List.map_cons]
    by_cases same : found = name
    · subst same
      rw [if_pos rfl, if_pos rfl, Entries.visits]
      congr 1
      refine (List.map_id _).symm.trans (List.map_congr_left fun entry member => ?_)
      obtain ⟨node', listed', -⟩ := (Entries.mem_visits restDistinct).mp member
      have present : entry.1 ∈ rest.names := by
        rw [← Entries.lookup_isSome_iff, listed']
        rfl
      have other : entry.1 ≠ found := by
        intro same
        exact unlisted (same ▸ present)
      rw [if_neg other]
      rfl
    · rw [if_neg same] at shown
      rw [if_neg same, if_neg same, Entries.visits, ih restDistinct shown]
  | _ => trivial

/-- What a walk finds behind an entry is all that an assignment to it changes. -/
theorem Node.visits_assign {entries : Entries ν φ} (distinct : entries.distinct = true)
    {name : ν} {node other : Node ν φ} (shown : entries.lookup name = some node) {base rest : List ν}
    {payload : φ}
    (own : entryVisits enter name (base ++ [name]) other (other.visits before enter (base ++ [name])) =
      (entryVisits enter name (base ++ [name]) node (node.visits before enter (base ++ [name]))).map
        (Visit.rewritten (base ++ name :: rest) payload)) :
    (Node.dir (entries.assign name (some other))).visits before enter base =
      ((Node.dir entries).visits before enter base).map
        (Visit.rewritten (base ++ name :: rest) payload) := by
  have each : ∀ entry ∈ entries.visits before enter base, (if entry.1 = name then
      (name, entryVisits enter name (base ++ [name]) other
        (other.visits before enter (base ++ [name]))) else entry) =
      (entry.1, entry.2.map (Visit.rewritten (base ++ name :: rest) payload)) := by
    intro entry member
    obtain ⟨found, visited⟩ := entry
    obtain ⟨listed, there, rfl⟩ := (Entries.mem_visits distinct).mp member
    split
    · rename_i same
      change found = name at same
      subst same
      obtain rfl := Option.some.inj (shown.symm.trans there)
      rw [own]
    · rename_i different
      refine congrArg (Prod.mk found) ((List.map_id _).symm.trans (List.map_congr_left ?_))
      intro visit met
      obtain ⟨below, place⟩ := entryVisits_path (Entries.distinct_lookup distinct there) met
      refine (Visit.rewritten_other ?_ payload).symm
      change visit.path ≠ base ++ name :: rest
      rw [place]
      intro same
      exact different (List.cons.inj (List.append_cancel_left same)).1
  simp only [Node.visits, Entries.visits_assign distinct shown, List.map_congr_left each]
  have sorted := List.map_insertionSort (r := fun a b : ν × List (Visit ν φ) => before a.1 b.1)
    (s := fun a b : ν × List (Visit ν φ) => before a.1 b.1)
    (fun entry => (entry.1, entry.2.map (Visit.rewritten (base ++ name :: rest) payload)))
    (entries.visits before enter base) fun _ _ _ _ => Iff.rfl
  rw [← sorted, List.flatMap_map, List.map_flatMap]

/-- Writing a file again changes what the walk finds in it, and nothing else. -/
theorem Node.visits_alter {path : List ν} {entries after : Entries ν φ} {old payload : φ}
    (distinct : entries.distinct = true) (was : entries.get path = some (.file old))
    (success : entries.alter (fun _ => some (.file payload)) path = some after) (base : List ν) :
    (Node.dir after).visits before enter base =
      ((Node.dir entries).visits before enter base).map (Visit.rewritten (base ++ path) payload) := by
  induction path generalizing entries after base with
  | nil => cases success
  | cons name rest ih =>
    cases rest with
    | nil =>
      simp only [Entries.alter, Option.some.injEq] at success
      simp only [Entries.get, Node.get, Option.bind_eq_some_iff, Option.some.injEq] at was
      obtain ⟨node, shown, rfl⟩ := was
      subst success
      apply Node.visits_assign distinct shown
      simp [entryVisits, Visit.rewritten]
    | cons next rest =>
      simp only [Entries.alter] at success
      split at success
      · rename_i inner shown
        obtain ⟨inner', changed, rfl⟩ := Option.map_eq_some_iff.mp success
        simp only [Entries.get, Node.get, shown, Option.bind_some] at was
        have below := ih (Entries.distinct_lookup distinct shown) was changed (base ++ [name])
        apply Node.visits_assign distinct shown
        simp only [entryVisits]
        split
        · rw [List.map_cons, below]
          simp [Visit.rewritten]
        · rfl
      · cases success

end Spec

end Walaru.Lib.FileTree
