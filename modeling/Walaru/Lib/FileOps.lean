import Mathlib.Data.List.Infix
import Walaru.Lib.FileTree

/-!
# Operations on directory trees

The calls by which a program changes a tree: making directories, removing what stands
at a path, writing a file. `none` is the error that a file system reports. One lemma
for each says what the tree shows afterwards. A symbolic link is an entry of its own,
and no path leads through it.
-/
namespace Walaru.Lib.FileTree

variable {ν φ : Type} [DecidableEq ν]

namespace Entries

/-- Make the directories of a path that do not exist yet. -/
def makeDirs : List ν → Entries ν φ → Option (Entries ν φ)
  | [], entries => some entries
  | name :: rest, entries =>
    match entries.lookup name with
    | none => (makeDirs rest .nil).map fun inner => entries.assign name (some (.dir inner))
    | some (.dir inner) => (makeDirs rest inner).map fun inner' => entries.assign name (some (.dir inner'))
    | some _ => none

/-- Something other than a directory stands above the path. -/
def blocked (path : List ν) (entries : Entries ν φ) : Bool :=
  path.dropLast.inits.any fun above =>
    match entries.look above with
    | none | some .dir => false
    | some _ => true

/-- Remove what stands at a path, with all that is below it. -/
def discard (path : List ν) (entries : Entries ν φ) : Option (Entries ν φ) :=
  match entries.look path with
  | some _ => entries.alter (fun _ => none) path
  | none => if entries.blocked path then none else some entries

/-- Write a file in an existing directory. -/
def write (path : List ν) (payload : φ) (entries : Entries ν φ) : Option (Entries ν φ) :=
  match entries.look path with
  | some .dir => none
  | _ => entries.alter (fun _ => some (.file payload)) path

/-- A file or a symbolic link stands at the path. -/
def isLeaf (path : List ν) (entries : Entries ν φ) : Bool :=
  match entries.look path with
  | some (.file _) | some .symlink => true
  | _ => false

@[simp] theorem look_empty (entries : Entries ν φ) : entries.look [] = some .dir := rfl

theorem look_nil (path : List ν) :
    (Entries.nil : Entries ν φ).look path = if path = [] then some .dir else none := by
  cases path with
  | nil => rfl
  | cons name rest => simp [look, get, Node.get, lookup]

/-- Below what is not a directory there is nothing. -/
theorem look_below {entries : Entries ν φ} {path query : List ν} {kind : Kind φ}
    (shown : entries.look path = some kind) (other : kind ≠ .dir) (below : path <+: query)
    (different : query ≠ path) : entries.look query = none := by
  obtain ⟨rest, rfl⟩ := below
  cases rest with
  | nil => simp at different
  | cons name rest =>
    by_contra something
    obtain ⟨found, here⟩ := Option.ne_none_iff_exists'.mp something
    obtain ⟨node, got, -⟩ := Option.map_eq_some_iff.mp here
    obtain ⟨inner, above⟩ := Node.get_dir_of_get got
    rw [look, get, above] at shown
    exact other (Option.some.inj shown).symm

/-- Above what exists there are directories. -/
theorem look_above {entries : Entries ν φ} {path query : List ν} {kind : Kind φ}
    (shown : entries.look query = some kind) (below : path <+: query) (different : path ≠ query) :
    entries.look path = some .dir := by
  obtain ⟨rest, rfl⟩ := below
  cases rest with
  | nil => simp at different
  | cons name rest =>
    obtain ⟨node, got, -⟩ := Option.map_eq_some_iff.mp shown
    obtain ⟨inner, above⟩ := Node.get_dir_of_get got
    rw [look, get, above]
    rfl

/-- What does not exist has nothing below it. -/
theorem look_below_none {entries : Entries ν φ} {path query : List ν}
    (absent : entries.look path = none) (below : path <+: query) : entries.look query = none := by
  obtain ⟨rest, rfl⟩ := below
  have missing : (Node.dir entries).get path = none := Option.map_eq_none_iff.mp absent
  rw [look, get, Node.get_append, missing]
  rfl

omit [DecidableEq ν] in
/-- Strictly above a path is above its parent. -/
theorem prefix_dropLast_iff {path query : List ν} (different : query ≠ path) :
    query <+: path.dropLast ↔ query <+: path := by
  constructor
  · exact fun above => above.trans (List.dropLast_prefix path)
  · rintro ⟨rest, rfl⟩
    rcases List.eq_nil_or_concat rest with rfl | ⟨rest, name, rfl⟩
    · simp at different
    · rw [List.concat_eq_append, ← List.append_assoc, List.dropLast_concat]
      exact List.prefix_append _ _

/-- Something other than a directory stands at the path. -/
def Solid (entries : Entries ν φ) (path : List ν) : Prop :=
  ∃ kind, entries.look path = some kind ∧ kind ≠ .dir

theorem not_solid_iff {entries : Entries ν φ} {path : List ν} :
    ¬ entries.Solid path ↔ entries.look path = none ∨ entries.look path = some .dir := by
  unfold Solid
  cases entries.look path with
  | none => simp
  | some kind => simp

theorem isLeaf_solid {entries : Entries ν φ} {path : List ν} (leaf : entries.isLeaf path = true) :
    entries.Solid path := by
  unfold isLeaf at leaf
  split at leaf
  · exact ⟨_, by assumption, by simp⟩
  · exact ⟨_, by assumption, by simp⟩
  · cases leaf

theorem not_solid_nil (path : List ν) : ¬ (Entries.nil : Entries ν φ).Solid path := by
  rw [not_solid_iff, look_nil]
  by_cases empty : path = []
  · exact .inr (if_pos empty)
  · exact .inl (if_neg empty)

/-- Directories can be made where nothing else stands in the way. -/
theorem makeDirs_isSome {path : List ν} {entries : Entries ν φ} :
    (entries.makeDirs path).isSome = true ↔ ∀ query, query <+: path → ¬ entries.Solid query := by
  induction path generalizing entries with
  | nil => simp [makeDirs, Solid]
  | cons name rest ih =>
    have deeper : ∀ query, (name :: query) <+: (name :: rest) ↔ query <+: rest := by
      intro query
      simp [List.cons_prefix_cons]
    have cases_ : (∀ query, query <+: name :: rest → ¬ entries.Solid query) ↔
        ∀ query, query <+: rest → ¬ entries.Solid (name :: query) := by
      constructor
      · exact fun all query above => all _ ((deeper query).mpr above)
      · intro all query above
        cases query with
        | nil => simp [Solid]
        | cons first query =>
          obtain ⟨rfl, inside⟩ := List.cons_prefix_cons.mp above
          exact all query inside
    rw [cases_]
    cases shown : entries.lookup name with
    | none =>
      have absent : ∀ query, ¬ entries.Solid (name :: query) := by
        intro query
        simp [Solid, look, get, Node.get, shown]
      simp [makeDirs, shown, absent, ih, not_solid_nil]
    | some node =>
      cases node with
      | dir inner =>
        have below : ∀ query, entries.Solid (name :: query) ↔ inner.Solid query := by
          intro query
          simp [Solid, look, get, Node.get, shown]
        simp [makeDirs, shown, below, ih]
      | _ =>
        simp only [makeDirs, shown, Option.isSome_none, Bool.false_eq_true, false_iff, not_forall]
        refine ⟨[], List.nil_prefix, ?_⟩
        simp [Solid, look, get, Node.get, Node.kind, shown]

/-- An entry can be changed below a directory that exists. -/
theorem alter_isSome {change : Option (Node ν φ) → Option (Node ν φ)} {path : List ν}
    {entries : Entries ν φ} (occupied : path ≠ []) (parent : entries.look path.dropLast = some .dir) :
    (entries.alter change path).isSome = true := by
  induction path generalizing entries with
  | nil => exact absurd rfl occupied
  | cons name rest ih =>
    cases rest with
    | nil => rfl
    | cons next rest =>
      simp only [look, get, List.dropLast_cons_cons, Node.get] at parent
      cases shown : entries.lookup name with
      | none => simp [shown] at parent
      | some node =>
        simp only [shown, Option.bind_some] at parent
        cases node with
        | dir inner =>
          have deeper : (inner.alter change (next :: rest)).isSome = true := ih (by simp) parent
          simpa [alter, shown] using deeper
        | _ => cases rest <;> simp [Node.get, Node.kind] at parent

theorem distinct_makeDirs {path : List ν} {entries after : Entries ν φ}
    (distinct : entries.distinct = true) (success : entries.makeDirs path = some after) :
    after.distinct = true := by
  induction path generalizing entries after with
  | nil =>
    cases success
    exact distinct
  | cons name rest ih =>
    simp only [makeDirs] at success
    split at success
    · obtain ⟨inner, made, rfl⟩ := Option.map_eq_some_iff.mp success
      refine distinct_assign distinct fun node here => ?_
      cases here
      exact ih rfl made
    · rename_i below shown
      obtain ⟨inner, made, rfl⟩ := Option.map_eq_some_iff.mp success
      refine distinct_assign distinct fun node here => ?_
      cases here
      exact ih (distinct_lookup distinct shown) made
    · cases success

theorem look_assign_dir {entries inner : Entries ν φ} (distinct : entries.distinct = true)
    (name first : ν) (query : List ν) :
    (entries.assign name (some (.dir inner))).look (first :: query) =
      if name = first then inner.look query else entries.look (first :: query) := by
  simp only [look, get, Node.get, lookup_assign distinct]
  by_cases same : name = first
  · simp [same]
  · simp [same, Ne.symm same]

/-- The path and everything above it are directories afterwards; nothing else changed. -/
theorem look_makeDirs {path : List ν} {entries after : Entries ν φ}
    (distinct : entries.distinct = true) (success : entries.makeDirs path = some after)
    (query : List ν) :
    after.look query = if query <+: path then some .dir else entries.look query := by
  induction path generalizing entries after query with
  | nil =>
    cases success
    by_cases empty : query = []
    · simp [empty]
    · simp [empty]
  | cons name rest ih =>
    cases query with
    | nil => simp
    | cons first query =>
      simp only [makeDirs] at success
      split at success
      · rename_i absent
        obtain ⟨inner, made, rfl⟩ := Option.map_eq_some_iff.mp success
        rw [look_assign_dir distinct]
        by_cases same : name = first
        · subst same
          have missing : entries.look (name :: query) = none := by
            simp [look, get, Node.get, absent]
          rw [if_pos rfl, ih rfl made, look_nil, missing]
          simp only [List.cons_prefix_cons, true_and]
          by_cases inside : query <+: rest
          · simp [inside]
          · have occupied : query ≠ [] := by
              rintro rfl
              exact inside List.nil_prefix
            simp [inside, occupied]
        · simp [same, Ne.symm same, List.cons_prefix_cons]
      · rename_i below shown
        obtain ⟨inner, made, rfl⟩ := Option.map_eq_some_iff.mp success
        rw [look_assign_dir distinct]
        by_cases same : name = first
        · subst same
          have before : entries.look (name :: query) = below.look query := by
            simp [look, get, Node.get, shown]
          rw [if_pos rfl, ih (distinct_lookup distinct shown) made, before]
          simp [List.cons_prefix_cons]
        · simp [same, Ne.symm same, List.cons_prefix_cons]
      · cases success

theorem distinct_discard {path : List ν} {entries after : Entries ν φ}
    (distinct : entries.distinct = true) (success : entries.discard path = some after) :
    after.distinct = true := by
  unfold discard at success
  split at success
  · exact distinct_alter (fun _ _ node here => absurd here (by simp)) distinct success
  · split at success
    · cases success
    · cases success
      exact distinct

theorem look_discard {path : List ν} {entries after : Entries ν φ}
    (distinct : entries.distinct = true) (success : entries.discard path = some after)
    (query : List ν) : after.look query = if path <+: query then none else entries.look query := by
  unfold discard at success
  split at success
  · rw [look_alter distinct success]
    rfl
  · rename_i absent
    split at success
    · cases success
    · cases success
      by_cases below : path <+: query
      · rw [if_pos below, look_below_none absent below]
      · rw [if_neg below]

theorem distinct_write {path : List ν} {payload : φ} {entries after : Entries ν φ}
    (distinct : entries.distinct = true) (success : entries.write path payload = some after) :
    after.distinct = true := by
  unfold write at success
  split at success
  · cases success
  · refine distinct_alter (fun _ _ node here => ?_) distinct success
    cases here
    rfl

theorem look_write {path : List ν} {payload : φ} {entries after : Entries ν φ}
    (distinct : entries.distinct = true) (success : entries.write path payload = some after)
    (query : List ν) :
    after.look query =
      if query = path then some (.file payload)
      else if path <+: query then none else entries.look query := by
  unfold write at success
  split at success
  · cases success
  · rw [look_alter distinct success]
    by_cases same : query = path
    · subst same
      simp [Node.kind]
    · rw [if_neg same]
      by_cases below : path <+: query
      · obtain ⟨rest, rfl⟩ := below
        cases rest with
        | nil => simp at same
        | cons name rest => simp [Node.get]
      · rw [if_neg below, if_neg below]

end Entries

/-- The three calls that put a file where anything may have stood. -/
def Entries.place (path : List ν) (payload : φ) (entries : Entries ν φ) : Option (Entries ν φ) :=
  ((entries.makeDirs path.dropLast).bind (Entries.discard path)).bind (Entries.write path payload)

namespace Entries

variable {path : List ν} {payload : φ} {entries after : Entries ν φ}

theorem distinct_place (distinct : entries.distinct = true)
    (success : entries.place path payload = some after) : after.distinct = true := by
  obtain ⟨cleared, first, written⟩ := Option.bind_eq_some_iff.mp success
  obtain ⟨made, dirs, gone⟩ := Option.bind_eq_some_iff.mp first
  exact distinct_write (distinct_discard (distinct_makeDirs distinct dirs) gone) written

/-- The file stands at the path, below directories; nothing is left below it. -/
theorem look_place (distinct : entries.distinct = true)
    (success : entries.place path payload = some after) (query : List ν) :
    after.look query =
      if query = path then some (.file payload)
      else if path <+: query then none
      else if query <+: path then some .dir else entries.look query := by
  obtain ⟨cleared, first, written⟩ := Option.bind_eq_some_iff.mp success
  obtain ⟨made, dirs, gone⟩ := Option.bind_eq_some_iff.mp first
  have distinctMade := distinct_makeDirs distinct dirs
  rw [look_write (distinct_discard distinctMade gone) written, look_discard distinctMade gone,
    look_makeDirs distinct dirs]
  by_cases same : query = path
  · rw [if_pos same, if_pos same]
  · rw [if_neg same, if_neg same]
    by_cases below : path <+: query
    · rw [if_pos below, if_pos below]
    · rw [if_neg below, if_neg below, if_neg below]
      simp only [prefix_dropLast_iff same]

/-- Removing a file or a link takes away that entry alone. -/
theorem look_discard_leaf (distinct : entries.distinct = true) (leaf : entries.isLeaf path = true)
    (success : entries.discard path = some after) (query : List ν) :
    after.look query = if query = path then none else entries.look query := by
  rw [look_discard distinct success]
  by_cases same : query = path
  · simp [same]
  · by_cases below : path <+: query
    · have absent : entries.look query = none := by
        unfold isLeaf at leaf
        split at leaf
        · rename_i shown
          exact look_below shown (by simp) below same
        · rename_i shown
          exact look_below shown (by simp) below same
        · cases leaf
      simp [same, absent]
    · simp [same, below]

theorem solid_makeDirs (distinct : entries.distinct = true)
    (success : entries.makeDirs path = some after) (query : List ν) :
    after.Solid query ↔ entries.Solid query := by
  have clear := makeDirs_isSome.mp (Option.isSome_of_mem success)
  unfold Solid
  rw [look_makeDirs distinct success]
  by_cases inside : query <+: path
  · have open_ := clear query inside
    unfold Solid at open_
    simp [inside, open_]
  · simp [inside]

/-- A file can be placed below what is no file itself. -/
theorem place_isSome (distinct : entries.distinct = true) :
    (entries.place path payload).isSome = true ↔
      path ≠ [] ∧ ∀ query, query <+: path → query ≠ path → ¬ entries.Solid query := by
  constructor
  · intro success
    obtain ⟨after, placed⟩ := Option.isSome_iff_exists.mp success
    obtain ⟨cleared, first, written⟩ := Option.bind_eq_some_iff.mp placed
    obtain ⟨made, dirs, gone⟩ := Option.bind_eq_some_iff.mp first
    constructor
    · rintro rfl
      simp [discard, alter] at gone
    · intro query above different
      apply makeDirs_isSome.mp (Option.isSome_of_mem dirs)
      exact (prefix_dropLast_iff different).mpr above
  · rintro ⟨occupied, clear⟩
    have unequal : ∀ {query : List ν}, query <+: path.dropLast → query ≠ path := by
      rintro query above rfl
      have shorter := above.length_le
      have some_ := List.length_pos_iff.mpr occupied
      rw [List.length_dropLast] at shorter
      omega
    have dirs : (entries.makeDirs path.dropLast).isSome = true := by
      refine makeDirs_isSome.mpr fun query above => ?_
      exact clear query (above.trans (List.dropLast_prefix path)) (unequal above)
    obtain ⟨made, dirs⟩ := Option.isSome_iff_exists.mp dirs
    have parent : made.look path.dropLast = some .dir := by
      rw [look_makeDirs distinct dirs, if_pos (List.prefix_refl _)]
    have gone : (made.discard path).isSome = true := by
      unfold discard
      split
      · exact alter_isSome occupied parent
      · have free : made.blocked path = false := by
          rw [blocked, List.any_eq_false]
          intro query listed
          rw [look_makeDirs distinct dirs, if_pos ((List.mem_inits _ _).mp listed)]
          simp
        simp [free]
    obtain ⟨cleared, gone⟩ := Option.isSome_iff_exists.mp gone
    have distinctMade := distinct_makeDirs distinct dirs
    have absent : cleared.look path = none := by
      rw [look_discard distinctMade gone, if_pos (List.prefix_refl _)]
    have still : cleared.look path.dropLast = some .dir := by
      rw [look_discard distinctMade gone, if_neg ?_, parent]
      intro below
      exact unequal (List.prefix_refl _) (below.eq_of_length_le (List.dropLast_prefix path).length_le).symm
    have written : (cleared.write path payload).isSome = true := by
      unfold write
      rw [absent]
      exact alter_isSome occupied still
    rw [place, dirs, Option.bind_some, gone, Option.bind_some]
    exact written

/-- Afterwards a file stands at the path, and none below it. -/
theorem solid_place (distinct : entries.distinct = true)
    (success : entries.place path payload = some after) (query : List ν) :
    after.Solid query ↔ query = path ∨ ¬ path <+: query ∧ entries.Solid query := by
  have clear := ((place_isSome distinct).mp (Option.isSome_of_mem success)).2
  unfold Solid
  rw [look_place distinct success]
  by_cases same : query = path
  · simp [same]
  · by_cases below : path <+: query
    · simp [same, below]
    · by_cases above : query <+: path
      · have open_ := clear query above same
        unfold Solid at open_
        simp [same, below, above, open_]
      · simp [same, below, above]

theorem solid_discard_leaf (distinct : entries.distinct = true) (leaf : entries.isLeaf path = true)
    (success : entries.discard path = some after) (query : List ν) :
    after.Solid query ↔ query ≠ path ∧ entries.Solid query := by
  unfold Solid
  rw [look_discard_leaf distinct leaf success]
  by_cases same : query = path
  · simp [same]
  · simp [same]

/-- A file or a link can always be removed. -/
theorem discard_isSome (leaf : entries.isLeaf path = true) : (entries.discard path).isSome = true := by
  obtain ⟨kind, shown, other⟩ := isLeaf_solid leaf
  have occupied : path ≠ [] := by
    rintro rfl
    rw [look_empty] at shown
    exact other (Option.some.inj shown).symm
  have parent : entries.look path.dropLast = some .dir := by
    apply look_above shown (List.dropLast_prefix path)
    intro same
    have shorter := congrArg List.length same
    have some_ := List.length_pos_iff.mpr occupied
    rw [List.length_dropLast] at shorter
    omega
  unfold discard
  rw [shown]
  exact alter_isSome occupied parent

/-- A file stands at the path or above it. -/
def Covered (entries : Entries ν φ) (path : List ν) : Prop :=
  ∃ above, above <+: path ∧ entries.Solid above

/-- A tree of directories and files, whose directories list no name twice. -/
structure Plain (entries : Entries ν φ) : Prop where
  distinct : entries.distinct = true
  files : ∀ query, entries.Solid query → entries.isLeaf query = true

theorem Plain.nil : (Entries.nil : Entries ν φ).Plain where
  distinct := rfl
  files query solid := absurd solid (not_solid_nil query)

theorem isLeaf_of_look {other : Entries ν φ} {query : List ν}
    (same : other.look query = entries.look query) : other.isLeaf query = entries.isLeaf query := by
  rw [isLeaf, isLeaf, same]

theorem Plain.makeDirs (plain : entries.Plain) (success : entries.makeDirs path = some after) :
    after.Plain where
  distinct := distinct_makeDirs plain.distinct success
  files query solid := by
    have before := (solid_makeDirs plain.distinct success query).mp solid
    have clear := makeDirs_isSome.mp (Option.isSome_of_mem success)
    have outside : ¬ query <+: path := fun inside => clear query inside before
    have shown : after.look query = entries.look query := by
      rw [look_makeDirs plain.distinct success, if_neg outside]
    rw [isLeaf_of_look shown, plain.files query before]

theorem Plain.place (plain : entries.Plain) (success : entries.place path payload = some after) :
    after.Plain where
  distinct := distinct_place plain.distinct success
  files query solid := by
    have shown := look_place plain.distinct success query
    rcases (solid_place plain.distinct success query).mp solid with rfl | ⟨outside, before⟩
    · rw [if_pos rfl] at shown
      rw [isLeaf, shown]
    · have clear := ((place_isSome plain.distinct).mp (Option.isSome_of_mem success)).2
      have different : query ≠ path := by
        rintro rfl
        exact outside (List.prefix_refl _)
      have apart : ¬ query <+: path := fun above => clear query above different before
      rw [if_neg different, if_neg outside, if_neg apart] at shown
      rw [isLeaf_of_look shown, plain.files query before]

theorem Plain.discard (plain : entries.Plain) (leaf : entries.isLeaf path = true)
    (success : entries.discard path = some after) : after.Plain where
  distinct := distinct_discard plain.distinct success
  files query solid := by
    obtain ⟨different, before⟩ := (solid_discard_leaf plain.distinct leaf success query).mp solid
    have shown := look_discard_leaf plain.distinct leaf success query
    rw [if_neg different] at shown
    rw [isLeaf_of_look shown, plain.files query before]

/-- A file came to stand at the path, and everything that was below it is gone. -/
structure Placed (path : List ν) (before after : Entries ν φ) : Prop where
  plain : after.Plain
  solid : ∀ query, after.Solid query ↔ query = path ∨ ¬ path <+: query ∧ before.Solid query

theorem Plain.placed (plain : entries.Plain) (success : entries.place path payload = some after) :
    Placed path entries after where
  plain := plain.place success
  solid := solid_place plain.distinct success

/-- A file that already stands at the path may stay. -/
theorem Plain.placed_self (plain : entries.Plain) (solid : entries.Solid path) :
    Placed path entries entries where
  plain := plain
  solid query := by
    constructor
    · intro here
      by_cases same : query = path
      · exact .inl same
      · refine .inr ⟨fun below => ?_, here⟩
        obtain ⟨kind, shown, other⟩ := solid
        obtain ⟨found, inside, -⟩ := here
        rw [look_below shown other below same] at inside
        cases inside
    · rintro (rfl | ⟨-, here⟩)
      · exact solid
      · exact here

theorem Placed.here (placed : Placed path entries after) : after.Solid path :=
  (placed.solid path).mpr (.inl rfl)

/-- What was below a file still is. -/
theorem Placed.covered (placed : Placed path entries after) {query : List ν}
    (covered : entries.Covered query) : after.Covered query := by
  obtain ⟨above, inside, solid⟩ := covered
  by_cases below : path <+: above
  · exact ⟨path, below.trans inside, placed.here⟩
  · exact ⟨above, inside, (placed.solid above).mpr (.inr ⟨below, solid⟩)⟩

end Entries

end Walaru.Lib.FileTree
