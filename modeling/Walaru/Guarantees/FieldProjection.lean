import Walaru.Source.Daemon.Responses

/-!
# The projection of an answer

`project_fields` keeps of an answer what lies on the way to a selected path and below it.
Places of a JSON value are read member by member and item by item; the names on the way
are the key path, which the selected paths are compared with.
-/
namespace Walaru

inductive JsonStep where
  | member (name : String)
  | item (index : Nat)
  deriving DecidableEq, Repr

/-- The value at a place. -/
def Json.valueAt : List JsonStep → Json → Option Json
  | [], value => some value
  | .member name :: rest, .object fields => (fields.lookup name).bind (Json.valueAt rest)
  | .item index :: rest, .array items => items[index]?.bind (Json.valueAt rest)
  | _ :: _, _ => none

/-- The member names on the way to a place. -/
def keyPath : List JsonStep → List String
  | [] => []
  | .member name :: rest => name :: keyPath rest
  | .item _ :: rest => keyPath rest

/-- A node with some of the members of another, or else the same node. -/
def SameNode : Json → Json → Prop
  | .object kept, .object fields => (kept.map Prod.fst).Sublist (fields.map Prod.fst)
  | .array kept, .array items => kept.length = items.length
  | kept, whole => kept = whole

theorem SameNode.refl (value : Json) : SameNode value value := by
  cases value with
  | object fields => exact List.Sublist.refl _
  | array items => exact rfl
  | null => exact rfl
  | bool value => exact rfl
  | number value => exact rfl
  | string value => exact rfl

theorem mem_tailsBelow {name : String} {tail : List String} {paths : List (List String)} :
    tail ∈ tailsBelow name paths ↔ name :: tail ∈ paths := by
  rw [tailsBelow, List.mem_filterMap]
  constructor
  · rintro ⟨path, member, found⟩
    cases path with
    | nil => cases found
    | cons head rest =>
      dsimp only at found
      by_cases same : head = name
      · rw [if_pos same] at found
        obtain rfl := Option.some.inj found
        exact same ▸ member
      · rw [if_neg same] at found
        cases found
  · intro member
    exact ⟨name :: tail, member, if_pos rfl⟩

/-- What is kept of a member whose name begins these paths. -/
def projectBelow (tails : List (List String)) (value : Json) : Json :=
  if tails.any List.isEmpty then value else projectFields tails value

theorem projectMembers_cons (paths : List (List String)) (name : String) (value : Json)
    (rest : List (String × Json)) :
    projectMembers paths ((name, value) :: rest) =
      if (tailsBelow name paths).isEmpty then projectMembers paths rest
      else (name, projectBelow (tailsBelow name paths) value) :: projectMembers paths rest := by
  rw [projectMembers]
  rfl

theorem projectItems_eq (paths : List (List String)) (items : List Json) :
    projectItems paths items = items.map (projectFields paths) := by
  induction items with
  | nil => rfl
  | cons item rest ih => rw [projectItems, ih, List.map_cons]

theorem projectMembers_names (paths : List (List String)) (fields : List (String × Json)) :
    ((projectMembers paths fields).map Prod.fst).Sublist (fields.map Prod.fst) := by
  induction fields with
  | nil => exact .slnil
  | cons field rest ih =>
    rw [projectMembers_cons, List.map_cons]
    split
    · exact ih.cons _
    · exact ih.cons_cons _

theorem projectMembers_lookup (paths : List (List String)) (name : String)
    (fields : List (String × Json)) :
    (projectMembers paths fields).lookup name =
      if (tailsBelow name paths).isEmpty then none
      else (fields.lookup name).map (projectBelow (tailsBelow name paths)) := by
  induction fields with
  | nil => simp [projectMembers]
  | cons field rest ih =>
    obtain ⟨other, value⟩ := field
    rw [projectMembers_cons]
    by_cases same : name = other
    · subst same
      split
      · rename_i none_
        rw [ih, if_pos none_]
      · simp
    · have differ : (name == other) = false := by simpa using same
      have skipped : ∀ value, ((other, value) :: projectMembers paths rest).lookup name =
          (projectMembers paths rest).lookup name := fun value => by
        rw [List.lookup_cons, differ]
      rw [List.lookup_cons, differ]
      split
      · exact ih
      · rw [skipped]
        exact ih

/-- The places of what is kept of an object. -/
theorem valueAt_member (paths : List (List String)) (name : String) (rest : List JsonStep)
    (fields : List (String × Json)) :
    (projectFields paths (.object fields)).valueAt (.member name :: rest) =
      if (tailsBelow name paths).isEmpty then none
      else (fields.lookup name).bind fun value =>
        (projectBelow (tailsBelow name paths) value).valueAt rest := by
  rw [projectFields, Json.valueAt, projectMembers_lookup]
  split
  · rfl
  · rw [Option.bind_map]
    rfl

theorem valueAt_item (paths : List (List String)) (index : Nat) (rest : List JsonStep)
    (items : List Json) :
    (projectFields paths (.array items)).valueAt (.item index :: rest) =
      items[index]?.bind fun value => (projectFields paths value).valueAt rest := by
  rw [projectFields, Json.valueAt, projectItems_eq, List.getElem?_map, Option.bind_map]
  rfl

mutual
theorem projectFields_idem (paths : List (List String)) :
    ∀ value, projectFields paths (projectFields paths value) = projectFields paths value
  | .object fields => by
    rw [projectFields, projectFields, projectMembers_idem paths fields]
  | .array items => by
    rw [projectFields, projectFields, projectItems_idem paths items]
  | .null => rfl
  | .bool _ => rfl
  | .number _ => rfl
  | .string _ => rfl

theorem projectMembers_idem (paths : List (List String)) :
    ∀ fields, projectMembers paths (projectMembers paths fields) = projectMembers paths fields
  | [] => rfl
  | (name, value) :: rest => by
    have below : projectBelow (tailsBelow name paths) (projectBelow (tailsBelow name paths) value) =
        projectBelow (tailsBelow name paths) value := by
      simp only [projectBelow]
      split
      · rfl
      · exact projectFields_idem _ value
    rw [projectMembers_cons]
    split
    · exact projectMembers_idem paths rest
    · rename_i some_
      rw [projectMembers_cons, if_neg some_, below, projectMembers_idem paths rest]

theorem projectItems_idem (paths : List (List String)) :
    ∀ items, projectItems paths (projectItems paths items) = projectItems paths items
  | [] => rfl
  | item :: rest => by
    rw [projectItems, projectItems, projectFields_idem paths item, projectItems_idem paths rest]
end

theorem tailsBelow_congr {a b : List (List String)} (same : ∀ path, path ∈ a ↔ path ∈ b)
    (name : String) : ∀ tail, tail ∈ tailsBelow name a ↔ tail ∈ tailsBelow name b := by
  intro tail
  rw [mem_tailsBelow, mem_tailsBelow]
  exact same (name :: tail)

theorem isEmpty_congr {a b : List (List String)} (same : ∀ path, path ∈ a ↔ path ∈ b) :
    a.isEmpty = b.isEmpty := by
  rw [Bool.eq_iff_iff, List.isEmpty_iff, List.isEmpty_iff, List.eq_nil_iff_forall_not_mem,
    List.eq_nil_iff_forall_not_mem]
  exact forall_congr' fun path => not_congr (same path)

theorem anyEmpty_congr {a b : List (List String)} (same : ∀ path, path ∈ a ↔ path ∈ b) :
    a.any List.isEmpty = b.any List.isEmpty := by
  rw [Bool.eq_iff_iff, List.any_eq_true, List.any_eq_true]
  exact exists_congr fun path => and_congr_left fun _ => same path

mutual
theorem projectFields_congr {a b : List (List String)} (same : ∀ path, path ∈ a ↔ path ∈ b) :
    ∀ value, projectFields a value = projectFields b value
  | .object fields => by
    rw [projectFields, projectFields, projectMembers_congr same fields]
  | .array items => by
    rw [projectFields, projectFields, projectItems_congr same items]
  | .null => rfl
  | .bool _ => rfl
  | .number _ => rfl
  | .string _ => rfl

theorem projectMembers_congr {a b : List (List String)} (same : ∀ path, path ∈ a ↔ path ∈ b) :
    ∀ fields, projectMembers a fields = projectMembers b fields
  | [] => rfl
  | (name, value) :: rest => by
    have tails := tailsBelow_congr same name
    rw [projectMembers, projectMembers]
    simp only [isEmpty_congr tails, anyEmpty_congr tails, projectFields_congr tails value,
      projectMembers_congr same rest]

theorem projectItems_congr {a b : List (List String)} (same : ∀ path, path ∈ a ↔ path ∈ b) :
    ∀ items, projectItems a items = projectItems b items
  | [] => rfl
  | item :: rest => by
    rw [projectItems, projectItems, projectFields_congr same item, projectItems_congr same rest]
end

/-- What is kept stands at its place, under a name that leads to a selected path or lies
below one. -/
theorem project_kept {paths : List (List String)} {value part : Json} {place : List JsonStep}
    (kept : (projectFields paths value).valueAt place = some part) :
    ∃ whole, value.valueAt place = some whole ∧ SameNode part whole ∧
      (keyPath place ≠ [] → ∃ path ∈ paths, keyPath place <+: path ∨ path <+: keyPath place) := by
  induction place generalizing paths value with
  | nil =>
    obtain rfl := Option.some.inj kept
    refine ⟨value, rfl, ?_, fun named => absurd rfl named⟩
    cases value with
    | object fields => exact projectMembers_names paths fields
    | array items =>
      rw [projectFields, projectItems_eq]
      exact List.length_map _
    | null => exact rfl
    | bool value => exact rfl
    | number value => exact rfl
    | string value => exact rfl
  | cons step rest ih =>
    cases step with
    | item index =>
      cases value with
      | array items =>
        rw [valueAt_item, Option.bind_eq_some_iff] at kept
        obtain ⟨item, found, kept⟩ := kept
        obtain ⟨whole, inside, node, selected⟩ := ih kept
        refine ⟨whole, ?_, node, selected⟩
        rw [Json.valueAt, found]
        exact inside
      | _ => cases kept
    | member name =>
      cases value with
      | object fields =>
        rw [valueAt_member] at kept
        split at kept
        · cases kept
        · rename_i some_
          obtain ⟨tail, begins⟩ := List.exists_mem_of_ne_nil _
            (fun none_ => some_ (List.isEmpty_iff.mpr none_))
          obtain ⟨field, found, kept⟩ := Option.bind_eq_some_iff.mp kept
          have reached : ∀ {whole}, field.valueAt rest = some whole →
              (Json.object fields).valueAt (.member name :: rest) = some whole := by
            intro whole inside
            rw [Json.valueAt, found]
            exact inside
          rw [projectBelow] at kept
          split at kept
          · rename_i ends
            obtain ⟨last, member, nothing⟩ := List.any_eq_true.mp ends
            rw [List.isEmpty_iff.mp nothing, mem_tailsBelow] at member
            exact ⟨part, reached kept, .refl part, fun _ =>
              ⟨[name], member, .inr ((List.prefix_append_right_inj [name]).mpr List.nil_prefix)⟩⟩
          · obtain ⟨whole, inside, node, selected⟩ := ih kept
            refine ⟨whole, reached inside, node, fun _ => ?_⟩
            by_cases named : keyPath rest = []
            · refine ⟨name :: tail, mem_tailsBelow.mp begins, .inl ?_⟩
              rw [keyPath, named]
              exact (List.prefix_append_right_inj [name]).mpr List.nil_prefix
            · obtain ⟨path, member, close⟩ := selected named
              refine ⟨name :: path, mem_tailsBelow.mp member, ?_⟩
              rw [keyPath, List.cons_prefix_cons, List.cons_prefix_cons]
              exact close.imp (fun p => ⟨rfl, p⟩) (fun p => ⟨rfl, p⟩)
      | _ => cases kept

/-- Below a selected path nothing is missing. -/
theorem project_full {paths : List (List String)} {path : List String} {place : List JsonStep}
    (selected : path ∈ paths) (named : path ≠ []) (below : path <+: keyPath place)
    (value : Json) : (projectFields paths value).valueAt place = value.valueAt place := by
  induction place generalizing paths path value with
  | nil => exact absurd (List.prefix_nil.mp below) named
  | cons step rest ih =>
    cases step with
    | item index =>
      cases value with
      | array items =>
        rw [valueAt_item, Json.valueAt]
        exact congrArg _ (funext fun item => ih selected named below item)
      | _ => rfl
    | member name =>
      obtain ⟨head, tail, rfl⟩ := List.exists_cons_of_ne_nil named
      rw [keyPath, List.cons_prefix_cons] at below
      obtain ⟨rfl, below⟩ := below
      have member := mem_tailsBelow.mpr selected
      cases value with
      | object fields =>
        rw [valueAt_member, if_neg (by simpa using List.ne_nil_of_mem member), Json.valueAt]
        refine congrArg _ (funext fun field => ?_)
        rw [projectBelow]
        split
        · rfl
        · rename_i open_
          refine ih member (fun ends => open_ ?_) below field
          rw [List.any_eq_true]
          exact ⟨tail, member, List.isEmpty_iff.mpr ends⟩
      | _ => rfl

/-- The projection on a list of paths. -/
theorem projection_laws (paths : List (List String)) (value : Json) :
    projectFields paths (projectFields paths value) = projectFields paths value ∧
    (∀ others : List (List String), (∀ path, path ∈ others ↔ path ∈ paths) →
      projectFields others value = projectFields paths value) ∧
    (∀ place part, (projectFields paths value).valueAt place = some part →
      ∃ whole, value.valueAt place = some whole ∧ SameNode part whole ∧
        (keyPath place ≠ [] →
          ∃ path ∈ paths, keyPath place <+: path ∨ path <+: keyPath place)) ∧
    (∀ place, ∀ path ∈ paths, path ≠ [] → path <+: keyPath place →
      (projectFields paths value).valueAt place = value.valueAt place) ∧
    ∀ items, projectFields paths (.array items) = .array (items.map (projectFields paths)) := by
  refine ⟨projectFields_idem paths value, fun others same => projectFields_congr same value,
    fun place part => project_kept, fun place path selected named below =>
      project_full selected named below value, fun items => ?_⟩
  rw [projectFields, projectItems_eq]

end Walaru
