import Mathlib.Data.List.Nodup
import Walaru.Guarantees.CapturePrivacy
import Walaru.Source.Agent.CaptureLayout

/-!
# Captures and iteration order

The order in which unordered sets and maps are iterated shows in a capture exactly when one
of them holds two elements of different content that have one sort key: a key reads nulls
directly behind a number as zeros.
-/
namespace Walaru.Agent
open Lib.KeySort

mutual
/-- A captured value with the fields of every map in one order. -/
def canonical : EventValue → EventValue
  | .null => .null
  | .bool value => .bool value
  | .number value => .number value
  | .text value => .text value
  | .map fields => .map (sortByKey (fun field => scalarKey "s" field.1) (canonicalFields fields))
  | .list items => .list (canonicalItems items)
  | .other className => .other className

def canonicalFields : List (Text × EventValue) → List (Text × EventValue)
  | [] => []
  | (name, value) :: fields => (name, canonical value) :: canonicalFields fields

def canonicalItems : List EventValue → List EventValue
  | [] => []
  | item :: items => canonical item :: canonicalItems items
end

theorem canonicalFields_eq (fields : List (Text × EventValue)) :
    canonicalFields fields = fields.map fun field => (field.1, canonical field.2) := by
  induction fields with
  | nil => rfl
  | cons field fields ih => rw [canonicalFields, ih, List.map_cons]

theorem canonicalItems_eq (items : List EventValue) :
    canonicalItems items = items.map canonical := by
  induction items with
  | nil => rfl
  | cons item items ih => rw [canonicalItems, ih, List.map_cons]

section Rows
variable {α : Type} (rows : List α) (name : α → Text) (f g : α → EventValue)

/-- Maps under the same names are equal when their values are. -/
theorem canonical_rows : canonical (.map (rows.map fun row => (name row, f row))) =
    canonical (.map (rows.map fun row => (name row, g row))) ↔
      ∀ row ∈ rows, canonical (f row) = canonical (g row) := by
  have sorted : ∀ h : α → EventValue, canonical (.map (rows.map fun row => (name row, h row))) =
      .map ((sortOn textLe (fun row => scalarKey "s" (name row)) rows).map
        fun row => (name row, canonical (h row))) := by
    intro h
    rw [canonical, canonicalFields_eq, List.map_map]
    exact congrArg EventValue.map (sortOn_map textLe _ _ rows)
  rw [sorted, sorted, EventValue.map.injEq, map_sortOn_inj]
  exact forall₂_congr fun row _ => by rw [Prod.mk.injEq, eq_self, true_and]

theorem keyView_rows : keyView (.map (rows.map fun row => (name row, f row))) =
    keyView (.map (rows.map fun row => (name row, g row))) ↔
      ∀ row ∈ rows, keyView (f row) = keyView (g row) := by
  have sorted : ∀ h : α → EventValue, keyView (.map (rows.map fun row => (name row, h row))) =
      .map ((sortOn textLe (fun row => scalarKey "s" (name row)) rows).map
        fun row => (name row, keyView (h row))) := by
    intro h
    rw [keyView, fieldViews_eq, List.map_map]
    exact congrArg KeyView.map (sortOn_map textLe _ _ rows)
  rw [sorted, sorted, KeyView.map.injEq, map_sortOn_inj]
  exact forall₂_congr fun row _ => by rw [Prod.mk.injEq, eq_self, true_and]

end Rows

theorem canonical_pair {a b c d : EventValue} {first second : Text} :
    canonical (.map [(first, a), (second, b)]) = canonical (.map [(first, c), (second, d)]) ↔
      canonical a = canonical c ∧ canonical b = canonical d := by
  have rows := canonical_rows [(first, a, c), (second, b, d)] (fun row => row.1)
    (fun row => row.2.1) fun row => row.2.2
  simpa using rows

theorem keyView_pair {a b c d : EventValue} {first second : Text} :
    keyView (.map [(first, a), (second, b)]) = keyView (.map [(first, c), (second, d)]) ↔
      keyView a = keyView c ∧ keyView b = keyView d := by
  have rows := keyView_rows [(first, a, c), (second, b, d)] (fun row => row.1)
    (fun row => row.2.1) fun row => row.2.2
  simpa using rows

theorem itemViews_eq (items : List EventValue) :
    itemViews items = (items.map keyView).foldr KeyView.before [] := by
  induction items with
  | nil => rfl
  | cons item items ih => rw [itemViews, ih, List.map_cons, List.foldr_cons]

/-- A view of captured values in which a map or a list looks as what it holds does. -/
structure Congruence {β : Type} (view : EventValue → β) : Prop where
  map : ∀ {α : Type} (rows : List α) (name : α → Text) (f g : α → EventValue),
    (∀ row ∈ rows, view (f row) = view (g row)) →
    view (.map (rows.map fun row => (name row, f row))) =
      view (.map (rows.map fun row => (name row, g row)))
  list : ∀ {items others : List EventValue}, items.map view = others.map view →
    view (.list items) = view (.list others)

theorem canonical_congruence : Congruence canonical where
  map rows name f g := (canonical_rows rows name f g).mpr
  list same := by rw [canonical, canonical, canonicalItems_eq, canonicalItems_eq, same]

theorem keyView_congruence : Congruence keyView where
  map rows name f g := (keyView_rows rows name f g).mpr
  list same := by rw [keyView, keyView, itemViews_eq, itemViews_eq, same]

/-- The values whose captures a cell shows. -/
def Cell.values {kind : CellKind} : Cell kind → List JavaValue
  | .item value => [value]
  | .entry held => openEntry held

def Layout.values : Layout → List JavaValue
  | .cells _ _ _ _ held => held.flatMap Cell.values
  | .fields _ shown =>
    (shown.filter fun field => !secretName field.name && field.readable).map Field.value

section Views
variable {β : Type} {view : EventValue → β} (congruence : Congruence view)
  {f g : JavaValue → EventValue}
include congruence

theorem view_pair {a b c d : EventValue} {first second : Text} (left : view a = view c)
    (right : view b = view d) :
    view (.map [(first, a), (second, b)]) = view (.map [(first, c), (second, d)]) := by
  have rows := congruence.map [(first, a, c), (second, b, d)] (fun row => row.1)
    (fun row => row.2.1) fun row => row.2.2
  apply rows
  rw [List.forall_mem_cons, List.forall_mem_singleton]
  exact ⟨left, right⟩

theorem view_sequence (typeName : Text) (length : Nat) (name : String)
    {items others : List EventValue} (lists : view (.list items) = view (.list others)) :
    view (capturedSequence typeName length name items) =
      view (capturedSequence typeName length name others) := by
  have rows := congruence.map
    [(ascii "type", EventValue.text typeName, EventValue.text typeName),
      (ascii "length", .number (.integral .integer length), .number (.integral .integer length)),
      (ascii name, .list items, .list others),
      (ascii "truncated", .bool (maxArray < length), .bool (maxArray < length))]
    (fun row => row.1) (fun row => row.2.1) fun row => row.2.2
  apply rows
  simp only [List.forall_mem_cons]
  exact ⟨trivial, trivial, lists, trivial, nofun⟩

omit congruence in
theorem view_entry (held : JavaValue × JavaValue)
    (same : ∀ value ∈ openEntry held, view (f value) = view (g value)) :
    view (capturedEntry f held).1 = view (capturedEntry g held).1 ∧
      view (capturedEntry f held).2 = view (capturedEntry g held).2 := by
  obtain ⟨key, value⟩ := held
  unfold openEntry at same
  unfold capturedEntry
  cases key with
  | string name =>
    dsimp only at same ⊢
    split at same
    · rename_i secret
      rw [if_pos secret, if_pos secret]
      exact ⟨same _ List.mem_cons_self, rfl⟩
    · rename_i shown
      rw [if_neg shown, if_neg shown]
      exact ⟨same _ List.mem_cons_self, same _ (List.mem_cons_of_mem _ List.mem_cons_self)⟩
  | _ => exact ⟨same _ List.mem_cons_self, same _ (List.mem_cons_of_mem _ List.mem_cons_self)⟩

theorem view_shown {kind : CellKind} (cell : Cell kind)
    (same : ∀ value ∈ cell.values, view (f value) = view (g value)) :
    view (cell.shown f) = view (cell.shown g) := by
  cases cell with
  | item value => exact same value List.mem_cons_self
  | entry held =>
    obtain ⟨keys, values⟩ := view_entry held same
    exact view_pair congruence keys values

end Views

theorem sortKeys_congr {f g : JavaValue → EventValue} {kind : CellKind} (cell : Cell kind)
    (same : ∀ value ∈ cell.values, keyView (f value) = keyView (g value)) :
    cell.sortKeys f = cell.sortKeys g := by
  have key : ∀ {a b : EventValue}, keyView a = keyView b → stableSortKey a = stableSortKey b := by
    intro a b views
    rw [← keyView_key, ← keyView_key, views]
  cases cell with
  | item value => exact congrArg (·, []) (key (same value List.mem_cons_self))
  | entry held =>
    obtain ⟨keys, values⟩ := view_entry held same
    exact Prod.ext (key keys) (key values)

theorem arranged_congr {f g : JavaValue → EventValue} {kind : CellKind} (sorted : Bool)
    (held : List (Cell kind))
    (same : ∀ value ∈ held.flatMap Cell.values, keyView (f value) = keyView (g value)) :
    arranged f sorted held = arranged g sorted held := by
  unfold arranged
  split
  · refine sortOn_congr fun cell inside => sortKeys_congr cell fun value within => ?_
    exact same value (List.mem_flatMap.mpr ⟨cell, inside, within⟩)
  · rfl

/-- Two ways to capture with the same keys show the same where they capture alike. -/
theorem view_captured {β : Type} {view : EventValue → β} (congruence : Congruence view)
    {f g : JavaValue → EventValue} (layout : Layout)
    (keys : ∀ value ∈ layout.values, keyView (f value) = keyView (g value))
    (same : ∀ value ∈ layout.values, view (f value) = view (g value)) :
    view (layout.captured f) = view (layout.captured g) := by
  cases layout with
  | cells kind typeName length sorted held =>
    rw [Layout.captured, Layout.captured, arranged_congr sorted held keys]
    refine view_sequence congruence _ _ _ (congruence.list ?_)
    rw [List.map_map, List.map_map, List.map_inj_left]
    intro cell inside
    refine view_shown congruence cell fun value within => ?_
    refine same value (List.mem_flatMap.mpr ⟨cell, ?_, within⟩)
    unfold arranged at inside
    split at inside
    · exact (sortOn_perm _ _ held).subset inside
    · exact inside
  | fields className shown =>
    have each : ∀ field ∈ shown, view (capturedField f field) = view (capturedField g field) := by
      intro field inside
      unfold capturedField
      split
      · rfl
      · rename_i secret
        split
        · rename_i readable
          exact same _ (List.mem_map_of_mem (List.mem_filter.mpr ⟨inside, by simp [secret, readable]⟩))
        · rfl
    have maps := congruence.map shown Field.name (capturedField f) (capturedField g) each
    have rows := congruence.map
      [(ascii "type", EventValue.text className, EventValue.text className),
        (ascii "fields", .map (shown.map (shownField f)), .map (shown.map (shownField g))),
        (ascii "truncated", .bool (maxFields ≤ shown.length), .bool (maxFields ≤ shown.length))]
      (fun row => row.1) (fun row => row.2.1) fun row => row.2.2
    apply rows
    simp only [List.forall_mem_cons]
    exact ⟨trivial, maps, trivial, fun _ inside => absurd inside List.not_mem_nil⟩

theorem canonical_sequence_inj {typeName : Text} {length : Nat} {name : String}
    {items others : List EventValue}
    (same : canonical (capturedSequence typeName length name items) =
      canonical (capturedSequence typeName length name others)) :
    items.map canonical = others.map canonical := by
  have rows := (canonical_rows
    [(ascii "type", EventValue.text typeName, EventValue.text typeName),
      (ascii "length", .number (.integral .integer length), .number (.integral .integer length)),
      (ascii name, .list items, .list others),
      (ascii "truncated", .bool (maxArray < length), .bool (maxArray < length))]
    (fun row => row.1) (fun row => row.2.1) fun row => row.2.2).mp same
  have lists := rows (ascii name, .list items, .list others) (by simp)
  simpa only [canonical, canonicalItems_eq, EventValue.list.injEq] using lists

theorem canonical_shown_inj {f g : JavaValue → EventValue} {kind : CellKind} (cell : Cell kind)
    (same : canonical (cell.shown f) = canonical (cell.shown g)) :
    ∀ value ∈ cell.values, canonical (f value) = canonical (g value) := by
  cases cell with
  | item value => exact List.forall_mem_singleton.mpr same
  | entry held =>
    obtain ⟨keys, values⟩ := canonical_pair.mp same
    obtain ⟨key, value⟩ := held
    change ∀ shown ∈ openEntry (key, value), _
    unfold openEntry
    unfold capturedEntry at keys values
    cases key with
    | string name =>
      dsimp only at values ⊢
      split
      · exact List.forall_mem_singleton.mpr keys
      · rename_i shown
        rw [if_neg shown, if_neg shown] at values
        exact List.forall_mem_cons.mpr ⟨keys, List.forall_mem_singleton.mpr values⟩
    | _ => exact List.forall_mem_cons.mpr ⟨keys, List.forall_mem_singleton.mpr values⟩

/-- Captures with the same keys that show the same capture every shown value alike. -/
theorem canonical_captured_inj {f g : JavaValue → EventValue} (layout : Layout)
    (keys : ∀ value ∈ layout.values, keyView (f value) = keyView (g value))
    (same : canonical (layout.captured f) = canonical (layout.captured g)) :
    ∀ value ∈ layout.values, canonical (f value) = canonical (g value) := by
  cases layout with
  | cells kind typeName length sorted held =>
    rw [Layout.captured, Layout.captured, arranged_congr sorted held keys] at same
    have cells := canonical_sequence_inj same
    rw [List.map_map, List.map_map, List.map_inj_left] at cells
    intro value member
    obtain ⟨cell, inside, within⟩ := List.mem_flatMap.mp member
    refine canonical_shown_inj cell (cells cell ?_) value within
    unfold arranged
    split
    · exact (sortOn_perm _ _ held).symm.subset inside
    · exact inside
  | fields className shown =>
    have rows := (canonical_rows
      [(ascii "type", EventValue.text className, EventValue.text className),
        (ascii "fields", .map (shown.map (shownField f)), .map (shown.map (shownField g))),
        (ascii "truncated", .bool (maxFields ≤ shown.length), .bool (maxFields ≤ shown.length))]
      (fun row => row.1) (fun row => row.2.1) fun row => row.2.2).mp same
    have maps := rows (ascii "fields", .map (shown.map (shownField f)),
      .map (shown.map (shownField g))) (by simp)
    have each := (canonical_rows shown Field.name (capturedField f) (capturedField g)).mp maps
    intro value member
    obtain ⟨field, listed, rfl⟩ := List.mem_map.mp member
    obtain ⟨inside, readable⟩ := List.mem_filter.mp listed
    rw [Bool.and_eq_true, Bool.not_eq_true'] at readable
    have captured := each field inside
    unfold capturedField at captured
    simpa only [readable.1, readable.2, Bool.false_eq_true, if_false, if_true] using captured

/-- Cells are sorted by one key exactly when they have one view. -/
theorem sortKeys_eq_iff {f : JavaValue → EventValue} (plain : ∀ value, Plain (f value))
    {kind : CellKind} (a b : Cell kind) :
    a.sortKeys f = b.sortKeys f ↔ keyView (a.shown f) = keyView (b.shown f) := by
  have entry : ∀ held, Plain (capturedEntry f held).1 ∧ Plain (capturedEntry f held).2 := by
    intro held
    refine ⟨plain _, ?_⟩
    unfold capturedEntry
    dsimp only
    split
    · split
      · exact .text _
      · exact plain _
    · exact plain _
  cases a with
  | item value =>
    cases b with
    | item other =>
      rw [Cell.sortKeys, Cell.sortKeys, Prod.mk.injEq, eq_self, and_true]
      exact stableSortKey_eq_iff (plain value) (plain other)
  | entry held =>
    cases b with
    | entry other =>
      rw [Cell.sortKeys, Cell.sortKeys, Prod.mk.injEq, Cell.shown, Cell.shown, keyView_pair,
        stableSortKey_eq_iff (entry held).1 (entry other).1,
        stableSortKey_eq_iff (entry held).2 (entry other).2]

/-- The same object, with its elements in another order when its class has none. -/
inductive Reiterated (o : JavaObject) : JavaObject → Prop where
  | same : Reiterated o o
  | set {elements others : List JavaValue} (unordered : unorderedSet o.className = true)
      (shape : o.shape = .collection true elements) (order : elements.Perm others) :
      Reiterated o { o with shape := .collection true others }
  | map {entries others : List (JavaValue × JavaValue)}
      (unordered : unorderedMap o.className = true) (shape : o.shape = .map entries)
      (order : entries.Perm others) : Reiterated o { o with shape := .map others }

/-- The same objects, each unordered one iterated in some order. -/
def Reordered (heap other : Heap) : Prop := ∀ identity, Reiterated (heap identity) (other identity)

inductive Layout.Reordered : Layout → Layout → Prop where
  | same (layout : Layout) : Layout.Reordered layout layout
  | cells {kind : CellKind} {typeName : Text} {length : Nat} {held others : List (Cell kind)}
      (order : held.Perm others) :
      Layout.Reordered (.cells kind typeName length true held) (.cells kind typeName length true others)

theorem shownElements_perm {α : Type} {elements others : List α} (order : elements.Perm others) :
    (shownElements true elements).Perm (shownElements true others) := by
  unfold shownElements
  rw [order.length_eq]
  split
  · rename_i few
    have bound : others.length ≤ maxArray := by simpa using few
    rwa [List.take_of_length_le bound, List.take_of_length_le (order.length_eq ▸ bound)]
  · exact .nil

theorem Reiterated.layout {o other : JavaObject} (again : Reiterated o other) :
    o.layout.Reordered other.layout := by
  cases again with
  | same => exact .same _
  | @set elements others unordered shape order =>
    have trusted : trustedContainer { o with shape := .collection true others } =
        trustedContainer o := rfl
    unfold JavaObject.layout
    rw [shape]
    dsimp only
    rw [trusted]
    split
    · rw [unordered, ← order.length_eq]
      exact .cells ((shownElements_perm order).map _)
    · exact .same _
  | @map entries others unordered shape order =>
    have trusted : trustedContainer { o with shape := .map others } = trustedContainer o := rfl
    unfold JavaObject.layout
    rw [shape]
    dsimp only
    rw [trusted]
    split
    · rw [unordered, ← order.length_eq]
      exact .cells ((shownElements_perm order).map _)
    · exact .same _

theorem Reiterated.className {o other : JavaObject} (again : Reiterated o other) :
    other.className = o.className := by
  cases again <;> rfl

theorem Layout.Reordered.values {layout other : Layout} (again : layout.Reordered other)
    {value : JavaValue} (member : value ∈ other.values) : value ∈ layout.values := by
  cases again with
  | same => exact member
  | cells order =>
    obtain ⟨cell, inside, within⟩ := List.mem_flatMap.mp member
    exact List.mem_flatMap.mpr ⟨cell, order.symm.subset inside, within⟩

/-- Where cells under one key look alike, their order does not show. -/
theorem view_reordered {β : Type} {view : EventValue → β} (congruence : Congruence view)
    {f : JavaValue → EventValue} {layout other : Layout} (again : layout.Reordered other)
    (apart : ∀ {kind typeName length held}, layout = .cells kind typeName length true held →
      ∀ a ∈ held, ∀ b ∈ held, a.sortKeys f = b.sortKeys f → view (a.shown f) = view (b.shown f)) :
    view (layout.captured f) = view (other.captured f) := by
  cases again with
  | same => rfl
  | @cells kind typeName length held others order =>
    refine view_sequence congruence _ _ _ (congruence.list ?_)
    rw [List.map_map, List.map_map]
    exact textLe_order.pair.map_sortOn_perm order (apart rfl)

theorem Within.plain {n : Nat} {value : EventValue} (bounded : Within n value) : Plain value := by
  induction bounded with
  | null => exact .null
  | bool n value => exact .bool value
  | number n value => exact .number value
  | text n value => exact .text value
  | marked n className why =>
    refine .map ?_
    simp only [List.forall_mem_cons]
    exact ⟨.text _, .bool _, nofun⟩
  | items typeName length few each ih =>
    refine .map ?_
    simp only [List.forall_mem_cons]
    exact ⟨.text _, .number _, .list ih, .bool _, nofun⟩
  | entries typeName length few keys values ihKeys ihValues =>
    refine .map ?_
    simp only [List.forall_mem_cons]
    refine ⟨.text _, .number _, .list fun item member => ?_, .bool _, nofun⟩
    obtain ⟨entry, inside, rfl⟩ := List.mem_map.mp member
    refine .map ?_
    simp only [List.forall_mem_cons]
    exact ⟨ihKeys entry inside, ihValues entry inside, nofun⟩
  | fields className truncated few each ih =>
    refine .map ?_
    simp only [List.forall_mem_cons]
    exact ⟨.text _, .map ih, .bool _, nofun⟩

/-- A reordered heap is captured to values with the same keys. -/
theorem keyView_reordered {heap other : Heap} (again : Reordered heap other) (levels : Nat)
    (seen : List Nat) (value : JavaValue) :
    keyView (captureBelow other levels seen value) =
      keyView (captureBelow heap levels seen value) := by
  induction levels generalizing seen value with
  | zero =>
    cases value with
    | object identity => rw [captureBelow, captureBelow, (again identity).className]
    | _ => rw [captureBelow, captureBelow]
  | succ levels ih =>
    cases value with
    | object identity =>
      rw [captureBelow, captureBelow, (again identity).className]
      split
      · rfl
      · rw [capturedObject_layout, capturedObject_layout]
        have inner := view_captured keyView_congruence (other identity).layout
          (fun value _ => ih (identity :: seen) value) fun value _ => ih (identity :: seen) value
        rw [inner]
        have plain : ∀ value, Plain (captureBelow heap levels (identity :: seen) value) :=
          fun value => (within_captureBelow heap levels (identity :: seen) value).plain
        exact (view_reordered keyView_congruence (again identity).layout
          fun _ a _ b _ => (sortKeys_eq_iff plain a b).mp).symm
    | _ => rw [captureBelow, captureBelow]

/-- No two sorted cells of different content have one key. -/
def Layout.Apart (inner : JavaValue → EventValue) : Layout → Prop
  | .cells _ _ _ true held => ∀ a ∈ held, ∀ b ∈ held,
    keyView (a.shown inner) = keyView (b.shown inner) →
      canonical (a.shown inner) = canonical (b.shown inner)
  | _ => True

/-- In every unordered set and map that a capture looks into, elements of different content
have different keys. -/
def Clear (heap : Heap) : Nat → List Nat → JavaValue → Prop
  | levels + 1, seen, .object identity => identity ∉ seen →
    (heap identity).layout.Apart (captureBelow heap levels (identity :: seen)) ∧
      ∀ value ∈ (heap identity).layout.values, Clear heap levels (identity :: seen) value
  | _, _, _ => True

theorem canonical_of_clear {heap other : Heap} (again : Reordered heap other) {levels : Nat}
    {seen : List Nat} {value : JavaValue} (clear : Clear heap levels seen value) :
    canonical (captureBelow other levels seen value) =
      canonical (captureBelow heap levels seen value) := by
  induction levels generalizing seen value with
  | zero =>
    cases value with
    | object identity => rw [captureBelow, captureBelow, (again identity).className]
    | _ => rw [captureBelow, captureBelow]
  | succ levels ih =>
    cases value with
    | object identity =>
      rw [captureBelow, captureBelow, (again identity).className]
      split
      · rfl
      · rename_i fresh
        obtain ⟨apart, below⟩ := clear fresh
        rw [capturedObject_layout, capturedObject_layout]
        have inner := view_captured canonical_congruence (other identity).layout
          (fun value _ => keyView_reordered again levels (identity :: seen) value)
          fun value member => ih (below value ((again identity).layout.values member))
        rw [inner]
        have plain : ∀ value, Plain (captureBelow heap levels (identity :: seen) value) :=
          fun value => (within_captureBelow heap levels (identity :: seen) value).plain
        refine (view_reordered canonical_congruence (again identity).layout ?_).symm
        intro kind typeName length held shape a left b right level
        rw [shape] at apart
        exact apart a left b right ((sortKeys_eq_iff plain a b).mp level)
    | _ => rw [captureBelow, captureBelow]

/-- Every order of what is shown comes from an order of the elements. -/
theorem exists_shownElements {α β : Type} {elements : List α} {f : α → β} {others : List β}
    (order : ((shownElements true elements).map f).Perm others) :
    ∃ more, elements.Perm more ∧ (shownElements true more).map f = others := by
  by_cases few : elements.length ≤ maxArray
  · have all : ∀ more : List α, more.length ≤ maxArray → shownElements true more = more := by
      intro more bound
      unfold shownElements
      rw [if_pos (by simpa using bound), List.take_of_length_le bound]
    rw [all elements few] at order
    have paired : List.Forall₂ (fun b a => b = f a) (elements.map f) elements := by
      rw [List.forall₂_map_left_iff]
      exact List.forall₂_same.mpr fun _ _ => rfl
    obtain ⟨more, same, again⟩ := List.perm_comp_forall₂ order.symm paired
    refine ⟨more, again.symm, ?_⟩
    rw [all more (again.length_eq ▸ few)]
    rw [← List.forall₂_eq_eq_eq, List.forall₂_map_left_iff]
    exact same.flip.imp fun _ _ equal => equal.symm
  · refine ⟨elements, .refl _, ?_⟩
    have none_ : shownElements true elements = [] := by
      unfold shownElements
      rw [if_neg (by simpa using few)]
    rw [none_] at order ⊢
    exact order.nil_eq

/-- Every order of the sorted cells of an object is the order of some iteration. -/
theorem exists_reiterated {o : JavaObject} {kind : CellKind} {typeName : Text} {length : Nat}
    {held others : List (Cell kind)} (shape : o.layout = .cells kind typeName length true held)
    (order : held.Perm others) :
    ∃ again, Reiterated o again ∧ again.layout = .cells kind typeName length true others := by
  unfold JavaObject.layout at shape
  cases shown : o.shape with
  | array elements =>
    rw [shown] at shape
    cases shape
  | collection set elements =>
    rw [shown] at shape
    dsimp only at shape
    split at shape
    · rename_i trusted
      rw [Layout.cells.injEq] at shape
      obtain ⟨rfl, rfl, rfl, unordered, cells⟩ := shape
      rw [unordered] at cells
      cases cells
      obtain ⟨isSet, unorderedClass⟩ := Bool.and_eq_true_iff.mp unordered
      obtain ⟨more, again, listed⟩ := exists_shownElements order
      refine ⟨_, .set unorderedClass (isSet ▸ shown) again, ?_⟩
      have trustedAgain : trustedContainer { o with shape := .collection true more } = true := trusted
      unfold JavaObject.layout
      dsimp only
      rw [if_pos trustedAgain, unorderedClass, Bool.and_self, listed, again.length_eq]
    · cases shape
  | map entries =>
    rw [shown] at shape
    dsimp only at shape
    split at shape
    · rename_i trusted
      rw [Layout.cells.injEq] at shape
      obtain ⟨rfl, rfl, rfl, unordered, cells⟩ := shape
      rw [unordered] at cells
      cases cells
      obtain ⟨more, again, listed⟩ := exists_shownElements order
      refine ⟨_, .map unordered shown again, ?_⟩
      have trustedAgain : trustedContainer { o with shape := .map more } = true := trusted
      unfold JavaObject.layout
      dsimp only
      rw [if_pos trustedAgain, unordered, listed, again.length_eq]
    · cases shape
  | plain =>
    rw [shown] at shape
    cases shape

/-- Objects that a capture stands in are not looked into again. -/
theorem captureBelow_outside {heap other : Heap} (levels : Nat) {seen : List Nat} (value : JavaValue)
    (names : ∀ identity, (other identity).className = (heap identity).className)
    (outside : ∀ identity, identity ∉ seen → other identity = heap identity) :
    captureBelow other levels seen value = captureBelow heap levels seen value := by
  induction levels generalizing seen value with
  | zero =>
    cases value with
    | object identity => rw [captureBelow, captureBelow, names]
    | _ => rw [captureBelow, captureBelow]
  | succ levels ih =>
    cases value with
    | object identity =>
      rw [captureBelow, captureBelow, names]
      split
      · rfl
      · rename_i fresh
        have inner : captureBelow other levels (identity :: seen) =
            captureBelow heap levels (identity :: seen) := by
          funext value
          refine ih value fun next apart => outside next ?_
          exact fun member => apart (List.mem_cons_of_mem _ member)
        rw [inner, outside identity fresh]
    | _ => rw [captureBelow, captureBelow]

theorem reordered_update {heap : Heap} {identity : Nat} {again : JavaObject}
    (reiterated : Reiterated (heap identity) again) :
    Reordered heap (Function.update heap identity again) := by
  intro next
  by_cases here : next = identity
  · rw [here, Function.update_self]
    exact reiterated
  · rw [Function.update_of_ne here]
    exact .same

/-- Two orders of two cells with one key show which of them comes first. -/
theorem canonical_swap_ne {inner : JavaValue → EventValue} (plain : ∀ value, Plain (inner value))
    {kind : CellKind} (typeName : Text) (length : Nat) {a b : Cell kind}
    (level : keyView (a.shown inner) = keyView (b.shown inner))
    (differ : canonical (a.shown inner) ≠ canonical (b.shown inner)) (rest : List (Cell kind)) :
    canonical (Layout.captured inner (.cells kind typeName length true (a :: b :: rest))) ≠
      canonical (Layout.captured inner (.cells kind typeName length true (b :: a :: rest))) := by
  intro same
  have shown := canonical_sequence_inj same
  rw [List.map_map, List.map_map] at shown
  have keys := (sortKeys_eq_iff plain a b).mpr level
  exact textLe_order.pair.map_sortOn_swap_ne (f := canonical ∘ Cell.shown inner) keys differ rest shown

theorem exists_perm_pair {α : Type} {items : List α} {a b : α} (left : a ∈ items) (right : b ∈ items)
    (apart : a ≠ b) : ∃ rest, items.Perm (a :: b :: rest) := by
  obtain ⟨before, after, rfl⟩ := List.append_of_mem left
  have front : (before ++ a :: after).Perm (a :: (before ++ after)) := List.perm_middle
  have second : b ∈ before ++ after :=
    (List.mem_cons.mp (front.subset right)).resolve_left (Ne.symm apart)
  obtain ⟨start, rest, whole⟩ := List.append_of_mem second
  refine ⟨start ++ rest, front.trans (.cons a ?_)⟩
  rw [whole]
  exact List.perm_middle

/-- Two orders of the cells of one object are captured differently. -/
theorem exists_of_not_apart {heap : Heap} {levels identity : Nat} {seen : List Nat}
    (fresh : identity ∉ seen)
    (unclear : ¬(heap identity).layout.Apart (captureBelow heap levels (identity :: seen))) :
    ∃ first second, Reordered heap first ∧ Reordered heap second ∧
      (∀ next ∈ seen, first next = heap next ∧ second next = heap next) ∧
      canonical (captureBelow first (levels + 1) seen (.object identity)) ≠
        canonical (captureBelow second (levels + 1) seen (.object identity)) := by
  cases shape : (heap identity).layout with
  | fields className shown =>
    rw [shape] at unclear
    exact absurd trivial unclear
  | cells kind typeName length sorted held =>
    rw [shape] at unclear
    cases sorted with
    | false => exact absurd trivial unclear
    | true =>
      simp only [Layout.Apart, not_forall] at unclear
      obtain ⟨a, left, b, right, level, differ⟩ := unclear
      have apart : a ≠ b := fun same => differ (same ▸ rfl)
      obtain ⟨rest, order⟩ := exists_perm_pair left right apart
      obtain ⟨one, firstAgain, firstShape⟩ := exists_reiterated shape order
      obtain ⟨two, secondAgain, secondShape⟩ :=
        exists_reiterated shape (order.trans (.swap b a rest))
      refine ⟨Function.update heap identity one, Function.update heap identity two,
        reordered_update firstAgain, reordered_update secondAgain, fun next member => ?_, ?_⟩
      · have other : next ≠ identity := fun same => fresh (same ▸ member)
        exact ⟨Function.update_of_ne other _ _, Function.update_of_ne other _ _⟩
      · have inner : ∀ again, Reiterated (heap identity) again →
            captureBelow (Function.update heap identity again) levels (identity :: seen) =
              captureBelow heap levels (identity :: seen) := by
          intro again reiterated
          funext value
          refine captureBelow_outside levels value
            (fun next => (reordered_update reiterated next).className) fun next outside => ?_
          have other : next ≠ identity := fun same => outside (same ▸ List.mem_cons_self)
          exact Function.update_of_ne other _ _
        rw [captureBelow, captureBelow, if_neg fresh, if_neg fresh, inner one firstAgain,
          inner two secondAgain, Function.update_self, Function.update_self, capturedObject_layout,
          capturedObject_layout, firstShape, secondShape]
        exact canonical_swap_ne
          (fun value => (within_captureBelow heap levels (identity :: seen) value).plain)
          typeName length level differ rest

theorem exists_of_not_clear {heap : Heap} {levels : Nat} {seen : List Nat} {value : JavaValue}
    (unclear : ¬Clear heap levels seen value) :
    ∃ first second, Reordered heap first ∧ Reordered heap second ∧
      (∀ next ∈ seen, first next = heap next ∧ second next = heap next) ∧
      canonical (captureBelow first levels seen value) ≠
        canonical (captureBelow second levels seen value) := by
  induction levels generalizing seen value with
  | zero => exact absurd trivial unclear
  | succ levels ih =>
    cases value with
    | object identity =>
      simp only [Clear, Classical.not_imp, not_and_or, not_forall] at unclear
      obtain ⟨fresh, unclear | ⟨inside, member, unclear⟩⟩ := unclear
      · exact exists_of_not_apart fresh unclear
      · obtain ⟨first, second, againFirst, againSecond, outside, differ⟩ := ih unclear
        refine ⟨first, second, againFirst, againSecond,
          fun next listed => outside next (List.mem_cons_of_mem _ listed), fun same => differ ?_⟩
        obtain ⟨here, there⟩ := outside identity List.mem_cons_self
        rw [captureBelow, captureBelow, if_neg fresh, if_neg fresh, here, there,
          capturedObject_layout, capturedObject_layout] at same
        refine canonical_captured_inj _ (fun value _ => ?_) same inside member
        rw [keyView_reordered againFirst, keyView_reordered againSecond]
    | _ => exact absurd trivial unclear

/-- The capture of a value is equal under any two iteration orders exactly when no unordered
set or map that it looks into holds elements of different content with one key. -/
theorem capture_order_iff (heap : Heap) (value : JavaValue) :
    (∀ first second, Reordered heap first → Reordered heap second →
      canonical (capture first value) = canonical (capture second value)) ↔
    Clear heap maxDepth [] value := by
  constructor
  · intro same
    by_contra unclear
    obtain ⟨first, second, againFirst, againSecond, -, differ⟩ := exists_of_not_clear unclear
    exact differ (same first second againFirst againSecond)
  · intro clear first second againFirst againSecond
    exact (canonical_of_clear againFirst clear).trans (canonical_of_clear againSecond clear).symm

def arrayList (elements : List JavaValue) : JavaObject where
  className := ascii "java.util.ArrayList"
  typeName := ascii "java.util.ArrayList"
  bootstrap := true
  shape := .collection false elements
  classes := []

def integer (value : Int) : JavaValue := .number (.integral .integer value)

/-- An immutable set of the lists `[1, null, 20]` and `[10, 2, null]`, in this order of theirs. -/
def tiedLists (order : List Nat) : Heap := fun identity =>
  if identity = 0 then
    { className := ascii "java.util.ImmutableCollections$Set12",
      typeName := ascii "java.util.ImmutableCollections$Set12", bootstrap := true,
      shape := .collection true (order.map JavaValue.object), classes := [] }
  else if identity = 1 then arrayList [integer 1, .null, integer 20]
  else arrayList [integer 10, integer 2, .null]

theorem tiedLists_layout (order : List Nat) (two : order.length = 2) : (tiedLists order 0).layout =
    .cells .items (ascii "java.util.ImmutableCollections$Set12") 2 true
      (order.map fun identity => .item (.object identity)) := by
  have trusted : trustedContainer (tiedLists order 0) = true :=
    show trustedContainer (tiedLists [] 0) = true by decide
  have unordered : unorderedSet (tiedLists order 0).className = true :=
    show unorderedSet (tiedLists [] 0).className = true by decide
  have few : ∀ elements : List JavaValue, elements.length = 2 →
      shownElements true elements = elements := by
    intro elements length
    unfold shownElements
    rw [if_pos (by rw [length]; decide), List.take_of_length_le (by rw [length]; decide)]
  have shape : (tiedLists order 0).shape = .collection true (order.map JavaValue.object) := rfl
  unfold JavaObject.layout
  rw [shape]
  dsimp only
  rw [if_pos trusted, unordered, Bool.and_self, few _ (by rw [List.length_map, two]),
    List.length_map, two, List.map_map]
  rfl

/-- The two orders of the set are captured differently. -/
theorem tied_order_shows : Reordered (tiedLists [1, 2]) (tiedLists [2, 1]) ∧
    canonical (capture (tiedLists [1, 2]) (.object 0)) ≠
      canonical (capture (tiedLists [2, 1]) (.object 0)) := by
  have again : Reordered (tiedLists [1, 2]) (tiedLists [2, 1]) := by
    intro identity
    by_cases set : identity = 0
    · rw [set]
      exact .set (show unorderedSet (tiedLists [] 0).className = true by decide) rfl (.swap _ _ _)
    · have same : tiedLists [2, 1] identity = tiedLists [1, 2] identity := by
        rw [tiedLists, tiedLists, if_neg set, if_neg set]
      rw [same]
      exact .same
  have inner : captureBelow (tiedLists [2, 1]) 2 [0] = captureBelow (tiedLists [1, 2]) 2 [0] := by
    funext value
    refine captureBelow_outside 2 value (fun identity => (again identity).className) ?_
    intro identity outside
    rw [List.mem_singleton] at outside
    rw [tiedLists, tiedLists, if_neg outside, if_neg outside]
  have first : captureBelow (tiedLists [1, 2]) 2 [0] (.object 1) =
      capturedSequence (ascii "java.util.ArrayList") 3 "items"
        [.number (.integral .integer 1), .null, .number (.integral .integer 20)] := rfl
  have second : captureBelow (tiedLists [1, 2]) 2 [0] (.object 2) =
      capturedSequence (ascii "java.util.ArrayList") 3 "items"
        [.number (.integral .integer 10), .number (.integral .integer 2), .null] := rfl
  have level : keyView (captureBelow (tiedLists [1, 2]) 2 [0] (.object 1)) =
      keyView (captureBelow (tiedLists [1, 2]) 2 [0] (.object 2)) := by
    rw [first, second]
    exact view_sequence keyView_congruence _ _ _ rfl
  have differ : canonical (captureBelow (tiedLists [1, 2]) 2 [0] (.object 1)) ≠
      canonical (captureBelow (tiedLists [1, 2]) 2 [0] (.object 2)) := by
    intro same
    rw [first, second] at same
    have items := canonical_sequence_inj same
    simp [canonical] at items
  refine ⟨again, ?_⟩
  have shown : ∀ order : List Nat, order.length = 2 → capture (tiedLists order) (.object 0) =
      Layout.captured (captureBelow (tiedLists order) 2 [0])
        (.cells .items (ascii "java.util.ImmutableCollections$Set12") 2 true
          (order.map fun identity => .item (.object identity))) := by
    intro order two
    rw [← tiedLists_layout order two, ← capturedObject_layout]
    rfl
  rw [shown [1, 2] rfl, shown [2, 1] rfl, inner]
  exact canonical_swap_ne (a := .item (.object 1)) (b := .item (.object 2))
    (fun value => (within_captureBelow (tiedLists [1, 2]) 2 [0] value).plain) _ 2 level differ []

end Walaru.Agent
