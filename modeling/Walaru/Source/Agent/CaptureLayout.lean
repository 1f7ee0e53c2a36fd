import Walaru.Source.Agent.CaptureSize
import Walaru.Source.Agent.SortKeys

/-!
# The layout of a capture

What of an object is shown, before the values it holds are captured: the cells of an array
or a container and whether they are sorted, or the fields of any other object.
-/
namespace Walaru.Agent
open Lib.KeySort

inductive CellKind where
  | items | entries
  deriving DecidableEq, Repr

/-- An element of an array or a collection, or an entry of a map. -/
inductive Cell : CellKind → Type where
  | item (value : JavaValue) : Cell .items
  | entry (entry : JavaValue × JavaValue) : Cell .entries

inductive Layout where
  | cells (kind : CellKind) (typeName : Text) (length : Nat) (sorted : Bool) (cells : List (Cell kind))
  | fields (className : Text) (shown : List Field)

/-- The layout of an object that is no container. -/
def JavaObject.fieldLayout (o : JavaObject) : Layout := .fields o.className (shownFields o.classes [])

def JavaObject.layout (o : JavaObject) : Layout :=
  match o.shape with
  | .array elements =>
    .cells .items o.typeName elements.length false ((elements.take maxArray).map .item)
  | .collection set elements =>
    if trustedContainer o then
      let unordered := set && unorderedSet o.className
      .cells .items o.className elements.length unordered
        ((shownElements unordered elements).map .item)
    else o.fieldLayout
  | .map entries =>
    if trustedContainer o then
      .cells .entries o.className entries.length (unorderedMap o.className)
        ((shownElements (unorderedMap o.className) entries).map .entry)
    else o.fieldLayout
  | .plain => o.fieldLayout

def CellKind.name : CellKind → String
  | .items => "items"
  | .entries => "entries"

section Captured
variable (inner : JavaValue → EventValue)

def Cell.shown {kind : CellKind} : Cell kind → EventValue
  | .item value => inner value
  | .entry held =>
    .map [(ascii "key", (capturedEntry inner held).1), (ascii "value", (capturedEntry inner held).2)]

/-- What a cell is sorted by. -/
def Cell.sortKeys {kind : CellKind} : Cell kind → Text × Text
  | .item value => (stableSortKey (inner value), [])
  | .entry held =>
    (stableSortKey (capturedEntry inner held).1, stableSortKey (capturedEntry inner held).2)

/-- The cells in the order in which they are shown. -/
def arranged {kind : CellKind} (sorted : Bool) (cells : List (Cell kind)) : List (Cell kind) :=
  if sorted then sortOn (pairLe textLe) (Cell.sortKeys inner) cells else cells

def Layout.captured : Layout → EventValue
  | .cells kind typeName length sorted held =>
    capturedSequence typeName length kind.name ((arranged inner sorted held).map (Cell.shown inner))
  | .fields className shown =>
    .map [(ascii "type", .text className), (ascii "fields", .map (shown.map (shownField inner))),
      (ascii "truncated", .bool (maxFields ≤ shown.length))]

theorem pairLe_single (a b : Text) : pairLe textLe (a, []) (b, []) = textLe a b := by
  unfold pairLe
  split
  · rename_i same
    change a = b at same
    rw [same, textLe_order.refl b]
    rfl
  · rfl

theorem arranged_items (unordered : Bool) (elements : List JavaValue) :
    (arranged inner unordered (elements.map Cell.item)).map (Cell.shown inner) =
      if unordered then sortByKey stableSortKey (elements.map inner) else elements.map inner := by
  unfold arranged
  cases unordered with
  | false =>
    rw [if_neg Bool.false_ne_true, if_neg Bool.false_ne_true, List.map_map]
    rfl
  | true =>
    have single : sortOn (pairLe textLe) (fun value => (stableSortKey (inner value), [])) elements =
        sortOn textLe (fun value => stableSortKey (inner value)) elements := by
      unfold sortOn
      simp only [pairLe_single]
    rw [if_pos rfl, if_pos rfl, sortOn_map, List.map_map]
    change (sortOn (pairLe textLe) (fun value => (stableSortKey (inner value), [])) elements).map _ =
      sortOn textLe stableSortKey (elements.map inner)
    rw [single, sortOn_map]
    rfl

theorem arranged_entries (unordered : Bool) (entries : List (JavaValue × JavaValue)) :
    (arranged inner unordered (entries.map Cell.entry)).map (Cell.shown inner) =
      (if unordered then
        (entries.map (capturedEntry inner)).mergeSort fun a b =>
          if stableSortKey a.1 = stableSortKey b.1 then textLe (stableSortKey a.2) (stableSortKey b.2)
          else textLe (stableSortKey a.1) (stableSortKey b.1)
      else entries.map (capturedEntry inner)).map fun entry =>
        .map [(ascii "key", entry.1), (ascii "value", entry.2)] := by
  unfold arranged
  cases unordered with
  | false =>
    rw [if_neg Bool.false_ne_true, if_neg Bool.false_ne_true, List.map_map, List.map_map]
    rfl
  | true =>
    have code : ∀ captured : List (EventValue × EventValue),
        (captured.mergeSort fun a b =>
          if stableSortKey a.1 = stableSortKey b.1 then textLe (stableSortKey a.2) (stableSortKey b.2)
          else textLe (stableSortKey a.1) (stableSortKey b.1)) =
        sortOn (pairLe textLe) (fun entry => (stableSortKey entry.1, stableSortKey entry.2))
          captured := fun _ => rfl
    rw [if_pos rfl, if_pos rfl, code, sortOn_map, sortOn_map, List.map_map, List.map_map]
    rfl

theorem captured_fieldLayout (o : JavaObject) : o.fieldLayout.captured inner =
    .map [(ascii "type", .text o.className),
      (ascii "fields", .map (capturedClasses inner o.classes [])),
      (ascii "truncated", .bool (maxFields ≤ (capturedClasses inner o.classes []).length))] := by
  have shown := capturedClasses_shown inner o.classes []
  rw [List.map_nil] at shown
  rw [shown, List.length_map]
  rfl

/-- An object is captured as it is laid out. -/
theorem capturedObject_layout (o : JavaObject) : capturedObject inner o = o.layout.captured inner := by
  unfold capturedObject JavaObject.layout
  dsimp only
  cases o.shape with
  | array elements =>
    rw [Layout.captured, arranged_items]
    rfl
  | collection set elements =>
    dsimp only
    split
    · rw [Layout.captured, arranged_items, shownElements_eq]
      rfl
    · exact (captured_fieldLayout inner o).symm
  | map entries =>
    dsimp only
    split
    · rw [Layout.captured, arranged_entries, shownElements_eq]
      rfl
    · exact (captured_fieldLayout inner o).symm
  | plain => exact (captured_fieldLayout inner o).symm

end Captured

end Walaru.Agent
