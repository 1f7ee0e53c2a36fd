import Walaru.Source.Agent.EventSize
import Walaru.Source.Agent.SafeValue

/-!
# How long a captured value is

The bytes of a capture, computed from the program's values and the limits of the
capture: at most three levels of objects, 32 elements or 24 fields a level and 256 units a
string, but names and numbers in full.
-/
namespace Walaru.Agent

/-- `LinkedHashMap.put` of a field under its name. -/
def putShown (field : Field) : List Field → List Field
  | [] => [field]
  | other :: shown => if other.name = field.name then field :: shown else other :: putShown field shown

def shownClass : List Field → List Field → List Field
  | [], shown => shown
  | field :: rest, shown =>
    if maxFields ≤ shown.length then shown
    else if field.isStatic || field.synthetic then shownClass rest shown
    else shownClass rest (putShown field shown)

/-- The fields of an object that its capture shows. -/
def shownFields : List (List Field) → List Field → List Field
  | [], shown => shown
  | declared :: rest, shown =>
    if maxFields ≤ shown.length then shown else shownFields rest (shownClass declared shown)

/-- A shown field in the captured object. -/
def shownField (inner : JavaValue → EventValue) (field : Field) : Text × EventValue :=
  (field.name, capturedField inner field)

section Shown
variable (inner : JavaValue → EventValue)

theorem putField_shown (field : Field) (shown : List Field) :
    putField field.name (capturedField inner field) (shown.map (shownField inner)) =
      (putShown field shown).map (shownField inner) := by
  induction shown with
  | nil => rfl
  | cons other shown ih =>
    rw [List.map_cons, putField, putShown]
    change (if other.name = field.name then _ else _) = _
    split
    · rfl
    · rw [List.map_cons, ih]

theorem capturedClass_shown (declared shown : List Field) :
    capturedClass inner declared (shown.map (shownField inner)) =
      (shownClass declared shown).map (shownField inner) := by
  induction declared generalizing shown with
  | nil => rfl
  | cons field declared ih =>
    rw [capturedClass, shownClass, List.length_map]
    split
    · rfl
    · split
      · exact ih shown
      · rw [putField_shown, ih]

theorem capturedClasses_shown (classes : List (List Field)) (shown : List Field) :
    capturedClasses inner classes (shown.map (shownField inner)) =
      (shownFields classes shown).map (shownField inner) := by
  induction classes generalizing shown with
  | nil => rfl
  | cons declared classes ih =>
    rw [capturedClasses, shownFields, List.length_map]
    split
    · rfl
    · rw [capturedClass_shown, ih]

end Shown

def redactedBytes : Nat := textBytes (ascii "<redacted>")

def decimalBytes (value : Int) : Nat := (integerNumeral value).text.length

def markedBytes (className : Text) (why : String) : Nat :=
  containerBytes [memberBytes (ascii "type") (textBytes className), memberBytes (ascii why) 4]

def sequenceBytes (typeName : Text) (length : Nat) (key : String) (items : List Nat) : Nat :=
  containerBytes [memberBytes (ascii "type") (textBytes typeName),
    memberBytes (ascii "length") (decimalBytes length),
    memberBytes (ascii key) (containerBytes items),
    memberBytes (ascii "truncated") (boolBytes (maxArray < length))]

section Sizes
variable (inner : JavaValue → Nat)

def fieldBytes (field : Field) : Nat :=
  if secretName field.name then redactedBytes
  else if field.readable then inner field.value
  else textBytes (ascii "<inaccessible>")

def plainBytes (o : JavaObject) : Nat :=
  let shown := shownFields o.classes []
  containerBytes [memberBytes (ascii "type") (textBytes o.className),
    memberBytes (ascii "fields")
      (containerBytes (shown.map fun field => memberBytes field.name (fieldBytes inner field))),
    memberBytes (ascii "truncated") (boolBytes (maxFields ≤ shown.length))]

def entryBytes (entry : JavaValue × JavaValue) : Nat :=
  containerBytes [memberBytes (ascii "key") (inner entry.1),
    memberBytes (ascii "value")
      (match entry.1 with
      | .string name => if secretName name then redactedBytes else inner entry.2
      | _ => inner entry.2)]

/-- The elements of a container that are shown. -/
def shownElements {α : Type} (unordered : Bool) (elements : List α) : List α :=
  if !unordered || elements.length ≤ maxArray then elements.take maxArray else []

def objectBytes (o : JavaObject) : Nat :=
  match o.shape with
  | .array elements =>
    sequenceBytes o.typeName elements.length "items" ((elements.take maxArray).map inner)
  | .collection set elements =>
    if trustedContainer o then
      sequenceBytes o.className elements.length "items"
        ((shownElements (set && unorderedSet o.className) elements).map inner)
    else plainBytes inner o
  | .map entries =>
    if trustedContainer o then
      sequenceBytes o.className entries.length "entries"
        ((shownElements (unorderedMap o.className) entries).map (entryBytes inner))
    else plainBytes inner o
  | .plain => plainBytes inner o

end Sizes

/-- The bytes of a capture with this many levels of objects left. -/
def captureBytes (heap : Heap) : Nat → List Nat → JavaValue → Nat
  | _, _, .null => 4
  | _, _, .bool value => boolBytes value
  | _, _, .number value => value.text.length
  | _, _, .character value => textBytes [value]
  | _, _, .string value => if secretValue value then redactedBytes else textBytes (truncate value)
  | _, _, .enumeration name => textBytes name
  | levels, seen, .object identity =>
    if identity ∈ seen then markedBytes (heap identity).className "cycle"
    else
      match levels with
      | 0 => markedBytes (heap identity).className "truncated"
      | levels + 1 => objectBytes (captureBytes heap levels (identity :: seen)) (heap identity)

theorem separatedBytes_perm {a b : List Nat} (same : a.Perm b) : separatedBytes a = separatedBytes b := by
  rw [separatedBytes, separatedBytes, same.sum_nat, same.length_eq]

theorem valueBytes_sequence (typeName : Text) (length : Nat) (key : String) (items : List EventValue) :
    valueBytes (capturedSequence typeName length key items) =
      sequenceBytes typeName length key (items.map valueBytes) := by
  rw [← itemSizes_eq]
  rfl

/-- Sorting the shown items does not change the size. -/
theorem valueBytes_sequence_perm {items others : List EventValue} (same : items.Perm others)
    (typeName : Text) (length : Nat) (key : String) :
    valueBytes (capturedSequence typeName length key items) =
      sequenceBytes typeName length key (others.map valueBytes) := by
  rw [valueBytes_sequence, sequenceBytes, sequenceBytes, containerBytes, containerBytes,
    containerBytes, separatedBytes_perm (same.map valueBytes)]
  rfl

/-- Some captures sort what they show. -/
theorem sortedWhere_perm {α : Type} (sort : List α → List α) (kept : ∀ items, (sort items).Perm items)
    (sorts : Bool) (items : List α) : (if sorts then sort items else items).Perm items := by
  cases sorts with
  | true => exact kept items
  | false => exact .refl items

theorem shownElements_eq {α β : Type} (unordered : Bool) (elements : List α) (f : α → β) :
    (if !unordered || elements.length ≤ maxArray then (elements.take maxArray).map f else []) =
      (shownElements unordered elements).map f := by
  unfold shownElements
  split
  · rfl
  · rfl

section Captured
variable {inner : JavaValue → EventValue} {bytes : JavaValue → Nat}
  (sized : ∀ value, valueBytes (inner value) = bytes value)
include sized

theorem valueBytes_capturedField (field : Field) :
    valueBytes (capturedField inner field) = fieldBytes bytes field := by
  unfold capturedField fieldBytes
  split
  · rfl
  · split
    · exact sized field.value
    · rfl

theorem valueBytes_entry (entry : JavaValue × JavaValue) :
    valueBytes (.map [(ascii "key", (capturedEntry inner entry).1),
      (ascii "value", (capturedEntry inner entry).2)]) = entryBytes bytes entry := by
  obtain ⟨key, value⟩ := entry
  simp only [valueBytes, fieldSizes, capturedEntry, entryBytes, sized]
  cases key with
  | string name =>
    dsimp only
    split
    · rfl
    · rw [sized]
  | _ => simp only [sized]

theorem valueBytes_capturedObject (o : JavaObject) :
    valueBytes (capturedObject inner o) = objectBytes bytes o := by
  have plain : valueBytes (.map [(ascii "type", .text o.className),
      (ascii "fields", .map (capturedClasses inner o.classes [])),
      (ascii "truncated", .bool (maxFields ≤ (capturedClasses inner o.classes []).length))]) =
      plainBytes bytes o := by
    have shown := capturedClasses_shown inner o.classes []
    rw [List.map_nil] at shown
    simp only [shown, valueBytes, fieldSizes, fieldSizes_eq, List.map_map, List.length_map, plainBytes]
    congr 5
    exact List.map_congr_left fun field _ =>
      congrArg (memberBytes field.name) (valueBytes_capturedField sized field)
  have each : ∀ elements : List JavaValue,
      (elements.map inner).map valueBytes = elements.map bytes := fun elements => by
    rw [List.map_map]
    exact List.map_congr_left fun value _ => sized value
  unfold capturedObject objectBytes
  dsimp only
  cases o.shape with
  | array elements =>
    dsimp only
    rw [valueBytes_sequence, each]
  | collection set elements =>
    dsimp only
    split
    · have sorted := sortedWhere_perm (sortByKey stableSortKey) fun items => List.mergeSort_perm items _
      rw [valueBytes_sequence_perm (sorted _ _), shownElements_eq, ← each]
    · exact plain
  | map entries =>
    dsimp only
    split
    · have sorted := sortedWhere_perm (fun items : List (EventValue × EventValue) =>
        items.mergeSort fun a b =>
          if stableSortKey a.1 = stableSortKey b.1 then textLe (stableSortKey a.2) (stableSortKey b.2)
          else textLe (stableSortKey a.1) (stableSortKey b.1)) fun items => List.mergeSort_perm items _
      rw [valueBytes_sequence_perm ((sorted _ _).map _), List.map_map, shownElements_eq, List.map_map]
      exact congrArg _ (List.map_congr_left fun entry _ => valueBytes_entry sized entry)
    · exact plain
  | plain => exact plain

end Captured

theorem valueBytes_marked (className : Text) (why : String) :
    valueBytes (marked className why) = markedBytes className why := rfl

/-- A captured value takes what its size says, whatever levels of objects are left. -/
theorem valueBytes_captureBelow (heap : Heap) (levels : Nat) (seen : List Nat) (value : JavaValue) :
    valueBytes (captureBelow heap levels seen value) = captureBytes heap levels seen value := by
  have string : ∀ text : Text,
      valueBytes (if secretValue text then redacted else .text (truncate text)) =
        if secretValue text then redactedBytes else textBytes (truncate text) := by
    intro text
    split <;> rfl
  induction levels generalizing seen value with
  | zero =>
    cases value with
    | object identity =>
      rw [captureBelow, captureBytes]
      split
      · exact valueBytes_marked _ _
      · exact valueBytes_marked _ _
    | string text =>
      rw [captureBelow, captureBytes]
      exact string text
    | _ => rfl
  | succ levels ih =>
    cases value with
    | object identity =>
      rw [captureBelow, captureBytes]
      split
      · exact valueBytes_marked _ _
      · exact valueBytes_capturedObject (ih (identity :: seen)) (heap identity)
    | string text =>
      rw [captureBelow, captureBytes]
      exact string text
    | _ => rfl

end Walaru.Agent
