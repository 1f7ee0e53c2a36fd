import Walaru.Source.Agent.EventNesting

/-!
# What a capture shows

A capture follows the elements, entries and fields of objects, except the fields and the
values of map keys with secret names. So it is a function of the part of the heap that can
be reached without passing such a name, and it stops at the limits in every heap.
-/
namespace Walaru.Agent

/-- A captured tree: objects nest at most this deep, and each shows at most `maxArray`
elements or entries, or `maxFields` fields. -/
inductive Within : Nat → EventValue → Prop where
  | null (n : Nat) : Within n .null
  | bool (n : Nat) (value : Bool) : Within n (.bool value)
  | number (n : Nat) (value : JavaNumber) : Within n (.number value)
  | text (n : Nat) (value : Text) : Within n (.text value)
  | marked (n : Nat) (className : Text) (why : String) : Within n (marked className why)
  | items {n : Nat} (typeName : Text) (length : Nat) {items : List EventValue}
      (few : items.length ≤ maxArray) (each : ∀ item ∈ items, Within n item) :
      Within (n + 1) (capturedSequence typeName length "items" items)
  | entries {n : Nat} (typeName : Text) (length : Nat) {entries : List (EventValue × EventValue)}
      (few : entries.length ≤ maxArray) (keys : ∀ entry ∈ entries, Within n entry.1)
      (values : ∀ entry ∈ entries, Within n entry.2) :
      Within (n + 1) (capturedSequence typeName length "entries" (entries.map fun entry =>
        .map [(ascii "key", entry.1), (ascii "value", entry.2)]))
  | fields {n : Nat} (className : Text) (truncated : Bool) {fields : List (Text × EventValue)}
      (few : fields.length ≤ maxFields) (each : ∀ field ∈ fields, Within n field.2) :
      Within (n + 1) (.map [(ascii "type", .text className), (ascii "fields", .map fields),
        (ascii "truncated", .bool truncated)])

section Limits
variable {inner : JavaValue → EventValue} {n : Nat} (bound : ∀ value, Within n (inner value))
include bound

theorem within_capturedField (field : Field) : Within n (capturedField inner field) := by
  unfold capturedField
  split
  · exact .text n _
  · split
    · exact bound _
    · exact .text n _

omit bound in
theorem forall_putField {p : EventValue → Prop} {fields : List (Text × EventValue)}
    (each : ∀ field ∈ fields, p field.2) (name : Text) {value : EventValue} (own : p value) :
    ∀ field ∈ putField name value fields, p field.2 := by
  induction fields with
  | nil => exact List.forall_mem_singleton.mpr own
  | cons field fields ih =>
    obtain ⟨first, rest⟩ := List.forall_mem_cons.mp each
    rw [putField]
    split
    · exact List.forall_mem_cons.mpr ⟨own, rest⟩
    · exact List.forall_mem_cons.mpr ⟨first, ih rest⟩

omit bound in
theorem putField_length_le (name : Text) (value : EventValue) (fields : List (Text × EventValue)) :
    (putField name value fields).length ≤ fields.length + 1 := by
  induction fields with
  | nil => exact Nat.le_refl 1
  | cons field fields ih =>
    rw [putField]
    split
    · exact Nat.le_succ _
    · exact Nat.succ_le_succ ih

theorem within_capturedClass (declared : List Field) {fields : List (Text × EventValue)}
    (few : fields.length ≤ maxFields) (each : ∀ field ∈ fields, Within n field.2) :
    (capturedClass inner declared fields).length ≤ maxFields ∧
      ∀ field ∈ capturedClass inner declared fields, Within n field.2 := by
  induction declared generalizing fields with
  | nil => exact ⟨few, each⟩
  | cons field declared ih =>
    rw [capturedClass]
    split
    · exact ⟨few, each⟩
    · rename_i room
      split
      · exact ih few each
      · have longer := putField_length_le field.name (capturedField inner field) fields
        exact ih (by omega) (forall_putField each _ (within_capturedField bound field))

theorem within_capturedClasses (classes : List (List Field)) {fields : List (Text × EventValue)}
    (few : fields.length ≤ maxFields) (each : ∀ field ∈ fields, Within n field.2) :
    (capturedClasses inner classes fields).length ≤ maxFields ∧
      ∀ field ∈ capturedClasses inner classes fields, Within n field.2 := by
  induction classes generalizing fields with
  | nil => exact ⟨few, each⟩
  | cons declared classes ih =>
    rw [capturedClasses]
    split
    · exact ⟨few, each⟩
    · obtain ⟨few, each⟩ := within_capturedClass bound declared few each
      exact ih few each

omit bound in
/-- A container shows at most `maxArray` of its elements, sorted or not. -/
theorem shown_length_le {α β : Type} (sorts kept : Bool) (sort : List β → List β)
    (same : ∀ items, (sort items).Perm items) (elements : List α) (f : α → β) :
    (if sorts then sort (if kept then (elements.take maxArray).map f else [])
      else if kept then (elements.take maxArray).map f else []).length ≤ maxArray := by
  have chosen : (if kept then (elements.take maxArray).map f else []).length ≤ maxArray := by
    cases kept with
    | true =>
      rw [if_pos rfl, List.length_map, List.length_take]
      exact Nat.min_le_left _ _
    | false => exact Nat.zero_le _
  cases sorts with
  | true =>
    rw [if_pos rfl, (same _).length_eq]
    exact chosen
  | false => exact chosen

theorem within_capturedEntry (entry : JavaValue × JavaValue) :
    Within n (capturedEntry inner entry).1 ∧ Within n (capturedEntry inner entry).2 := by
  refine ⟨bound _, ?_⟩
  unfold capturedEntry
  dsimp only
  split
  · split
    · exact .text n _
    · exact bound _
  · exact bound _

theorem within_capturedObject (o : JavaObject) : Within (n + 1) (capturedObject inner o) := by
  have plain : Within (n + 1) (.map [(ascii "type", .text o.className),
      (ascii "fields", .map (capturedClasses inner o.classes [])),
      (ascii "truncated", .bool (maxFields ≤ (capturedClasses inner o.classes []).length))]) := by
    have empty : ∀ field ∈ ([] : List (Text × EventValue)), Within n field.2 := nofun
    obtain ⟨few, each⟩ := within_capturedClasses bound o.classes (Nat.zero_le _) empty
    exact .fields _ _ few each
  have taken : ∀ elements : List JavaValue, ∀ item ∈ (elements.take maxArray).map inner,
      Within n item := by
    intro elements item member
    obtain ⟨value, -, rfl⟩ := List.mem_map.mp member
    exact bound value
  unfold capturedObject
  dsimp only
  cases o.shape with
  | array elements =>
    refine .items _ _ ?_ (taken elements)
    rw [List.length_map, List.length_take]
    exact Nat.min_le_left _ _
  | collection set elements =>
    dsimp only
    split
    · refine .items _ _ (shown_length_le _ _ _ (fun items => List.mergeSort_perm items _) _ _) ?_
      exact fun item member => taken elements item (mem_shown (fun items => List.mem_mergeSort.mp) member)
    · exact plain
  | map entries =>
    dsimp only
    split
    · have each : ∀ entry ∈ (entries.take maxArray).map (capturedEntry inner),
          Within n entry.1 ∧ Within n entry.2 := by
        intro entry member
        obtain ⟨source, -, rfl⟩ := List.mem_map.mp member
        exact within_capturedEntry bound source
      refine .entries _ _ (shown_length_le _ _ _ (fun items => List.mergeSort_perm items _) _ _) ?_ ?_
      · exact fun entry member => (each entry (mem_shown (fun items => List.mem_mergeSort.mp) member)).1
      · exact fun entry member => (each entry (mem_shown (fun items => List.mem_mergeSort.mp) member)).2
    · exact plain
  | plain => exact plain

end Limits

theorem within_captureBelow (heap : Heap) (levels : Nat) (seen : List Nat) (value : JavaValue) :
    Within levels (captureBelow heap levels seen value) := by
  induction levels generalizing seen value with
  | zero =>
    cases value with
    | object identity =>
      rw [captureBelow]
      split <;> exact .marked 0 _ _
    | string value =>
      rw [captureBelow]
      split <;> exact .text 0 _
    | null => exact .null 0
    | bool value => exact .bool 0 value
    | number value => exact .number 0 value
    | character value => exact .text 0 _
    | enumeration name => exact .text 0 _
  | succ levels ih =>
    cases value with
    | object identity =>
      rw [captureBelow]
      split
      · exact .marked _ _ _
      · exact within_capturedObject (ih (identity :: seen)) (heap identity)
    | string value =>
      rw [captureBelow]
      split <;> exact .text _ _
    | null => exact .null _
    | bool value => exact .bool _ value
    | number value => exact .number _ value
    | character value => exact .text _ _
    | enumeration name => exact .text _ _

/-- The field without its value, when its name is secret. -/
def Field.hidden (field : Field) : Field :=
  if secretName field.name then { field with value := .null } else field

/-- The entry of a map without its value, when its key is a secret name. -/
def hiddenEntry (entry : JavaValue × JavaValue) : JavaValue × JavaValue :=
  match entry.1 with
  | .string name => if secretName name then (entry.1, .null) else entry
  | _ => entry

def Shape.hidden : Shape → Shape
  | .map entries => .map (entries.map hiddenEntry)
  | shape => shape

/-- What is left of an object when the values behind secret names are blanked. -/
def JavaObject.hidden (o : JavaObject) : JavaObject :=
  { o with shape := o.shape.hidden, classes := o.classes.map (List.map Field.hidden) }

/-- The values of the instance fields, but for those with secret names. -/
def openFields (classes : List (List Field)) : List JavaValue :=
  (classes.flatten.filter fun field => !field.isStatic && !secretName field.name).map Field.value

/-- The key of an entry, and its value unless the key is a secret name. -/
def openEntry (entry : JavaValue × JavaValue) : List JavaValue :=
  match entry.1 with
  | .string name => if secretName name then [entry.1] else [entry.1, entry.2]
  | _ => [entry.1, entry.2]

/-- What an object holds in the open: the elements of an array or a container, the entries of
a map, and the fields of any other object. -/
def JavaObject.openValues (o : JavaObject) : List JavaValue :=
  match o.shape with
  | .array elements => elements
  | .collection _ elements => if trustedContainer o then elements else openFields o.classes
  | .map entries => if trustedContainer o then entries.flatMap openEntry else openFields o.classes
  | .plain => openFields o.classes

/-- The object can be reached from the value without passing a secret name. -/
inductive Visible (heap : Heap) (value : JavaValue) : Nat → Prop where
  | root {identity : Nat} (here : value = .object identity) : Visible heap value identity
  | inside {identity next : Nat} (seen : Visible heap value identity)
      (holds : .object next ∈ (heap identity).openValues) : Visible heap value next

section Hidden
variable (inner : JavaValue → EventValue)

theorem capturedField_hidden (field : Field) :
    capturedField inner field.hidden = capturedField inner field := by
  unfold Field.hidden
  split
  · rename_i secret
    simp [capturedField, secret]
  · rfl

theorem hidden_modifiers (field : Field) : field.hidden.name = field.name ∧
    field.hidden.isStatic = field.isStatic ∧ field.hidden.synthetic = field.synthetic := by
  unfold Field.hidden
  split <;> exact ⟨rfl, rfl, rfl⟩

theorem capturedClass_hidden (declared : List Field) (fields : List (Text × EventValue)) :
    capturedClass inner (declared.map Field.hidden) fields = capturedClass inner declared fields := by
  induction declared generalizing fields with
  | nil => rfl
  | cons field declared ih =>
    obtain ⟨name, static, synthetic⟩ := hidden_modifiers field
    rw [List.map_cons, capturedClass, capturedClass, name, static, synthetic, capturedField_hidden,
      ih, ih]

theorem capturedClasses_hidden (classes : List (List Field)) (fields : List (Text × EventValue)) :
    capturedClasses inner (classes.map (List.map Field.hidden)) fields =
      capturedClasses inner classes fields := by
  induction classes generalizing fields with
  | nil => rfl
  | cons declared classes ih =>
    rw [List.map_cons, capturedClasses, capturedClasses, capturedClass_hidden, ih]

theorem capturedEntry_hidden (entry : JavaValue × JavaValue) :
    capturedEntry inner (hiddenEntry entry) = capturedEntry inner entry := by
  obtain ⟨key, value⟩ := entry
  cases key with
  | string name =>
    unfold hiddenEntry
    dsimp only
    split
    · rename_i secret
      simp [capturedEntry, secret]
    · rfl
  | _ => rfl

/-- Nothing behind a secret name is shown. -/
theorem capturedObject_hidden (o : JavaObject) : capturedObject inner o.hidden = capturedObject inner o := by
  have classes := capturedClasses_hidden inner o.classes []
  unfold capturedObject JavaObject.hidden
  dsimp only
  rw [classes]
  cases o.shape with
  | array elements => rfl
  | collection set elements => rfl
  | map entries =>
    have shown : ((entries.map hiddenEntry).take maxArray).map (capturedEntry inner) =
        (entries.take maxArray).map (capturedEntry inner) := by
      rw [← List.map_take, List.map_map]
      exact List.map_congr_left fun entry _ => capturedEntry_hidden inner entry
    unfold Shape.hidden
    dsimp only
    rw [shown, List.length_map]
    rfl
  | plain => rfl

end Hidden

section Open
variable {first second : JavaValue → EventValue}

theorem capturedClass_congr (declared : List Field)
    (same : ∀ field ∈ declared, field.isStatic = false → secretName field.name = false →
      first field.value = second field.value) (fields : List (Text × EventValue)) :
    capturedClass first declared fields = capturedClass second declared fields := by
  induction declared generalizing fields with
  | nil => rfl
  | cons field declared ih =>
    obtain ⟨own, rest⟩ := List.forall_mem_cons.mp same
    rw [capturedClass, capturedClass]
    split
    · rfl
    · split
      · exact ih rest fields
      · rename_i instance_
        have shown : capturedField first field = capturedField second field := by
          unfold capturedField
          split
          · rfl
          · rename_i open_
            rw [Bool.or_eq_true, not_or, Bool.not_eq_true] at instance_
            rw [own instance_.1 (by simpa using open_)]
        rw [shown, ih rest]

theorem capturedClasses_congr (classes : List (List Field))
    (same : ∀ value ∈ openFields classes, first value = second value)
    (fields : List (Text × EventValue)) :
    capturedClasses first classes fields = capturedClasses second classes fields := by
  have each : ∀ declared ∈ classes, ∀ field ∈ declared, field.isStatic = false →
      secretName field.name = false → first field.value = second field.value := by
    intro declared member field inside static open_
    apply same
    unfold openFields
    refine List.mem_map_of_mem (List.mem_filter.mpr ⟨?_, by simp [static, open_]⟩)
    exact List.mem_flatten.mpr ⟨declared, member, inside⟩
  clear same
  induction classes generalizing fields with
  | nil => rfl
  | cons declared classes ih =>
    obtain ⟨own, rest⟩ := List.forall_mem_cons.mp each
    rw [capturedClasses, capturedClasses, capturedClass_congr declared own, ih _ rest]

theorem capturedEntry_congr (entry : JavaValue × JavaValue)
    (same : ∀ value ∈ openEntry entry, first value = second value) :
    capturedEntry first entry = capturedEntry second entry := by
  obtain ⟨key, value⟩ := entry
  unfold openEntry at same
  unfold capturedEntry
  cases key with
  | string name =>
    dsimp only at same ⊢
    split at same
    · rename_i secret
      rw [if_pos secret, if_pos secret, same _ (by simp)]
    · rename_i open_
      rw [if_neg open_, if_neg open_, same _ (by simp), same value (by simp)]
  | _ =>
    dsimp only at same ⊢
    rw [same _ (by simp), same value (by simp)]

/-- Only what an object holds in the open is looked at. -/
theorem capturedObject_congr (o : JavaObject)
    (same : ∀ value ∈ o.openValues, first value = second value) :
    capturedObject first o = capturedObject second o := by
  unfold capturedObject
  unfold JavaObject.openValues at same
  cases shape : o.shape with
  | array elements =>
    rw [shape] at same
    dsimp only at same ⊢
    rw [List.map_congr_left fun value member => same value (List.mem_of_mem_take member)]
  | collection set elements =>
    rw [shape] at same
    dsimp only at same ⊢
    split at same
    · rename_i trusted
      rw [if_pos trusted, if_pos trusted,
        List.map_congr_left fun value member => same value (List.mem_of_mem_take member)]
    · rename_i foreign
      rw [if_neg foreign, if_neg foreign, capturedClasses_congr o.classes same]
  | map entries =>
    rw [shape] at same
    dsimp only at same ⊢
    split at same
    · rename_i trusted
      have shown : (entries.take maxArray).map (capturedEntry first) =
          (entries.take maxArray).map (capturedEntry second) := by
        refine List.map_congr_left fun entry member => capturedEntry_congr entry fun value inside => ?_
        exact same value (List.mem_flatMap.mpr ⟨entry, List.mem_of_mem_take member, inside⟩)
      rw [if_pos trusted, if_pos trusted, shown]
    · rename_i foreign
      rw [if_neg foreign, if_neg foreign, capturedClasses_congr o.classes same]
  | plain =>
    rw [shape] at same
    dsimp only at same ⊢
    rw [capturedClasses_congr o.classes same]

end Open

theorem className_eq_of_hidden {o p : JavaObject} (same : o.hidden = p.hidden) :
    o.className = p.className := by
  have names := congrArg JavaObject.className same
  exact names

/-- Heaps that agree on what is visible are captured alike. -/
theorem captureBelow_agree {heap other : Heap} (levels : Nat) (seen : List Nat) (value : JavaValue)
    (agree : ∀ identity, Visible heap value identity →
      (heap identity).hidden = (other identity).hidden) :
    captureBelow heap levels seen value = captureBelow other levels seen value := by
  induction levels generalizing seen value with
  | zero =>
    cases value with
    | object identity =>
      have same := agree identity (.root rfl)
      have named := className_eq_of_hidden same
      rw [captureBelow, captureBelow, named]
    | _ => rw [captureBelow, captureBelow]
  | succ levels ih =>
    cases value with
    | object identity =>
      have same := agree identity (.root rfl)
      have named := className_eq_of_hidden same
      have inside : ∀ held ∈ (heap identity).openValues,
          captureBelow heap levels (identity :: seen) held =
            captureBelow other levels (identity :: seen) held := by
        intro held member
        apply ih
        intro next below
        apply agree
        induction below with
        | root here => exact .inside (.root rfl) (here ▸ member)
        | inside _ holds deeper => exact .inside deeper holds
      have objects : capturedObject (captureBelow heap levels (identity :: seen)) (heap identity) =
          capturedObject (captureBelow other levels (identity :: seen)) (other identity) := by
        rw [capturedObject_congr _ inside, ← capturedObject_hidden, same, capturedObject_hidden]
      rw [captureBelow, captureBelow, named, objects]
    | _ => rw [captureBelow, captureBelow]

/-- Every capture stays within the limits, and captures of heaps that differ only behind secret
names are equal. -/
theorem capture_private :
    (∀ (heap : Heap) (value : JavaValue), Within maxDepth (capture heap value) ∧
      (capture heap value).nesting ≤ 3 * maxDepth + 1) ∧
    (∀ (heap other : Heap) (value : JavaValue),
      (∀ identity, Visible heap value identity → (heap identity).hidden = (other identity).hidden) →
      capture heap value = capture other value) ∧
    ∀ (heap other : Heap) (name : Text) (value differing : JavaValue), secretName name = true →
      captureNamed heap name value = captureNamed other name differing := by
  refine ⟨fun heap value => ⟨?_, ?_⟩, ?_, ?_⟩
  · exact within_captureBelow heap maxDepth [] value
  · exact captureBelow_nesting heap maxDepth [] value
  · exact fun heap other value agree => captureBelow_agree maxDepth [] value agree
  · intro heap other name value differing secret
    rw [captureNamed, captureNamed, if_pos secret, if_pos secret]

/-- An account that holds itself, a token, and a vault behind a key. -/
def account (secret : Text) : Heap := fun identity =>
  if identity = 0 then
    { className := ascii "demo.Account", typeName := ascii "demo.Account", bootstrap := false,
      shape := .plain,
      classes := [[⟨ascii "name", false, false, true, .string (ascii "visible")⟩,
        ⟨ascii "apiToken", false, false, true, .string secret⟩,
        ⟨ascii "vaultKey", false, false, true, .object 1⟩,
        ⟨ascii "self", false, false, true, .object 0⟩]] }
  else
    { className := ascii "java.lang.String[]", typeName := ascii "java.lang.String[]",
      bootstrap := true, shape := .array [.string secret], classes := [] }

theorem account_hidden (secret other : Text) :
    (account secret 0).hidden = (account other 0).hidden := by
  have token : secretName (ascii "apiToken") = true := by decide
  simp [account, JavaObject.hidden, Field.hidden, token]

theorem account_visible {secret : Text} {identity : Nat}
    (visible : Visible (account secret) (.object 0) identity) : identity = 0 := by
  have values : (account secret 0).openValues = [.string (ascii "visible"), .object 0] := by
    have names : secretName (ascii "name") = false ∧ secretName (ascii "apiToken") = true ∧
        secretName (ascii "vaultKey") = true ∧ secretName (ascii "self") = false := by decide
    simp [account, JavaObject.openValues, openFields, names]
  induction visible with
  | root here => exact (JavaValue.object.inj here).symm
  | inside _ holds same =>
    rw [same, values] at holds
    simpa using holds

theorem capture_private_demo :
    capture (account (ascii "first")) (.object 0) = capture (account (ascii "second")) (.object 0) ∧
      captureNamed (account []) (ascii "password") (.string (ascii "first")) =
        captureNamed (account []) (ascii "password") (.string (ascii "second")) := by
  constructor
  · apply capture_private.2.1
    intro identity visible
    rw [account_visible visible]
    exact account_hidden _ _
  · exact capture_private.2.2 _ _ _ _ _ (by decide)

end Walaru.Agent
