import Walaru.Source.Agent.AgentEvents
import Walaru.Source.Agent.EventRead

/-!
# How deep events nest

Capture stops at a fixed depth and every object adds at most three containers, so an
event nests far less than the daemon's parser allows.
-/
namespace Walaru.Agent

/-- No field nests deeper than this. -/
def Shallow (n : Nat) (fields : Fields) : Prop := ∀ field ∈ fields, field.2.nesting ≤ n

theorem Shallow.append {n : Nat} {a b : Fields} (first : Shallow n a) (second : Shallow n b) :
    Shallow n (a ++ b) := List.forall_mem_append.mpr ⟨first, second⟩

theorem Shallow.map {n : Nat} {fields : Fields} (shallow : Shallow n fields) :
    (EventValue.map fields).nesting ≤ n + 1 :=
  Nat.succ_le_succ (fieldsNesting_le.mpr shallow)

theorem nesting_list {n : Nat} {items : List EventValue} (each : ∀ item ∈ items, item.nesting ≤ n) :
    (EventValue.list items).nesting ≤ n + 1 :=
  Nat.succ_le_succ (itemsNesting_le.mpr each)

theorem Shallow.putField {n : Nat} {fields : Fields} (shallow : Shallow n fields) (name : Text)
    {value : EventValue} (bound : value.nesting ≤ n) : Shallow n (putField name value fields) := by
  induction fields with
  | nil => exact List.forall_mem_singleton.mpr bound
  | cons field fields ih =>
    obtain ⟨own, rest⟩ := List.forall_mem_cons.mp shallow
    rw [Agent.putField]
    split
    · exact List.forall_mem_cons.mpr ⟨bound, rest⟩
    · exact List.forall_mem_cons.mpr ⟨own, ih rest⟩

theorem Shallow.putAll {n : Nat} {fields supplied : Fields} (shallow : Shallow n fields)
    (others : Shallow n supplied) : Shallow n (putAll fields supplied) := by
  induction supplied generalizing fields with
  | nil => exact shallow
  | cons field supplied ih =>
    obtain ⟨own, rest⟩ := List.forall_mem_cons.mp others
    exact ih (shallow.putField field.1 own) rest

variable {inner : JavaValue → EventValue} {n : Nat}

theorem capturedEntry_nesting (bound : ∀ value, (inner value).nesting ≤ n)
    (entry : JavaValue × JavaValue) :
    (capturedEntry inner entry).1.nesting ≤ n ∧ (capturedEntry inner entry).2.nesting ≤ n := by
  refine ⟨bound _, ?_⟩
  unfold capturedEntry
  split
  · split
    · exact Nat.zero_le n
    · exact bound _
  · exact bound _

theorem capturedClass_shallow (bound : ∀ value, (inner value).nesting ≤ n) (declared : List Field)
    {fields : Fields} (shallow : Shallow n fields) :
    Shallow n (capturedClass inner declared fields) := by
  induction declared generalizing fields with
  | nil => exact shallow
  | cons field declared ih =>
    rw [capturedClass]
    split
    · exact shallow
    · split
      · exact ih shallow
      · refine ih (shallow.putField field.name ?_)
        unfold capturedField
        split
        · exact Nat.zero_le n
        · split
          · exact bound _
          · exact Nat.zero_le n

theorem capturedClasses_shallow (bound : ∀ value, (inner value).nesting ≤ n)
    (classes : List (List Field)) {fields : Fields} (shallow : Shallow n fields) :
    Shallow n (capturedClasses inner classes fields) := by
  induction classes generalizing fields with
  | nil => exact shallow
  | cons declared classes ih =>
    rw [capturedClasses]
    split
    · exact shallow
    · exact ih (capturedClass_shallow bound declared shallow)

theorem capturedSequence_nesting {items : List EventValue} (typeName : Text) (length : Nat)
    (key : String) (bound : ∀ item ∈ items, item.nesting ≤ n) :
    (capturedSequence typeName length key items).nesting ≤ n + 2 := by
  refine Shallow.map ?_
  have listed := nesting_list bound
  simp only [Shallow, List.forall_mem_cons]
  exact ⟨Nat.zero_le _, Nat.zero_le _, listed, Nat.zero_le _, nofun⟩

/-- What is shown of a container, sorted or not, is among its first elements. -/
theorem mem_shown {α : Type} {x : α} {shown : List α} {sort : List α → List α} {c d : Bool}
    (kept : ∀ items, x ∈ sort items → x ∈ items)
    (member : x ∈ if c then sort (if d then shown else []) else if d then shown else []) :
    x ∈ shown := by
  have chosen : x ∈ if d then shown else [] := by
    cases c with
    | true => exact kept _ member
    | false => exact member
  cases d with
  | true => exact chosen
  | false => cases chosen

/-- An object adds at most three containers to what it holds. -/
theorem capturedObject_nesting (bound : ∀ value, (inner value).nesting ≤ n) (o : JavaObject) :
    (capturedObject inner o).nesting ≤ n + 3 := by
  have plain : (EventValue.map [(ascii "type", .text o.className),
      (ascii "fields", .map (capturedClasses inner o.classes [])),
      (ascii "truncated", .bool (maxFields ≤ (capturedClasses inner o.classes []).length))]).nesting ≤
      n + 3 := by
    have empty : Shallow n [] := nofun
    have shown := (capturedClasses_shallow bound o.classes empty).map
    have whole : Shallow (n + 1) [(ascii "type", .text o.className),
        (ascii "fields", .map (capturedClasses inner o.classes [])),
        (ascii "truncated", .bool (maxFields ≤ (capturedClasses inner o.classes []).length))] := by
      simp only [Shallow, List.forall_mem_cons]
      exact ⟨Nat.zero_le _, shown, Nat.zero_le _, nofun⟩
    exact Nat.le_trans whole.map (by omega)
  have taken : ∀ elements : List JavaValue, ∀ item ∈ elements.map inner, item.nesting ≤ n := by
    intro elements item member
    obtain ⟨value, -, rfl⟩ := List.mem_map.mp member
    exact bound value
  unfold capturedObject
  dsimp only
  cases o.shape with
  | array elements =>
    exact Nat.le_trans (capturedSequence_nesting _ _ _ (taken _)) (by omega)
  | collection set elements =>
    dsimp only
    split
    · refine Nat.le_trans (capturedSequence_nesting _ _ _ fun item member => ?_) (Nat.le_succ (n + 2))
      exact taken _ item (mem_shown (fun items => List.mem_mergeSort.mp) member)
    · exact plain
  | map entries =>
    dsimp only
    split
    · have entry : ∀ item ∈ ((entries.take maxArray).map (capturedEntry inner)).map
          (fun entry => EventValue.map [(ascii "key", entry.1), (ascii "value", entry.2)]),
          item.nesting ≤ n + 1 := by
        intro item member
        rw [List.map_map] at member
        obtain ⟨source, -, rfl⟩ := List.mem_map.mp member
        obtain ⟨key, value⟩ := capturedEntry_nesting bound source
        refine Shallow.map ?_
        simp only [Shallow, List.forall_mem_cons]
        exact ⟨key, value, nofun⟩
      refine capturedSequence_nesting _ _ _ fun item member => ?_
      obtain ⟨source, shown, rfl⟩ := List.mem_map.mp member
      exact entry _ (List.mem_map.mpr
        ⟨source, mem_shown (fun items => List.mem_mergeSort.mp) shown, rfl⟩)
    · exact plain
  | plain => exact plain

theorem captureBelow_nesting (heap : Heap) (levels : Nat) (seen : List Nat) (value : JavaValue) :
    (captureBelow heap levels seen value).nesting ≤ 3 * levels + 1 := by
  have mark : ∀ (className : Text) (why : String), (marked className why).nesting ≤ 1 := by
    intro className why
    refine Shallow.map ?_
    simp only [Shallow, List.forall_mem_cons]
    exact ⟨Nat.le_refl 0, Nat.le_refl 0, nofun⟩
  induction levels generalizing seen value with
  | zero =>
    cases value with
    | object identity =>
      rw [captureBelow]
      split
      · exact mark _ _
      · exact mark _ _
    | string value =>
      rw [captureBelow]
      split
      · exact Nat.zero_le _
      · exact Nat.zero_le _
    | _ => exact Nat.zero_le _
  | succ levels ih =>
    cases value with
    | object identity =>
      rw [captureBelow]
      split
      · exact Nat.le_trans (mark _ _) (by omega)
      · have inside := capturedObject_nesting (ih (identity :: seen)) (heap identity)
        exact Nat.le_trans inside (by omega)
    | string value =>
      rw [captureBelow]
      split
      · exact Nat.zero_le _
      · exact Nat.zero_le _
    | _ => exact Nat.zero_le _

theorem capture_nesting (heap : Heap) (value : JavaValue) : (capture heap value).nesting ≤ 10 :=
  captureBelow_nesting heap maxDepth [] value

theorem captureNamed_nesting (heap : Heap) (name : Text) (value : JavaValue) :
    (captureNamed heap name value).nesting ≤ 10 := by
  unfold captureNamed
  split
  · exact Nat.zero_le _
  · exact capture_nesting heap value

theorem namedValue_nesting (heap : Heap) (name : Text) (value : JavaValue) (isRedacted : Bool) :
    (namedValue heap name value isRedacted).nesting ≤ 10 := by
  unfold namedValue
  split
  · exact Nat.zero_le _
  · exact captureNamed_nesting heap name value

theorem shallow_nil (n : Nat) : Shallow n [] := nofun

theorem Shallow.cons {n : Nat} {field : Text × EventValue} {fields : Fields}
    (own : field.2.nesting ≤ n) (rest : Shallow n fields) : Shallow n (field :: fields) :=
  List.forall_mem_cons.mpr ⟨own, rest⟩

/-- Only texts, booleans and numbers. -/
def scalarFields (fields : Fields) : Bool := fields.all fun field => field.2.nesting = 0

theorem shallow_of_scalar {fields : Fields} (scalar : scalarFields fields = true) (n : Nat) :
    Shallow n fields := by
  intro field member
  have flat := List.all_eq_true.mp scalar field member
  rw [decide_eq_true_eq] at flat
  omega

theorem codeFields_shallow (site : Site) {extra : Fields} (shallow : Shallow 12 extra) :
    Shallow 12 (codeFields site extra) := by
  refine Shallow.putAll (Shallow.append (shallow_of_scalar rfl 12) ?_) shallow
  cases site.coroutine with
  | none => exact shallow_nil 12
  | some stack =>
    have frames : ∀ frame ∈ stack.map logicalFrame, frame.nesting ≤ 1 := by
      intro frame member
      obtain ⟨source, -, rfl⟩ := List.mem_map.mp member
      exact (shallow_of_scalar rfl 0).map
    have listed := nesting_list frames
    exact .cons (Nat.zero_le _) (.cons (Nat.le_trans listed (by decide)) (shallow_nil 12))

/-- The values of an event, one container below its fields. -/
theorem valuesField_shallow (site : Site) (before : Fields) {values : Fields}
    (scalar : scalarFields before = true) (shallow : Shallow 11 values) :
    Shallow 12 (codeFields site (before ++ [mapField "values" values])) :=
  codeFields_shallow site
    ((shallow_of_scalar scalar 12).append (.cons shallow.map (shallow_nil 12)))

theorem arguments_nesting (heap : Heap) (arguments : List JavaValue) :
    (EventValue.list (arguments.map (capture heap))).nesting ≤ 11 := by
  refine nesting_list ?_
  intro item member
  obtain ⟨value, -, rfl⟩ := List.mem_map.mp member
  exact capture_nesting heap value

theorem accessedValues_shallow (heap : Heap) (target : FieldTarget) (receiver value : JavaValue) :
    Shallow 11 (accessedValues heap target receiver value) :=
  .cons (Nat.le_trans (capture_nesting heap receiver) (by decide))
    (.cons (Nat.le_trans (captureNamed_nesting heap target.field value) (by decide)) (shallow_nil 11))

/-- The fields that an observation supplies nest at most twelve containers. -/
theorem Observation.fields_shallow (heap : Heap) (observation : Observation) :
    Shallow 12 (observation.fields heap) := by
  have captured : ∀ value, (capture heap value).nesting ≤ 11 := fun value =>
    Nat.le_trans (capture_nesting heap value) (by decide)
  have named : ∀ name value, (captureNamed heap name value).nesting ≤ 11 := fun name value =>
    Nat.le_trans (captureNamed_nesting heap name value) (by decide)
  have shown : ∀ name value isRedacted, (namedValue heap name value isRedacted).nesting ≤ 11 :=
    fun name value isRedacted => Nat.le_trans (namedValue_nesting heap name value isRedacted) (by decide)
  cases observation with
  | testStarted testId testName => exact shallow_of_scalar rfl 12
  | testFinished testId testName status failure =>
    refine Shallow.append (Shallow.append (Shallow.append (shallow_of_scalar rfl 12) ?_)
      (shallow_of_scalar rfl 12)) ?_
    · cases testName with
      | none => exact shallow_nil 12
      | some testName => exact shallow_of_scalar rfl 12
    · cases failure with
      | none => exact shallow_nil 12
      | some failure =>
        have frames : ∀ frame ∈ failure.frames.map EventValue.text, frame.nesting ≤ 11 := by
          intro frame member
          obtain ⟨text, -, rfl⟩ := List.mem_map.mp member
          exact Nat.zero_le 11
        exact .cons (Nat.zero_le 12) (.cons (Nat.zero_le 12)
          (.cons (nesting_list frames) (shallow_nil 12)))
  | methodEntered site arguments =>
    exact codeFields_shallow site (.cons (Nat.le_trans (arguments_nesting heap arguments) (by decide))
      (shallow_nil 12))
  | methodExited site threw => exact codeFields_shallow site (shallow_of_scalar rfl 12)
  | line site values =>
    refine valuesField_shallow site [] rfl ?_
    cases values with
    | none => exact shallow_nil 11
    | some values =>
      exact .cons (captured values.1) (.cons (arguments_nesting heap values.2) (shallow_nil 11))
  | call site targetOwner targetMethod targetDescriptor =>
    exact codeFields_shallow site (shallow_of_scalar rfl 12)
  | write site target values =>
    refine valuesField_shallow site _ rfl (Shallow.append ?_ (shallow_of_scalar rfl 11))
    cases values with
    | none => exact shallow_nil 11
    | some values => exact accessedValues_shallow heap target values.1 values.2
  | read site target receiver value =>
    exact valuesField_shallow site _ rfl
      (Shallow.append (accessedValues_shallow heap target receiver value) (shallow_of_scalar rfl 11))
  | arrayWrite site array typeName index value =>
    exact valuesField_shallow site _ rfl
      (Shallow.append (.cons (captured array) (.cons (captured value) (shallow_nil 11)))
        (shallow_of_scalar rfl 11))
  | arrayRead site typeName index value =>
    exact valuesField_shallow site _ rfl
      (Shallow.append (shallow_of_scalar rfl 11) (.cons (captured value) (shallow_nil 11)))
  | monitor site action kind receiver =>
    exact valuesField_shallow site [textField "action" action, textField "monitorKind" kind]
      rfl (Shallow.append (a := [textField "action" action, textField "monitorKind" kind])
        (shallow_of_scalar rfl 11) (.cons (captured receiver) (shallow_nil 11)))
  | apiCapture site name value isRedacted =>
    exact valuesField_shallow site [] rfl
      (.cons (Nat.zero_le 11) (.cons (shown name value isRedacted) (shallow_of_scalar rfl 11)))
  | apiCheckpoint site name value =>
    refine valuesField_shallow site [] rfl (.cons (Nat.zero_le 11) ?_)
    cases value with
    | none => exact shallow_nil 11
    | some value => exact .cons (named name value) (shallow_nil 11)
  | apiNote site name message =>
    exact valuesField_shallow site [] rfl
      (.cons (Nat.zero_le 11) (.cons (named name message) (shallow_nil 11)))
  | apiSpanStarted site spanId name =>
    exact valuesField_shallow site [] rfl (shallow_of_scalar rfl 11)
  | apiSpanValue site spanId name value isRedacted =>
    exact valuesField_shallow site [] rfl
      (.cons (Nat.zero_le 11) (.cons (Nat.zero_le 11)
        (.cons (shown name value isRedacted) (shallow_of_scalar rfl 11))))
  | apiSpanFinished site spanId name failure durationNanos =>
    have observed := (shallow_of_scalar rfl 11 :
      Shallow 11 [longField "durationNanos" (max 0 durationNanos)]).map
    refine codeFields_shallow site (.cons (Shallow.map (n := 11) ?_)
      (.cons observed (shallow_nil 12)))
    refine Shallow.append (shallow_of_scalar rfl 11) ?_
    cases failure with
    | none => exact shallow_nil 11
    | some failure => exact shallow_of_scalar rfl 11
  | capabilityMissing capability reason => exact shallow_of_scalar rfl 12
  | inputObserved kind encoded value =>
    exact .cons (shallow_of_scalar rfl 11).map (shallow_nil 12)
  | inputObservedSensitive kind byteCount =>
    exact .cons (shallow_of_scalar rfl 11).map (shallow_nil 12)

/-- Every event stays below the parser's limit. -/
theorem eventFields_nesting (stateHash : Fields → Text) (heap : Heap) (context : EventContext)
    (observation : Observation) :
    (EventValue.map (eventFields stateHash heap context observation)).nesting ≤ maxContainers := by
  have header : Shallow 12 (unhashedFields heap context observation) := by
    refine Shallow.putAll (Shallow.append (shallow_of_scalar rfl 12) ?_)
      (observation.fields_shallow heap)
    cases context.test with
    | none => exact shallow_nil 12
    | some test => exact shallow_of_scalar rfl 12
  have whole : Shallow 12 (eventFields stateHash heap context observation) :=
    header.putField _ (Nat.zero_le 12)
  exact Nat.le_trans whole.map (by decide)

end Walaru.Agent
