import Walaru.Source.Agent.AgentEvents
import Walaru.Source.Agent.CaptureSize

/-!
# How long an event is

The sizes of an event's fields, computed from the observation and the heap. A field that
is put again replaces the earlier one, as in the event itself.
-/
namespace Walaru.Agent
open Lib.Utf16

/-- The fields of a map, each with what its value takes. -/
abbrev Sizes := List (String × Nat)

def putSize (name : String) (bytes : Nat) : Sizes → Sizes
  | [] => [(name, bytes)]
  | size :: sizes => if size.1 = name then (name, bytes) :: sizes else size :: putSize name bytes sizes

def putSizes (sizes supplied : Sizes) : Sizes :=
  supplied.foldl (fun sizes size => putSize size.1 size.2 sizes) sizes

/-- What a map of these fields takes. -/
def membersBytes (sizes : Sizes) : Nat :=
  containerBytes (sizes.map fun size => memberBytes (ascii size.1) size.2)

def textSize (name : String) (value : Text) : String × Nat := (name, textBytes value)

def boolSize (name : String) (value : Bool) : String × Nat := (name, boolBytes value)

def intSize (name : String) (value : Int) : String × Nat := (name, decimalBytes value)

def mapSize (name : String) (sizes : Sizes) : String × Nat := (name, membersBytes sizes)

def listSize (name : String) (items : List Nat) : String × Nat := (name, containerBytes items)

def captureSize (heap : Heap) (value : JavaValue) : Nat := captureBytes heap maxDepth [] value

def namedSize (heap : Heap) (name : Text) (value : JavaValue) : Nat :=
  if secretName name then redactedBytes else captureSize heap value

def shownSize (heap : Heap) (name : Text) (value : JavaValue) (isRedacted : Bool) : Nat :=
  if isRedacted then redactedBytes else namedSize heap name value

def frameSizes (frame : LogicalFrame) : Sizes :=
  [textSize "className" frame.className, textSize "method" frame.method, textSize "path" frame.path,
    intSize "line" (max 1 frame.line)]

def codeSizes (site : Site) (extra : Sizes) : Sizes :=
  putSizes
    ([textSize "owner" site.owner, textSize "method" site.method,
      textSize "descriptor" site.descriptor, textSize "path" site.path,
      intSize "line" (max 1 site.line)] ++
      match site.coroutine with
      | none => []
      | some stack =>
        [boolSize "coroutine" true,
          listSize "logicalStack" (stack.map fun frame => membersBytes (frameSizes frame))])
    extra

def targetSizes (target : FieldTarget) : Sizes :=
  [textSize "targetKind" (ascii "field"), textSize "targetOwner" target.owner,
    textSize "field" target.field, textSize "fieldDescriptor" target.descriptor,
    boolSize "volatile" target.isVolatile, boolSize "static" target.isStatic]

def accessedSizes (heap : Heap) (target : FieldTarget) (receiver value : JavaValue) : Sizes :=
  [("receiver", captureSize heap receiver), ("value", namedSize heap target.field value)]

def arraySizes (typeName : Text) (index : Int) : Sizes :=
  [textSize "targetKind" (ascii "array"), textSize "targetOwner" typeName, intSize "index" index]

def nameSize (name : Text) : String × Nat := textSize "name" (boundedText name 256)

def spanSize (spanId : Text) : String × Nat := textSize "spanId" (boundedText spanId 128)

def failureSizes (failure : ShownFailure) : Sizes :=
  [textSize "failureType" failure.type, textSize "message" failure.message,
    listSize "frames" (failure.frames.map textBytes)]

/-- The sizes of the fields that an observation supplies. -/
def Observation.sizes (heap : Heap) : Observation → Sizes
  | .testStarted testId testName => [textSize "testId" testId, textSize "testName" testName]
  | .testFinished testId testName status failure =>
    [textSize "testId" testId] ++ (testName.map (textSize "testName")).toList ++
      [textSize "status" status] ++ failure.elim [] failureSizes
  | .methodEntered site arguments =>
    codeSizes site [listSize "values" (arguments.map (captureSize heap))]
  | .methodExited site threw => codeSizes site [boolSize "threw" threw]
  | .line site values =>
    codeSizes site [mapSize "values" (values.elim [] fun (receiver, arguments) =>
      [("this", captureSize heap receiver),
        listSize "arguments" (arguments.map (captureSize heap))])]
  | .call site targetOwner targetMethod targetDescriptor =>
    codeSizes site [textSize "targetOwner" targetOwner, textSize "targetMethod" targetMethod,
      textSize "targetDescriptor" targetDescriptor]
  | .write site target values =>
    codeSizes site (targetSizes target ++ [mapSize "values"
      (values.elim [] (fun (receiver, value) => accessedSizes heap target receiver value) ++
        targetSizes target)])
  | .read site target receiver value =>
    codeSizes site (targetSizes target ++ [mapSize "values"
      (accessedSizes heap target receiver value ++ targetSizes target)])
  | .arrayWrite site array typeName index value =>
    codeSizes site (arraySizes typeName index ++ [mapSize "values"
      ([("receiver", captureSize heap array), ("value", captureSize heap value)] ++
        arraySizes typeName index)])
  | .arrayRead site typeName index value =>
    codeSizes site (arraySizes typeName index ++ [mapSize "values"
      (arraySizes typeName index ++ [("value", captureSize heap value)])])
  | .monitor site action kind receiver =>
    codeSizes site [textSize "action" action, textSize "monitorKind" kind, mapSize "values"
      [textSize "action" action, textSize "monitorKind" kind,
        ("monitor", captureSize heap receiver)]]
  | .apiCapture site name value isRedacted =>
    codeSizes site [mapSize "values" [nameSize name,
      ("value", shownSize heap name value isRedacted), boolSize "redacted" isRedacted]]
  | .apiCheckpoint site name value =>
    codeSizes site [mapSize "values" (nameSize name ::
      value.elim [] fun value => [("value", namedSize heap name value)])]
  | .apiNote site name message =>
    codeSizes site [mapSize "values" [nameSize name, ("message", namedSize heap name message)]]
  | .apiSpanStarted site spanId name =>
    codeSizes site [mapSize "values" [spanSize spanId, nameSize name]]
  | .apiSpanValue site spanId name value isRedacted =>
    codeSizes site [mapSize "values" [spanSize spanId, nameSize name,
      ("value", shownSize heap name value isRedacted), boolSize "redacted" isRedacted]]
  | .apiSpanFinished site spanId name failure durationNanos =>
    codeSizes site [mapSize "values" ([spanSize spanId, nameSize name,
        textSize "status" (ascii (if failure.isNone then "ok" else "failed"))] ++
        failure.elim [] fun (type, message) =>
          [textSize "failureType" type, textSize "message" message]),
      mapSize "observations" [intSize "durationNanos" (max 0 durationNanos)]]
  | .capabilityMissing capability reason =>
    [textSize "capability" capability, boolSize "available" false, textSize "reason" reason]
  | .inputObserved kind encoded value =>
    [mapSize "values" [textSize "kind" kind, textSize "encoded" encoded, textSize "value" value]]
  | .inputObservedSensitive kind byteCount =>
    [mapSize "values" [textSize "kind" kind, boolSize "sensitive" true,
      textSize "value" (ascii "<redacted:file-input " ++ ascii (toString byteCount) ++
        ascii " bytes>")]]

/-- What the hexadecimal hash of the state takes. -/
def stateHashBytes : Nat := 34

/-- The sizes of the fields of a written event. -/
def eventSizes (heap : Heap) (context : EventContext) (observation : Observation) : Sizes :=
  putSize "stateHash" stateHashBytes
    (putSizes
      ([intSize "schemaVersion" 1, intSize "sequence" context.sequence,
        intSize "threadId" context.threadId, textSize "threadKey" context.threadKey,
        boolSize "virtualThread" context.virtualThread,
        textSize "type" (ascii observation.type), textSize "module" context.projectPath] ++
        context.test.elim [] fun (testId, testName) =>
          [textSize "testId" testId, textSize "testName" testName])
      (observation.sizes heap))

/-- The fields have these names and their values these sizes, in this order. -/
def Sized (fields : Fields) (sizes : Sizes) : Prop :=
  fields.map (fun field => (field.1, valueBytes field.2)) = sizes.map fun size => (ascii size.1, size.2)

namespace Sized

theorem nil : Sized [] [] := rfl

theorem cons {name : String} {value : EventValue} {bytes : Nat} {fields : Fields} {sizes : Sizes}
    (own : valueBytes value = bytes) (rest : Sized fields sizes) :
    Sized ((ascii name, value) :: fields) ((name, bytes) :: sizes) := by
  rw [Sized, List.map_cons, List.map_cons, rest, own]

theorem append {a b : Fields} {s t : Sizes} (first : Sized a s) (second : Sized b t) :
    Sized (a ++ b) (s ++ t) := by
  rw [Sized, List.map_append, List.map_append, first, second]

theorem bytes {fields : Fields} {sizes : Sizes} (sized : Sized fields sizes) :
    valueBytes (.map fields) = membersBytes sizes := by
  have members := congrArg (List.map fun pair : Text × Nat => memberBytes pair.1 pair.2) sized
  rw [List.map_map, List.map_map] at members
  rw [valueBytes, fieldSizes_eq, membersBytes]
  exact congrArg containerBytes members

theorem putField {fields : Fields} {sizes : Sizes} (sized : Sized fields sizes) (name : String)
    {value : EventValue} {bytes : Nat} (own : valueBytes value = bytes) :
    Sized (putField (ascii name) value fields) (putSize name bytes sizes) := by
  induction fields generalizing sizes with
  | nil =>
    cases sizes with
    | nil => exact .cons own .nil
    | cons size sizes => cases sized
  | cons field fields ih =>
    cases sizes with
    | nil => cases sized
    | cons size sizes =>
      obtain ⟨first, rest⟩ := List.cons.inj sized
      obtain ⟨label, shown⟩ := field
      obtain ⟨sizeName, shownBytes⟩ := size
      obtain ⟨rfl, measured⟩ := Prod.mk.inj first
      rw [Agent.putField, putSize]
      by_cases same : sizeName = name
      · rw [if_pos same, if_pos (congrArg ascii same)]
        exact .cons own rest
      · have texts : ascii sizeName ≠ ascii name := fun equal => same (encode_injective equal)
        rw [if_neg same, if_neg texts]
        exact .cons measured (ih rest)

theorem putAll {fields supplied : Fields} {sizes others : Sizes} (sized : Sized fields sizes)
    (more : Sized supplied others) : Sized (putAll fields supplied) (putSizes sizes others) := by
  induction supplied generalizing fields sizes others with
  | nil =>
    cases others with
    | nil => exact sized
    | cons size others => cases more
  | cons field supplied ih =>
    cases others with
    | nil => cases more
    | cons size others =>
      obtain ⟨first, rest⟩ := List.cons.inj more
      obtain ⟨label, value⟩ := field
      obtain ⟨name, bytes⟩ := size
      obtain ⟨rfl, measured⟩ := Prod.mk.inj first
      have later := ih (sized.putField name measured) rest
      exact later

end Sized

theorem valueBytes_capture (heap : Heap) (value : JavaValue) :
    valueBytes (capture heap value) = captureSize heap value :=
  valueBytes_captureBelow heap maxDepth [] value

theorem valueBytes_captureNamed (heap : Heap) (name : Text) (value : JavaValue) :
    valueBytes (captureNamed heap name value) = namedSize heap name value := by
  unfold captureNamed namedSize
  split
  · rfl
  · exact valueBytes_capture heap value

theorem valueBytes_namedValue (heap : Heap) (name : Text) (value : JavaValue) (isRedacted : Bool) :
    valueBytes (namedValue heap name value isRedacted) = shownSize heap name value isRedacted := by
  unfold namedValue shownSize
  split
  · rfl
  · exact valueBytes_captureNamed heap name value

theorem valueBytes_arguments (heap : Heap) (arguments : List JavaValue) :
    valueBytes (.list (arguments.map (capture heap))) =
      containerBytes (arguments.map (captureSize heap)) := by
  rw [valueBytes, itemSizes_eq, List.map_map]
  exact congrArg containerBytes (List.map_congr_left fun value _ => valueBytes_capture heap value)

theorem codeFields_sized (site : Site) {extra : Fields} {sizes : Sizes} (sized : Sized extra sizes) :
    Sized (codeFields site extra) (codeSizes site sizes) := by
  refine Sized.putAll (Sized.append rfl ?_) sized
  cases site.coroutine with
  | none => exact .nil
  | some stack =>
    refine .cons rfl (.cons ?_ .nil)
    have frames : ∀ frame, valueBytes (logicalFrame frame) = membersBytes (frameSizes frame) :=
      fun frame => Sized.bytes rfl
    rw [valueBytes, itemSizes_eq, List.map_map]
    exact congrArg containerBytes (List.map_congr_left fun frame _ => frames frame)

theorem accessedValues_sized (heap : Heap) (target : FieldTarget) (receiver value : JavaValue) :
    Sized (accessedValues heap target receiver value) (accessedSizes heap target receiver value) :=
  .cons (valueBytes_capture heap receiver)
    (.cons (valueBytes_captureNamed heap target.field value) .nil)

/-- The values of an event, behind the fields before them. -/
theorem valuesField_sized (site : Site) {before : Fields} {beforeSizes : Sizes} {values : Fields}
    {sizes : Sizes} (plain : Sized before beforeSizes) (sized : Sized values sizes) :
    Sized (codeFields site (before ++ [mapField "values" values]))
      (codeSizes site (beforeSizes ++ [mapSize "values" sizes])) :=
  codeFields_sized site (plain.append (.cons sized.bytes .nil))

/-- The fields that an observation supplies have its sizes. -/
theorem Observation.sized (heap : Heap) (observation : Observation) :
    Sized (observation.fields heap) (observation.sizes heap) := by
  have captured := valueBytes_capture heap
  have arguments := valueBytes_arguments heap
  cases observation with
  | testStarted testId testName => rfl
  | testFinished testId testName status failure =>
    refine Sized.append (Sized.append (Sized.append rfl ?_) rfl) ?_
    · cases testName with
      | none => exact .nil
      | some testName => rfl
    · cases failure with
      | none => exact .nil
      | some failure =>
        refine .cons rfl (.cons rfl (.cons ?_ .nil))
        rw [valueBytes, itemSizes_eq, List.map_map]
        rfl
  | methodEntered site values => exact codeFields_sized site (.cons (arguments values) .nil)
  | methodExited site threw => exact codeFields_sized site rfl
  | line site values =>
    refine codeFields_sized site (.cons (Sized.bytes ?_) .nil)
    cases values with
    | none => exact .nil
    | some values => exact .cons (captured values.1) (.cons (arguments values.2) .nil)
  | call site targetOwner targetMethod targetDescriptor => exact codeFields_sized site rfl
  | write site target values =>
    refine valuesField_sized site rfl (Sized.append ?_ rfl)
    cases values with
    | none => exact .nil
    | some values => exact accessedValues_sized heap target values.1 values.2
  | read site target receiver value =>
    exact valuesField_sized site rfl (.append (accessedValues_sized heap target receiver value) rfl)
  | arrayWrite site array typeName index value =>
    exact valuesField_sized site rfl
      (.append (.cons (captured array) (.cons (captured value) .nil)) rfl)
  | arrayRead site typeName index value =>
    exact valuesField_sized site rfl (.append rfl (.cons (captured value) .nil))
  | monitor site action kind receiver =>
    exact codeFields_sized site (.cons rfl (.cons rfl (.cons
      (Sized.bytes (.cons rfl (.cons rfl (.cons (captured receiver) .nil)))) .nil)))
  | apiCapture site name value isRedacted =>
    exact codeFields_sized site (.cons (Sized.bytes (.cons rfl
      (.cons (valueBytes_namedValue heap name value isRedacted) (.cons rfl .nil)))) .nil)
  | apiCheckpoint site name value =>
    refine codeFields_sized site (.cons (Sized.bytes (.cons rfl ?_)) .nil)
    cases value with
    | none => exact .nil
    | some value => exact .cons (valueBytes_captureNamed heap name value) .nil
  | apiNote site name message =>
    exact codeFields_sized site (.cons (Sized.bytes (.cons rfl
      (.cons (valueBytes_captureNamed heap name message) .nil))) .nil)
  | apiSpanStarted site spanId name => exact codeFields_sized site rfl
  | apiSpanValue site spanId name value isRedacted =>
    exact codeFields_sized site (.cons (Sized.bytes (.cons rfl (.cons rfl
      (.cons (valueBytes_namedValue heap name value isRedacted) (.cons rfl .nil))))) .nil)
  | apiSpanFinished site spanId name failure durationNanos =>
    refine codeFields_sized site (.cons (Sized.bytes (Sized.append rfl ?_)) (.cons rfl .nil))
    cases failure with
    | none => exact .nil
    | some failure => rfl
  | capabilityMissing capability reason => rfl
  | inputObserved kind encoded value => rfl
  | inputObservedSensitive kind byteCount => rfl

theorem eventFields_sized {stateHash : Fields → Text}
    (hashed : ∀ fields, textBytes (stateHash fields) = stateHashBytes) (heap : Heap)
    (context : EventContext) (observation : Observation) :
    Sized (eventFields stateHash heap context observation) (eventSizes heap context observation) := by
  refine Sized.putField ?_ "stateHash" (hashed _)
  refine Sized.putAll ?_ (observation.sized heap)
  refine Sized.append rfl ?_
  cases context.test with
  | none => exact .nil
  | some test => rfl

end Walaru.Agent
