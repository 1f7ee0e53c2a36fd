import Walaru.Source.Agent.SafeValue

/-!
# The events of the agent

`AgentBridge.java`: the fields that every observation puts into its event. The names of
the public interface are bounded here, since a value is redacted by the whole name; the
other texts are the ones put, shortened and redacted as the bridge does before.
-/
namespace Walaru.Agent

abbrev Fields := List (Text × EventValue)

def textField (name : String) (value : Text) : Text × EventValue := (ascii name, .text value)

def boolField (name : String) (value : Bool) : Text × EventValue := (ascii name, .bool value)

def intField (name : String) (value : Int) : Text × EventValue :=
  (ascii name, .number (.integral .integer value))

def longField (name : String) (value : Int) : Text × EventValue :=
  (ascii name, .number (.integral .long value))

def mapField (name : String) (fields : Fields) : Text × EventValue := (ascii name, .map fields)

def putAll (fields supplied : Fields) : Fields :=
  supplied.foldl (fun fields field => putField field.1 field.2 fields) fields

/-- A frame of a coroutine's logical stack. -/
structure LogicalFrame where
  className : Text
  method : Text
  path : Text
  line : Int

def logicalFrame (frame : LogicalFrame) : EventValue :=
  .map [textField "className" frame.className, textField "method" frame.method,
    textField "path" frame.path, intField "line" (max 1 frame.line)]

/-- Where an event comes from; a coroutine has a logical stack. -/
structure Site where
  owner : Text
  method : Text
  descriptor : Text
  path : Text
  line : Int
  coroutine : Option (List LogicalFrame)

structure FieldTarget where
  owner : Text
  field : Text
  descriptor : Text
  isVolatile : Bool
  isStatic : Bool

/-- What a finished test shows of a failure. -/
structure ShownFailure where
  type : Text
  message : Text
  frames : List Text

/-- What the bridge emits, with the program's values that it captures. -/
inductive Observation where
  | testStarted (testId testName : Text)
  | testFinished (testId : Text) (testName : Option Text) (status : Text)
      (failure : Option ShownFailure)
  | methodEntered (site : Site) (arguments : List JavaValue)
  | methodExited (site : Site) (threw : Bool)
  | line (site : Site) (values : Option (JavaValue × List JavaValue))
  | call (site : Site) (targetOwner targetMethod targetDescriptor : Text)
  | write (site : Site) (target : FieldTarget) (values : Option (JavaValue × JavaValue))
  | read (site : Site) (target : FieldTarget) (receiver value : JavaValue)
  | arrayWrite (site : Site) (array : JavaValue) (typeName : Text) (index : Int) (value : JavaValue)
  | arrayRead (site : Site) (typeName : Text) (index : Int) (value : JavaValue)
  | monitor (site : Site) (action kind : Text) (receiver : JavaValue)
  | apiCapture (site : Site) (name : Text) (value : JavaValue) (isRedacted : Bool)
  | apiCheckpoint (site : Site) (name : Text) (value : Option JavaValue)
  | apiNote (site : Site) (name : Text) (message : JavaValue)
  | apiSpanStarted (site : Site) (spanId name : Text)
  | apiSpanValue (site : Site) (spanId name : Text) (value : JavaValue) (isRedacted : Bool)
  | apiSpanFinished (site : Site) (spanId name : Text) (failure : Option (Text × Text))
      (durationNanos : Int)
  | capabilityMissing (capability reason : Text)
  | inputObserved (kind encoded value : Text)
  | inputObservedSensitive (kind : Text) (byteCount : Nat)

/-- `emitCode`: the place of an event and what the event adds to it. -/
def codeFields (site : Site) (extra : Fields) : Fields :=
  putAll
    ([textField "owner" site.owner, textField "method" site.method,
      textField "descriptor" site.descriptor, textField "path" site.path,
      intField "line" (max 1 site.line)] ++
      match site.coroutine with
      | none => []
      | some stack =>
        [boolField "coroutine" true, (ascii "logicalStack", .list (stack.map logicalFrame))])
    extra

/-- The fields that describe a field access, also part of its values. -/
def targetFields (target : FieldTarget) : Fields :=
  [textField "targetKind" (ascii "field"), textField "targetOwner" target.owner,
    textField "field" target.field, textField "fieldDescriptor" target.descriptor,
    boolField "volatile" target.isVolatile, boolField "static" target.isStatic]

def accessedValues (heap : Heap) (target : FieldTarget) (receiver value : JavaValue) : Fields :=
  [(ascii "receiver", capture heap receiver),
    (ascii "value", captureNamed heap target.field value)]

def arrayFields (typeName : Text) (index : Int) : Fields :=
  [textField "targetKind" (ascii "array"), textField "targetOwner" typeName, intField "index" index]

/-- `Character.isWhitespace` of a unit. -/
def whitespace (u : UInt16) : Bool :=
  let v := u.toNat
  (9 ≤ v && v ≤ 13) || (28 ≤ v && v ≤ 32) || v = 0x1680 ||
    (0x2000 ≤ v && v ≤ 0x200A && v ≠ 0x2007) || v = 0x2028 || v = 0x2029 || v = 0x205F || v = 0x3000

def boundedText (value : Text) (maxLength : Nat) : Text :=
  if value.all whitespace then ascii "unknown" else value.take maxLength

/-- The fields that name a value, a note or a span of the public interface. -/
def nameField (name : Text) : Text × EventValue := textField "name" (boundedText name 256)

def spanField (spanId : Text) : Text × EventValue := textField "spanId" (boundedText spanId 128)

/-- A value of the public interface under its name. -/
def namedValue (heap : Heap) (name : Text) (value : JavaValue) (isRedacted : Bool) : EventValue :=
  if isRedacted then redacted else captureNamed heap name value

def failureFields (failure : ShownFailure) : Fields :=
  [textField "failureType" failure.type, textField "message" failure.message,
    (ascii "frames", .list (failure.frames.map .text))]

def Observation.type : Observation → String
  | .testStarted .. => "TEST_START"
  | .testFinished .. => "TEST_FINISH"
  | .methodEntered .. => "METHOD_ENTER"
  | .methodExited .. => "METHOD_EXIT"
  | .line .. => "LINE"
  | .call .. => "CALL"
  | .write .. => "WRITE"
  | .read .. => "READ"
  | .arrayWrite .. => "WRITE"
  | .arrayRead .. => "READ"
  | .monitor .. => "MONITOR"
  | .apiCapture .. => "CAPTURE"
  | .apiCheckpoint .. => "CHECKPOINT"
  | .apiNote .. => "NOTE"
  | .apiSpanStarted .. => "SPAN_START"
  | .apiSpanValue .. => "SPAN_VALUE"
  | .apiSpanFinished .. => "SPAN_END"
  | .capabilityMissing .. => "CAPABILITY"
  | .inputObserved .. => "INPUT"
  | .inputObservedSensitive .. => "INPUT"

/-- The fields that the bridge supplies to its emitter. -/
def Observation.fields (heap : Heap) : Observation → Fields
  | .testStarted testId testName => [textField "testId" testId, textField "testName" testName]
  | .testFinished testId testName status failure =>
    [textField "testId" testId] ++ (testName.map (textField "testName")).toList ++
      [textField "status" status] ++ failure.elim [] failureFields
  | .methodEntered site arguments =>
    codeFields site [(ascii "values", .list (arguments.map (capture heap)))]
  | .methodExited site threw => codeFields site [boolField "threw" threw]
  | .line site values =>
    codeFields site [mapField "values" (values.elim [] fun (receiver, arguments) =>
      [(ascii "this", capture heap receiver),
        (ascii "arguments", .list (arguments.map (capture heap)))])]
  | .call site targetOwner targetMethod targetDescriptor =>
    codeFields site [textField "targetOwner" targetOwner, textField "targetMethod" targetMethod,
      textField "targetDescriptor" targetDescriptor]
  | .write site target values =>
    codeFields site (targetFields target ++ [mapField "values"
      (values.elim [] (fun (receiver, value) => accessedValues heap target receiver value) ++
        targetFields target)])
  | .read site target receiver value =>
    codeFields site (targetFields target ++ [mapField "values"
      (accessedValues heap target receiver value ++ targetFields target)])
  | .arrayWrite site array typeName index value =>
    codeFields site (arrayFields typeName index ++ [mapField "values"
      ([(ascii "receiver", capture heap array), (ascii "value", capture heap value)] ++
        arrayFields typeName index)])
  | .arrayRead site typeName index value =>
    codeFields site (arrayFields typeName index ++ [mapField "values"
      (arrayFields typeName index ++ [(ascii "value", capture heap value)])])
  | .monitor site action kind receiver =>
    codeFields site [textField "action" action, textField "monitorKind" kind, mapField "values"
      [textField "action" action, textField "monitorKind" kind,
        (ascii "monitor", capture heap receiver)]]
  | .apiCapture site name value isRedacted =>
    codeFields site [mapField "values" [nameField name,
      (ascii "value", namedValue heap name value isRedacted), boolField "redacted" isRedacted]]
  | .apiCheckpoint site name value =>
    codeFields site [mapField "values" (nameField name ::
      value.elim [] fun value => [(ascii "value", captureNamed heap name value)])]
  | .apiNote site name message =>
    codeFields site [mapField "values" [nameField name,
      (ascii "message", captureNamed heap name message)]]
  | .apiSpanStarted site spanId name =>
    codeFields site [mapField "values" [spanField spanId, nameField name]]
  | .apiSpanValue site spanId name value isRedacted =>
    codeFields site [mapField "values" [spanField spanId, nameField name,
      (ascii "value", namedValue heap name value isRedacted), boolField "redacted" isRedacted]]
  | .apiSpanFinished site spanId name failure durationNanos =>
    codeFields site [mapField "values" ([spanField spanId, nameField name,
        textField "status" (ascii (if failure.isNone then "ok" else "failed"))] ++
        failure.elim [] fun (type, message) =>
          [textField "failureType" type, textField "message" message]),
      mapField "observations" [longField "durationNanos" (max 0 durationNanos)]]
  | .capabilityMissing capability reason =>
    [textField "capability" capability, boolField "available" false, textField "reason" reason]
  | .inputObserved kind encoded value =>
    [mapField "values" [textField "kind" kind, textField "encoded" encoded,
      textField "value" value]]
  | .inputObservedSensitive kind byteCount =>
    [mapField "values" [textField "kind" kind, boolField "sensitive" true,
      textField "value" (ascii "<redacted:file-input " ++ ascii (toString byteCount) ++
        ascii " bytes>")]]

/-- The thread and the test of an event. -/
structure EventContext where
  sequence : Nat
  threadId : Nat
  threadKey : Text
  virtualThread : Bool
  projectPath : Text
  test : Option (Text × Text)

/-- `emitForTest`, up to the hash of the state. -/
def unhashedFields (heap : Heap) (context : EventContext) (observation : Observation) : Fields :=
  putAll
    ([intField "schemaVersion" 1, longField "sequence" context.sequence,
      longField "threadId" context.threadId, textField "threadKey" context.threadKey,
      boolField "virtualThread" context.virtualThread, textField "type" (ascii observation.type),
      textField "module" context.projectPath] ++
      context.test.elim [] fun (testId, testName) =>
        [textField "testId" testId, textField "testName" testName])
    (observation.fields heap)

/-- The fields of the written event; `stateHash` is the hash of the fields before it. -/
def eventFields (stateHash : Fields → Text) (heap : Heap) (context : EventContext)
    (observation : Observation) : Fields :=
  let fields := unhashedFields heap context observation
  putField (ascii "stateHash") (.text (stateHash fields)) fields

end Walaru.Agent
