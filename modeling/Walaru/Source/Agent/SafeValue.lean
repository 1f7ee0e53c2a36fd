import Walaru.Source.Agent.EventWriter

/-!
# Bounded capture of user values

`SafeValue.java`: from a value of the program, with the objects it reaches in a heap, to
what an event holds of it.
-/
namespace Walaru.Agent
open Lib.Utf16

/-- A reference or a boxed value of the program. -/
inductive JavaValue where
  | null
  | bool (value : Bool)
  | number (value : JavaNumber)
  | character (value : UInt16)
  | string (value : Text)
  | enumeration (name : Text)
  | object (identity : Nat)

/-- A declared field as reflection shows it; an unreadable one refuses its access. -/
structure Field where
  name : Text
  isStatic : Bool
  synthetic : Bool
  readable : Bool
  value : JavaValue

/-- The part of an object that its class decides: elements in iteration order. -/
inductive Shape where
  | array (elements : List JavaValue)
  | collection (set : Bool) (elements : List JavaValue)
  | map (entries : List (JavaValue × JavaValue))
  | plain

/-- An object: its class, whether the bootstrap loader loaded it, its shape and the declared
fields of its class and the superclasses below `Object`. -/
structure JavaObject where
  className : Text
  typeName : Text
  bootstrap : Bool
  shape : Shape
  classes : List (List Field)

/-- Objects by identity. -/
abbrev Heap := Nat → JavaObject

def maxDepth : Nat := 3
def maxFields : Nat := 24
def maxArray : Nat := 32
def maxString : Nat := 256

/-- The units of `toLowerCase(Locale.ROOT)` as far as ASCII letters come out of it. -/
def lowerUnit (u : UInt16) : Text :=
  if 65 ≤ u.toNat ∧ u.toNat ≤ 90 then [u + 32]
  else if u.toNat = 0x212A then [107]
  else if u.toNat = 0x130 then [105, 0x307]
  else [u]

def toLowerCase (name : Text) : Text := name.flatMap lowerUnit

def containsUnits (needle text : Text) : Bool :=
  text.tails.any fun rest => needle.isPrefixOf rest

def secretName (name : Text) : Bool :=
  let lower := toLowerCase name
  ["password", "secret", "token", "credential"].any (fun word => containsUnits (ascii word) lower) ||
    (ascii "key").isSuffixOf lower

/-- `\s` of a pattern. -/
def patternSpace (u : UInt16) : Bool := u.toNat = 32 || (9 ≤ u.toNat && u.toNat ≤ 13)

/-- `[\s_:=\-]`. -/
def patternEdge (u : UInt16) : Bool :=
  patternSpace u || u.toNat = 95 || u.toNat = 58 || u.toNat = 61 || u.toNat = 45

def asciiLower (u : UInt16) : UInt16 := if 65 ≤ u.toNat ∧ u.toNat ≤ 90 then u + 32 else u

def asciiLetterOrDigit (u : UInt16) : Bool :=
  let v := (asciiLower u).toNat
  (97 ≤ v && v ≤ 122) || (48 ≤ v && v ≤ 57)

/-- `[A-Za-z0-9_-]`. -/
def tokenUnit (u : UInt16) : Bool := asciiLetterOrDigit u || u.toNat = 95 || u.toNat = 45

/-- What `$` leaves unmatched: nothing, or one final line terminator. -/
def patternEnd (rest : Text) : Bool :=
  rest = [] || rest = [10] || rest = [13] || rest = [13, 10] || rest = [0x85] ||
    rest = [0x2028] || rest = [0x2029]

def secretWords : List Text :=
  ["password", "passwd", "secret", "token", "credential", "apikey", "api_key", "api-key",
    "privatekey", "private_key", "private-key"].map ascii

/-- A secret word at the start of the text or behind an edge, up to the end or an edge. -/
def wordBehindEdge (atStart : Bool) : Text → Bool
  | [] => false
  | u :: rest =>
    (atStart && secretWords.any fun word =>
      word.isPrefixOf (u :: rest) &&
        let after := (u :: rest).drop word.length
        patternEnd after || after.head?.any patternEdge) ||
    wordBehindEdge (patternEdge u) rest

/-- `^Bearer\s+\S+$`. -/
def bearerValue (lower : Text) : Bool :=
  (ascii "bearer").isPrefixOf lower &&
    let after := lower.drop 6
    let value := after.dropWhile patternSpace
    after.head?.any patternSpace && value.head?.any (fun u => !patternSpace u) &&
      patternEnd (value.dropWhile fun u => !patternSpace u)

/-- `^AKIA[0-9A-Z]{16}$`. -/
def accessKeyValue (lower : Text) : Bool :=
  (ascii "akia").isPrefixOf lower && 20 ≤ lower.length &&
    ((lower.drop 4).take 16).all asciiLetterOrDigit && patternEnd (lower.drop 20)

/-- Three runs of token units, at least 16, 8 and 8 long, separated by points. -/
def dottedToken (text : Text) : Bool :=
  let first := text.takeWhile tokenUnit
  let second := ((text.dropWhile tokenUnit).drop 1).takeWhile tokenUnit
  let tail := (((text.dropWhile tokenUnit).drop 1).dropWhile tokenUnit)
  let third := (tail.drop 1).takeWhile tokenUnit
  16 ≤ first.length && (text.dropWhile tokenUnit).head? = some 46 && 8 ≤ second.length &&
    tail.head? = some 46 && 8 ≤ third.length && patternEnd ((tail.drop 1).dropWhile tokenUnit)

/-- `SECRET_VALUE`, whose letters match either case. -/
def secretValue (value : Text) : Bool :=
  let lower := value.map asciiLower
  wordBehindEdge true lower || bearerValue lower || accessKeyValue lower || dottedToken value

def truncate (value : Text) : Text :=
  if value.length ≤ maxString then value else value.take maxString ++ [0x2026]

def trustedContainer (o : JavaObject) : Bool :=
  o.bootstrap &&
    (["java.util.ArrayList", "java.util.LinkedList", "java.util.ArrayDeque", "java.util.HashSet",
        "java.util.LinkedHashSet", "java.util.TreeSet", "java.util.HashMap",
        "java.util.LinkedHashMap", "java.util.TreeMap", "java.util.EnumMap"].any
        (fun name => o.className = ascii name) ||
      (ascii "java.util.ImmutableCollections$").isPrefixOf o.className)

def unorderedMap (className : Text) : Bool :=
  className = ascii "java.util.HashMap" ||
    (ascii "java.util.ImmutableCollections$Map").isPrefixOf className

def unorderedSet (className : Text) : Bool :=
  className = ascii "java.util.HashSet" ||
    (ascii "java.util.ImmutableCollections$Set").isPrefixOf className

def Integral.className : Integral → String
  | .byte => "java.lang.Byte"
  | .short => "java.lang.Short"
  | .integer => "java.lang.Integer"
  | .long => "java.lang.Long"
  | .bigInteger => "java.math.BigInteger"

def JavaNumber.className : JavaNumber → String
  | .integral kind _ => kind.className
  | .float _ => "java.lang.Float"
  | .double _ => "java.lang.Double"
  | .bigDecimal _ _ => "java.math.BigDecimal"

/-- `String.compareTo` is not positive. -/
def textLe : Text → Text → Bool
  | [], _ => true
  | _ :: _, [] => false
  | u :: us, v :: vs => u < v || (u = v && textLe us vs)

def scalarKey (kind : String) (value : Text) : Text :=
  ascii kind ++ ascii (toString value.length) ++ ascii ":" ++ value

/-- Stable sorting by keys. -/
def sortByKey {α : Type} (key : α → Text) (items : List α) : List α :=
  items.mergeSort fun a b => textLe (key a) (key b)

mutual
/-- `stableSortKey`. -/
def stableSortKey : EventValue → Text
  | .null => ascii "0"
  | .bool value => ascii (if value then "btrue" else "bfalse")
  | .number value =>
    ascii "n" ++ ascii value.className ++ ascii ":" ++ ascii (String.ofList value.text)
  | .text value => scalarKey "s" value
  | .map fields => ascii "\x7b" ++ ((sortByKey Prod.fst (fieldKeys fields)).flatMap Prod.snd) ++
    ascii "\x7d"
  | .list items => ascii "[" ++ itemKeys items ++ ascii "]"
  | .other className => ascii "c" ++ className

/-- The sort keys of the fields beside what each appends. -/
def fieldKeys : List (Text × EventValue) → List (Text × Text)
  | [] => []
  | (name, value) :: fields =>
    (scalarKey "s" name, scalarKey "s" name ++ stableSortKey value) :: fieldKeys fields

def itemKeys : List EventValue → Text
  | [] => []
  | item :: items => stableSortKey item ++ itemKeys items
end

/-- `LinkedHashMap.put`. -/
def putField (name : Text) (value : EventValue) : List (Text × EventValue) → List (Text × EventValue)
  | [] => [(name, value)]
  | field :: fields =>
    if field.1 = name then (name, value) :: fields else field :: putField name value fields

def redacted : EventValue := .text (ascii "<redacted>")

/-- What a captured field shows. -/
def capturedField (inner : JavaValue → EventValue) (field : Field) : EventValue :=
  if secretName field.name then redacted
  else if field.readable then inner field.value
  else .text (ascii "<inaccessible>")

/-- The fields of one class, at most `maxFields` in all. -/
def capturedClass (inner : JavaValue → EventValue) :
    List Field → List (Text × EventValue) → List (Text × EventValue)
  | [], fields => fields
  | field :: rest, fields =>
    if maxFields ≤ fields.length then fields
    else if field.isStatic || field.synthetic then capturedClass inner rest fields
    else capturedClass inner rest (putField field.name (capturedField inner field) fields)

def capturedClasses (inner : JavaValue → EventValue) :
    List (List Field) → List (Text × EventValue) → List (Text × EventValue)
  | [], fields => fields
  | declared :: rest, fields =>
    if maxFields ≤ fields.length then fields
    else capturedClasses inner rest (capturedClass inner declared fields)

/-- A captured array or container. -/
def capturedSequence (typeName : Text) (length : Nat) (key : String) (items : List EventValue) :
    EventValue :=
  .map [(ascii "type", .text typeName), (ascii "length", .number (.integral .integer length)),
    (ascii key, .list items), (ascii "truncated", .bool (maxArray < length))]

/-- One entry of a captured map. -/
def capturedEntry (inner : JavaValue → EventValue) (entry : JavaValue × JavaValue) :
    EventValue × EventValue :=
  (inner entry.1,
    match entry.1 with
    | .string name => if secretName name then redacted else inner entry.2
    | _ => inner entry.2)

/-- What an object shows, with `inner` for what it holds. -/
def capturedObject (inner : JavaValue → EventValue) (o : JavaObject) : EventValue :=
  let plain : EventValue :=
    let fields := capturedClasses inner o.classes []
    .map [(ascii "type", .text o.className), (ascii "fields", .map fields),
      (ascii "truncated", .bool (maxFields ≤ fields.length))]
  match o.shape with
  | .array elements =>
    capturedSequence o.typeName elements.length "items" ((elements.take maxArray).map inner)
  | .collection set elements =>
    if trustedContainer o then
      let unordered := set && unorderedSet o.className
      let items :=
        if !unordered || elements.length ≤ maxArray then (elements.take maxArray).map inner else []
      capturedSequence o.className elements.length "items"
        (if unordered then sortByKey stableSortKey items else items)
    else plain
  | .map entries =>
    if trustedContainer o then
      let unordered := unorderedMap o.className
      let captured :=
        if !unordered || entries.length ≤ maxArray then
          (entries.take maxArray).map (capturedEntry inner)
        else []
      let sorted :=
        if unordered then
          captured.mergeSort fun a b =>
            if stableSortKey a.1 = stableSortKey b.1 then
              textLe (stableSortKey a.2) (stableSortKey b.2)
            else textLe (stableSortKey a.1) (stableSortKey b.1)
        else captured
      capturedSequence o.className entries.length "entries"
        (sorted.map fun entry => .map [(ascii "key", entry.1), (ascii "value", entry.2)])
    else plain
  | .plain => plain

/-- An object that is not looked into, and why. -/
def marked (className : Text) (why : String) : EventValue :=
  .map [(ascii "type", .text className), (ascii why, .bool true)]

/-- `capture` with this many levels of objects left and the objects above it. -/
def captureBelow (heap : Heap) : Nat → List Nat → JavaValue → EventValue
  | _, _, .null => .null
  | _, _, .bool value => .bool value
  | _, _, .number value => .number value
  | _, _, .character value => .text [value]
  | _, _, .string value => if secretValue value then redacted else .text (truncate value)
  | _, _, .enumeration name => .text name
  | levels, seen, .object identity =>
    if identity ∈ seen then marked (heap identity).className "cycle"
    else
      match levels with
      | 0 => marked (heap identity).className "truncated"
      | levels + 1 => capturedObject (captureBelow heap levels (identity :: seen)) (heap identity)

def capture (heap : Heap) (value : JavaValue) : EventValue := captureBelow heap maxDepth [] value

def captureNamed (heap : Heap) (name : Text) (value : JavaValue) : EventValue :=
  if secretName name then redacted else capture heap value

end Walaru.Agent
