import Walaru.Lib.Text

/-!
# The JSON values the daemon reads

`serde_json::Value` with its accessors. An object is its list of members; the
parser keeps the member names unique and in order, and `insertField` keeps them
so. A float is its bit pattern.
-/
namespace Walaru

inductive Number where
  | posInt (value : Nat)
  | negInt (value : Int)
  | float (bits : UInt64)
  deriving DecidableEq, Repr

inductive Json where
  | null
  | bool (value : Bool)
  | number (value : Number)
  | string (value : String)
  | array (items : List Json)
  | object (fields : List (String × Json))
  deriving Repr

namespace Json

mutual
/-- Structural equality, as the derived `PartialEq` of the source decides it. -/
def decEq : (a b : Json) → Decidable (a = b)
  | .null, .null => isTrue rfl
  | .bool a, .bool b =>
    if h : a = b then isTrue (h ▸ rfl) else isFalse fun e => h (Json.bool.inj e)
  | .number a, .number b =>
    if h : a = b then isTrue (h ▸ rfl) else isFalse fun e => h (Json.number.inj e)
  | .string a, .string b =>
    if h : a = b then isTrue (h ▸ rfl) else isFalse fun e => h (Json.string.inj e)
  | .array a, .array b =>
    match decEqList a b with
    | isTrue h => isTrue (h ▸ rfl)
    | isFalse h => isFalse fun e => h (Json.array.inj e)
  | .object a, .object b =>
    match decEqFields a b with
    | isTrue h => isTrue (h ▸ rfl)
    | isFalse h => isFalse fun e => h (Json.object.inj e)
  | .null, .bool _ | .null, .number _ | .null, .string _ | .null, .array _ | .null, .object _
  | .bool _, .null | .bool _, .number _ | .bool _, .string _ | .bool _, .array _
  | .bool _, .object _ | .number _, .null | .number _, .bool _ | .number _, .string _
  | .number _, .array _ | .number _, .object _ | .string _, .null | .string _, .bool _
  | .string _, .number _ | .string _, .array _ | .string _, .object _ | .array _, .null
  | .array _, .bool _ | .array _, .number _ | .array _, .string _ | .array _, .object _
  | .object _, .null | .object _, .bool _ | .object _, .number _ | .object _, .string _
  | .object _, .array _ => isFalse nofun

def decEqList : (a b : List Json) → Decidable (a = b)
  | [], [] => isTrue rfl
  | a :: as, b :: bs =>
    match decEq a b, decEqList as bs with
    | isTrue h, isTrue hs => isTrue (h ▸ hs ▸ rfl)
    | isFalse h, _ => isFalse fun e => h (List.cons.inj e).1
    | _, isFalse hs => isFalse fun e => hs (List.cons.inj e).2
  | [], _ :: _ | _ :: _, [] => isFalse nofun

def decEqFields : (a b : List (String × Json)) → Decidable (a = b)
  | [], [] => isTrue rfl
  | (k, a) :: as, (l, b) :: bs =>
    if hk : k = l then
      match decEq a b, decEqFields as bs with
      | isTrue h, isTrue hs => isTrue (hk ▸ h ▸ hs ▸ rfl)
      | isFalse h, _ => isFalse fun e => h (Prod.mk.inj (List.cons.inj e).1).2
      | _, isFalse hs => isFalse fun e => hs (List.cons.inj e).2
    else isFalse fun e => hk (Prod.mk.inj (List.cons.inj e).1).1
  | [], _ :: _ | _ :: _, [] => isFalse nofun
end

instance : DecidableEq Json := decEq

/-- `Value::get` with a member name. -/
def get (key : String) : Json → Option Json
  | .object fields => fields.lookup key
  | _ => none

def asStr : Json → Option String
  | .string value => some value
  | _ => none

def asBool : Json → Option Bool
  | .bool value => some value
  | _ => none

def asU64 : Json → Option Nat
  | .number (.posInt value) => some value
  | _ => none

def asArray : Json → Option (List Json)
  | .array items => some items
  | _ => none

def asObject : Json → Option (List (String × Json))
  | .object fields => some fields
  | _ => none

def getStr (key : String) (value : Json) : Option String := (value.get key).bind asStr

def getBool (key : String) (value : Json) : Option Bool := (value.get key).bind asBool

def getU64 (key : String) (value : Json) : Option Nat := (value.get key).bind asU64

def emptyObject : Json := .object []

/-- `Map::insert`: replace the member, or add it at its place in name order. -/
def insertField (key : String) (value : Json) : List (String × Json) → List (String × Json)
  | [] => [(key, value)]
  | (k, v) :: rest =>
    match compare key k with
    | .lt => (key, value) :: (k, v) :: rest
    | .eq => (key, value) :: rest
    | .gt => (k, v) :: insertField key value rest

def removeField (key : String) (fields : List (String × Json)) : List (String × Json) :=
  fields.filter fun field => field.1 != key

end Json

end Walaru
