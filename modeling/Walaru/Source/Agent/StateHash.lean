import Mathlib.Data.List.Perm.Basic
import Walaru.Lib.Framing
import Walaru.Lib.Text
import Walaru.Source.Agent.AgentEvents
import Walaru.Source.Agent.NumberText

/-!
# The hash of an event's state

`AgentBridge.stateHash` and `updateDigest`: the bytes that an event's fields feed to
the digest. Maps are sorted by key; scalars carry a tag and their length.
-/
namespace Walaru.Agent
open Lib.Decimals Lib.Framing Lib.Text Lib.Utf16

/-- `getBytes(StandardCharsets.UTF_8)`, in which an unpaired surrogate is a question mark. -/
def getBytes (value : Text) : List UInt8 := utf8 (String.ofList (decode value))

def updateScalar (kind : Char) (bytes : List UInt8) : List UInt8 :=
  UInt8.ofNat kind.toNat :: decimalFrame bytes

/-- `stableMapKey` of a string. -/
def stableMapKey (key : Text) : Text := ascii "s:" ++ key

/-- `compareTo` is at most zero. -/
def keyLe (a b : Text) : Bool := textLe (stableMapKey a) (stableMapKey b)

mutual
def updateDigest : EventValue → List UInt8
  | .null => [48]
  | .text value => updateScalar 's' (getBytes value)
  | .number value =>
    updateScalar 'n' (utf8 (value.className ++ ":" ++ String.ofList value.text))
  | .bool value => updateScalar 'b' (utf8 (if value then "true" else "false"))
  | .map fields =>
    123 :: ((entryDigests fields).mergeSort fun a b => keyLe a.1 b.1).flatMap (fun entry =>
      updateScalar 's' (getBytes entry.1) ++ entry.2) ++ [125]
  | .list items => 91 :: itemDigests items ++ [93]
  | .other className => updateScalar 'c' (getBytes className)

def entryDigests : List (Text × EventValue) → List (Text × List UInt8)
  | [] => []
  | (key, value) :: rest => (key, updateDigest value) :: entryDigests rest

def itemDigests : List EventValue → List UInt8
  | [] => []
  | item :: rest => updateDigest item ++ itemDigests rest
end

/-- The fields that the hash leaves out. -/
def unhashedKeys : List Text :=
  ["schemaVersion", "sequence", "threadId", "threadKey", "virtualThread", "testId",
    "observations"].map ascii

def hashedFields (fields : Fields) : Fields := fields.filter fun field => field.1 ∉ unhashedKeys

/-- The bytes fed to the digest. -/
def statePreimage (fields : Fields) : List UInt8 := updateDigest (.map (hashedFields fields))

/-- The first sixteen bytes of the digest in hexadecimal. -/
def stateHash (sha256 : List UInt8 → List UInt8) (fields : Fields) : String :=
  hexEncode ((sha256 (statePreimage fields)).take 16)

/-- A text whose surrogates are paired. -/
def WellPaired (text : Text) : Prop := ∃ s : String, text = encode s

/-- Nothing but null, booleans, numbers, well-formed texts, lists, and maps under
distinct well-formed keys. -/
inductive WellFormed : EventValue → Prop where
  | null : WellFormed .null
  | bool (value : Bool) : WellFormed (.bool value)
  | number (value : JavaNumber) : WellFormed (.number value)
  | text {value : Text} (paired : WellPaired value) : WellFormed (.text value)
  | list {items : List EventValue} (each : ∀ item ∈ items, WellFormed item) :
      WellFormed (.list items)
  | map {fields : Fields} (distinct : (fields.map Prod.fst).Nodup)
      (keys : ∀ field ∈ fields, WellPaired field.1) (values : ∀ field ∈ fields, WellFormed field.2) :
      WellFormed (.map fields)

/-- The same content: numbers of one class, lists in one order, maps with the same
entries in any order. -/
inductive Agree : EventValue → EventValue → Prop where
  | null : Agree .null .null
  | bool (value : Bool) : Agree (.bool value) (.bool value)
  | number (value : JavaNumber) : Agree (.number value) (.number value)
  | text (value : Text) : Agree (.text value) (.text value)
  | list {items others : List EventValue} (each : List.Forall₂ Agree items others) :
      Agree (.list items) (.list others)
  | map {fields others reordered : Fields} (order : reordered.Perm others)
      (keys : fields.map Prod.fst = reordered.map Prod.fst)
      (values : List.Forall₂ Agree (fields.map Prod.snd) (reordered.map Prod.snd)) :
      Agree (.map fields) (.map others)

theorem getBytes_injective {a b : Text} (pairedA : WellPaired a) (pairedB : WellPaired b)
    (same : getBytes a = getBytes b) : a = b := by
  obtain ⟨s, rfl⟩ := pairedA
  obtain ⟨t, rfl⟩ := pairedB
  have text := String.ofList_inj.mp (utf8_injective same)
  rw [decode_encode_self, decode_encode_self, String.toList_inj] at text
  rw [text]

theorem updateScalar_append_injective {k l : Char} {a b restA restB : List UInt8}
    (same : updateScalar k a ++ restA = updateScalar l b ++ restB) :
    UInt8.ofNat k.toNat = UInt8.ofNat l.toNat ∧ a = b ∧ restA = restB := by
  simp only [updateScalar, List.cons_append, List.cons.injEq] at same
  exact ⟨same.1, decimalFrame_append_injective same.2⟩

theorem className_free (n : JavaNumber) : ':' ∉ n.className.toList := by
  have kinds : ∀ kind : Integral, ':' ∉ kind.className.toList := by
    intro kind
    cases kind <;> decide
  have floats : ∀ name ∈ ["java.lang.Float", "java.lang.Double", "java.math.BigDecimal"],
      ':' ∉ name.toList := by decide
  cases n with
  | integral kind value => exact kinds kind
  | float value => exact floats _ (by simp [JavaNumber.className])
  | double value => exact floats _ (by simp [JavaNumber.className])
  | bigDecimal unscaled scale => exact floats _ (by simp [JavaNumber.className])

/-- A numeral in front of nothing is read whole. -/
theorem numeral_text_injective {a b : Numeral} (validA : a.Valid) (validB : b.Valid)
    (same : a.text = b.text) : a = b := by
  have readA : readNumeral (a.text ++ []) = some (a, []) := readNumeral_text validA nofun
  have readB : readNumeral (b.text ++ []) = some (b, []) := readNumeral_text validB nofun
  rw [same, readB] at readA
  cases readA
  rfl

theorem integerDecimal_injective {a b : Int} (same : integerDecimal a = integerDecimal b) : a = b := by
  simp only [integerDecimal, Decimal.mk.injEq, decide_eq_decide, and_true] at same
  omega

theorem bigDecimal_injective {a b s t : Int} (same : bigDecimal a s = bigDecimal b t) :
    a = b ∧ s = t := by
  simp only [bigDecimal, Decimal.mk.injEq, decide_eq_decide] at same
  omega

/-- The text of a NaN or an infinity is no numeral. -/
theorem floating_text_injective {a b : Floating} (same : a.text = b.text) : a = b := by
  have word : ∀ shown : FloatText, ∀ text ∈ [Floating.nan.text, (Floating.infinite true).text,
      (Floating.infinite false).text], shown.numeral.text ≠ text := by
    intro shown text listed same
    have read : readNumeral (shown.numeral.text ++ []) = some (shown.numeral, []) :=
      readNumeral_text shown.valid nofun
    rw [List.append_nil, same] at read
    have none_ : ∀ text ∈ [Floating.nan.text, (Floating.infinite true).text,
        (Floating.infinite false).text], readNumeral text = none := by decide
    rw [none_ text listed] at read
    cases read
  cases a with
  | nan =>
    cases b with
    | nan => rfl
    | infinite negative => cases negative <;> exact absurd same (by decide)
    | finite shown => exact absurd same.symm (word shown _ (by simp))
  | infinite negative =>
    cases b with
    | nan => cases negative <;> exact absurd same (by decide)
    | infinite other => cases negative <;> cases other <;> first | rfl | exact absurd same (by decide)
    | finite shown => cases negative <;> exact absurd same.symm (word shown _ (by simp))
  | finite shown =>
    cases b with
    | nan => exact absurd same (word shown _ (by simp))
    | infinite negative => cases negative <;> exact absurd same (word shown _ (by simp))
    | finite other =>
      obtain ⟨numeral, valid, _, _⟩ := shown
      obtain ⟨numeral', valid', _, _⟩ := other
      cases numeral_text_injective valid valid' same
      rfl

/-- The class and the text of a number determine it. -/
theorem number_injective {a b : JavaNumber} (classes : a.className = b.className)
    (texts : a.text = b.text) : a = b := by
  have kinds : ∀ k l : Integral, k.className = l.className → k = l := by
    intro k l same
    cases k <;> cases l <;> first | rfl | simp [Integral.className] at same
  cases a with
  | integral kind value =>
    cases b with
    | integral other value' =>
      have numerals := numeral_text_injective (integerNumeral_valid value)
        (integerNumeral_valid value') texts
      have decimals := congrArg Numeral.decimal numerals
      rw [integerNumeral_decimal, integerNumeral_decimal] at decimals
      rw [kinds kind other classes, integerDecimal_injective decimals]
    | _ => cases kind <;> simp [JavaNumber.className, Integral.className] at classes
  | float value =>
    cases b with
    | integral kind value' => cases kind <;> simp [JavaNumber.className, Integral.className] at classes
    | float value' => rw [floating_text_injective texts]
    | _ => simp [JavaNumber.className] at classes
  | double value =>
    cases b with
    | integral kind value' => cases kind <;> simp [JavaNumber.className, Integral.className] at classes
    | double value' => rw [floating_text_injective texts]
    | _ => simp [JavaNumber.className] at classes
  | bigDecimal unscaled scale =>
    cases b with
    | integral kind value' => cases kind <;> simp [JavaNumber.className, Integral.className] at classes
    | bigDecimal unscaled' scale' =>
      have numerals := numeral_text_injective (bigDecimalNumeral_valid unscaled scale)
        (bigDecimalNumeral_valid unscaled' scale') texts
      have decimals := congrArg Numeral.decimal numerals
      rw [bigDecimalNumeral_decimal, bigDecimalNumeral_decimal] at decimals
      obtain ⟨rfl, rfl⟩ := bigDecimal_injective decimals
      rfl
    | _ => simp [JavaNumber.className] at classes

theorem number_digest_injective {a b : JavaNumber}
    (same : utf8 (a.className ++ ":" ++ String.ofList a.text) =
      utf8 (b.className ++ ":" ++ String.ofList b.text)) : a = b := by
  have texts := congrArg String.toList (utf8_injective same)
  simp only [String.toList_append, String.toList_ofList, List.append_assoc] at texts
  obtain ⟨classes, numbers⟩ := separated_injective (className_free a) (className_free b) texts
  exact number_injective (String.toList_inj.mp classes) numbers

theorem entryDigests_eq (fields : Fields) :
    entryDigests fields = fields.map fun field => (field.1, updateDigest field.2) := by
  induction fields with
  | nil => rfl
  | cons field rest ih => rw [entryDigests, ih, List.map_cons]

theorem itemDigests_eq (items : List EventValue) : itemDigests items = items.flatMap updateDigest := by
  induction items with
  | nil => rfl
  | cons item rest ih => rw [itemDigests, ih, List.flatMap_cons]

/-- What one entry of a map feeds to the digest. -/
def entryDigest (field : Text × EventValue) : List UInt8 :=
  updateScalar 's' (getBytes field.1) ++ updateDigest field.2

/-- The entries of a map in the order in which they are fed. -/
def sortedEntries (fields : Fields) : Fields := fields.mergeSort fun a b => keyLe a.1 b.1

theorem updateDigest_map (fields : Fields) :
    updateDigest (.map fields) = 123 :: ((sortedEntries fields).flatMap entryDigest ++ [125]) := by
  have sorted : (entryDigests fields).mergeSort (fun a b => keyLe a.1 b.1) =
      (sortedEntries fields).map fun field => (field.1, updateDigest field.2) := by
    rw [entryDigests_eq, sortedEntries]
    exact (List.map_mergeSort (f := fun field : Text × EventValue => (field.1, updateDigest field.2))
      fun a _ b _ => rfl).symm
  rw [updateDigest, sorted, List.flatMap_map]
  rfl

theorem updateDigest_list (items : List EventValue) :
    updateDigest (.list items) = 91 :: (items.flatMap updateDigest ++ [93]) := by
  rw [updateDigest, itemDigests_eq]
  rfl

/-- The first byte of a value tells its kind. -/
def digestTag : EventValue → UInt8
  | .null => 48
  | .text _ => 115
  | .number _ => 110
  | .bool _ => 98
  | .map _ => 123
  | .list _ => 91
  | .other _ => 99

theorem updateDigest_tag (value : EventValue) :
    ∃ tail, updateDigest value = digestTag value :: tail := by
  cases value with
  | map fields => exact ⟨_, updateDigest_map fields⟩
  | list items => exact ⟨_, updateDigest_list items⟩
  | _ => exact ⟨_, by rw [updateDigest]; rfl⟩

theorem digestTag_ne_close (value : EventValue) : digestTag value ≠ 93 ∧ digestTag value ≠ 125 := by
  cases value <;> simp [digestTag]

/-- Entries of two maps fed alike are the same entries. -/
theorem Agree.of_sorted {fields others : Fields}
    (entries : List.Forall₂ (fun a b => a.1 = b.1 ∧ Agree a.2 b.2) (sortedEntries fields)
      (sortedEntries others)) : Agree (.map fields) (.map others) := by
  have sorted : fields.Perm (sortedEntries fields) := (List.mergeSort_perm fields _).symm
  obtain ⟨reordered, paired, order⟩ := List.perm_comp_forall₂ sorted entries
  refine .map (order.trans (List.mergeSort_perm others _)) ?_ ?_
  · rw [← List.forall₂_eq_eq_eq, List.forall₂_map_left_iff, List.forall₂_map_right_iff]
    exact paired.imp fun a b same => same.1
  · rw [List.forall₂_map_left_iff, List.forall₂_map_right_iff]
    exact paired.imp fun a b same => same.2

theorem entryDigest_opens (field : Text × EventValue) :
    ∃ first tail, entryDigest field = first :: tail ∧ first ≠ 125 :=
  ⟨115, _, rfl, by decide⟩

theorem updateDigest_opens (value : EventValue) :
    ∃ first tail, updateDigest value = first :: tail ∧ first ≠ 93 := by
  obtain ⟨tail, shown⟩ := updateDigest_tag value
  exact ⟨_, tail, shown, (digestTag_ne_close value).1⟩

theorem digestTag_eq {a b : EventValue} {restA restB : List UInt8}
    (same : updateDigest a ++ restA = updateDigest b ++ restB) : digestTag a = digestTag b := by
  obtain ⟨tailA, shownA⟩ := updateDigest_tag a
  obtain ⟨tailB, shownB⟩ := updateDigest_tag b
  rw [shownA, shownB] at same
  exact (List.cons.inj same).1

/-- Two values that feed the digest alike, whatever follows, have the same content. -/
theorem updateDigest_append_injective {a b : EventValue} (formedA : WellFormed a)
    (formedB : WellFormed b) {restA restB : List UInt8}
    (same : updateDigest a ++ restA = updateDigest b ++ restB) : Agree a b ∧ restA = restB := by
  have tags := digestTag_eq same
  induction formedA generalizing b restA restB with
  | null =>
    cases formedB with
    | null => exact ⟨.null, List.append_cancel_left same⟩
    | _ => simp [digestTag] at tags
  | bool value =>
    cases formedB with
    | bool value' =>
      obtain ⟨-, bytes, rest⟩ := updateScalar_append_injective same
      have values : value = value' := by
        cases value <;> cases value' <;> first | rfl | exact absurd (utf8_injective bytes) (by decide)
      exact ⟨values ▸ .bool value, rest⟩
    | _ => simp [digestTag] at tags
  | number value =>
    cases formedB with
    | number value' =>
      obtain ⟨-, bytes, rest⟩ := updateScalar_append_injective same
      exact ⟨number_digest_injective bytes ▸ .number value, rest⟩
    | _ => simp [digestTag] at tags
  | @text value paired =>
    cases formedB with
    | text paired' =>
      obtain ⟨-, bytes, rest⟩ := updateScalar_append_injective same
      exact ⟨getBytes_injective paired paired' bytes ▸ .text value, rest⟩
    | _ => simp [digestTag] at tags
  | list each ih =>
    cases formedB with
    | list each' =>
      rw [updateDigest_list, updateDigest_list, List.cons_append, List.cons_append,
        List.cons.injEq, List.append_assoc, List.append_assoc] at same
      obtain ⟨items, rest⟩ := closed_injective (fun item _ => updateDigest_opens item)
        (fun item _ => updateDigest_opens item)
        (fun x left y right _ _ equal => ih x left (each' y right) equal (digestTag_eq equal)) same.2
      exact ⟨.list items, rest⟩
    | _ => simp [digestTag] at tags
  | @map fields distinct keys values ih =>
    cases formedB with
    | @map others distinct' keys' values' =>
      rw [updateDigest_map, updateDigest_map, List.cons_append, List.cons_append,
        List.cons.injEq, List.append_assoc, List.append_assoc] at same
      have unsorted : ∀ {fields : Fields} {x}, x ∈ sortedEntries fields → x ∈ fields :=
        fun member => (List.mergeSort_perm _ _).mem_iff.mp member
      have one : ∀ x ∈ sortedEntries fields, ∀ y ∈ sortedEntries others, ∀ restX restY,
          entryDigest x ++ restX = entryDigest y ++ restY →
            (x.1 = y.1 ∧ Agree x.2 y.2) ∧ restX = restY := by
        intro x left y right restX restY equal
        rw [entryDigest, entryDigest, List.append_assoc, List.append_assoc] at equal
        obtain ⟨-, bytes, later⟩ := updateScalar_append_injective equal
        obtain ⟨content, rest⟩ := ih x (unsorted left) (values' y (unsorted right)) later
          (digestTag_eq later)
        exact ⟨⟨getBytes_injective (keys x (unsorted left)) (keys' y (unsorted right)) bytes,
          content⟩, rest⟩
      obtain ⟨entries, rest⟩ := closed_injective (fun field _ => entryDigest_opens field)
        (fun field _ => entryDigest_opens field) one same.2
      exact ⟨.of_sorted entries, rest⟩
    | _ => simp [digestTag] at tags

end Walaru.Agent
