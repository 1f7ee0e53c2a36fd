import Walaru.Source.Agent.EventNesting

/-!
# Event lines the daemon can read

The line of an emitted event is read back as the event's tree exactly when every
captured number is finite and within the range of a double. The nesting of an event
stays far below the parser's limit, since capture stops at a fixed depth.
-/
namespace Walaru.Agent
open Lib.Decimals

theorem JavaNumber.json_isSome (floats : FloatReader) (n : JavaNumber) :
    (n.json floats).isSome = true ↔ n.Representable := by
  have small : ∀ value : Int, value.natAbs < 2 ^ 64 →
      (integerDecimal value).Below doubleBound := by
    intro value bound
    have wide : 2 ^ 64 ≤ doubleBound := by decide +kernel
    simp only [Decimal.Below, integerDecimal, Int.toNat_zero, Int.neg_zero, Nat.pow_zero,
      Nat.mul_one]
    exact lt_of_lt_of_le bound wide
  have integer : ∀ value : Int, (integerJson floats value).isSome = true ↔
      (integerDecimal value).Below doubleBound := by
    intro value
    unfold integerJson
    split
    · rename_i range
      exact ⟨fun _ => small value (by omega), fun _ => rfl⟩
    · split
      · rename_i range
        exact ⟨fun _ => small value (by omega), fun _ => rfl⟩
      · rw [Option.isSome_map, floats.range]
  have floating : ∀ value : Floating,
      (value.decimal.bind fun d => (floats.read d).map Number.float).isSome = true ↔
      ∃ d, value.decimal = some d ∧ d.Below doubleBound := by
    intro value
    cases value.decimal with
    | none => simp
    | some d => simp [floats.range]
  cases n with
  | integral kind value => simp [json, Representable, JavaNumber.decimal, integer]
  | float value => exact floating value
  | double value => exact floating value
  | bigDecimal unscaled scale =>
    simp only [json, Representable, JavaNumber.decimal, Option.some.injEq, exists_eq_left']
    split
    · rename_i zero
      rw [integer, zero, Agent.bigDecimal, integerDecimal, Int.neg_zero]
    · rw [Option.isSome_map, floats.range]

theorem EventValue.json_isSome (floats : FloatReader) (value : EventValue) :
    (value.json floats).isSome = true ↔ ∀ n ∈ value.numbers, n.Representable := by
  induction value using EventValue.induct with
  | null => simp [json, numbers]
  | bool value => simp [json, numbers]
  | number value => simp [json, numbers, JavaNumber.json_isSome]
  | text value => simp [json, numbers]
  | other className => simp [json, numbers]
  | list items ih =>
    rw [json, Option.isSome_map, numbers]
    induction items with
    | nil => simp [itemsJson, itemsNumbers]
    | cons item items rest =>
      rw [List.forall_mem_cons] at ih
      have tail := rest ih.2
      rw [itemsJson_cons, itemsNumbers, List.forall_mem_append, ← ih.1, ← tail]
      cases item.json floats with
      | none => simp
      | some json => simp
  | map fields ih =>
    rw [json, Option.isSome_map, numbers]
    induction fields with
    | nil => simp [fieldsJson, fieldsNumbers]
    | cons field fields rest =>
      obtain ⟨name, value⟩ := field
      rw [List.forall_mem_cons] at ih
      have tail := rest ih.2
      rw [fieldsJson_cons, fieldsNumbers, List.forall_mem_append, ← ih.1, ← tail]
      cases value.json floats with
      | none => simp
      | some json => simp

/-- The daemon reads the line of these fields as their tree. -/
def ReadsBack (floats : FloatReader) (fields : Fields) : Prop :=
  ∃ json, (EventValue.map fields).json floats = some json ∧
    parseJson floats (eventLine fields) = some json

theorem parseJson_eventLine (floats : FloatReader) {fields : Fields}
    (nested : (EventValue.map fields).nesting ≤ maxContainers) :
    parseJson floats (eventLine fields) = (EventValue.map fields).json floats := by
  have read := readsAs floats (.map fields) nested ['\n'] (stops_cons (by simp) [])
  rw [parseJson, eventLine_eq, read]
  cases (EventValue.map fields).json floats with
  | none => rfl
  | some json => rfl

/-- The daemon reads an event's line as the event's tree exactly when every number that
the event holds is finite and within the range of a double. -/
theorem event_reads_back_iff (floats : FloatReader) (stateHash : Fields → Text) (heap : Heap)
    (context : EventContext) (observation : Observation) :
    ReadsBack floats (eventFields stateHash heap context observation) ↔
      ∀ n ∈ fieldsNumbers (eventFields stateHash heap context observation), n.Representable := by
  have read := parseJson_eventLine floats (eventFields_nesting stateHash heap context observation)
  have kept := EventValue.json_isSome floats
    (.map (eventFields stateHash heap context observation))
  rw [EventValue.numbers, Option.isSome_iff_exists] at kept
  rw [← kept, ReadsBack]
  constructor
  · intro ⟨json, tree, _⟩
    exact ⟨json, tree⟩
  · intro ⟨json, tree⟩
    exact ⟨json, tree, read.trans tree⟩

/-- A test captures the quotient of two zeros. -/
def quotientEvent : Fields :=
  eventFields (fun _ => ascii "0") (fun _ => ⟨[], [], false, .plain, []⟩)
    ⟨0, 1, ascii "main", false, ascii ":", some (ascii "id", ascii "demo.AppTest#works")⟩
    (.apiCapture ⟨ascii "demo/AppTest", ascii "works", [], ascii "AppTest.java", 7, none⟩
      (ascii "ratio") (.number (.double .nan)) false)

/-- The event holds a captured NaN, and its line is no JSON. -/
theorem nan_unreadable :
    (fieldsNumbers quotientEvent).any (fun n => n.text = "NaN".toList) = true ∧
    parseJson .nearest (eventLine quotientEvent) = none ∧
    ¬ ReadsBack .nearest quotientEvent := by
  have unread : parseJson .nearest (eventLine quotientEvent) = none := by decide +kernel
  refine ⟨by decide +kernel, unread, ?_⟩
  intro ⟨json, _, read⟩
  rw [unread] at read
  cases read

end Walaru.Agent
