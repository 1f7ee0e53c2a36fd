import Walaru.Guarantees.FreshSuccess

/-!
# Redacted values leave no trace

Two event streams that differ only in what their marked values hide are ingested
alike: the same events, failures, hints, statuses, coverage, dependencies and
capabilities, and the same errors.
-/
namespace Walaru
open Lib.StateResult

/-- Member names in order, as the parser keeps them. -/
def Sorted (fields : List (String × Json)) : Prop :=
  fields.Pairwise fun a b => compare a.1 b.1 = .lt

instance (fields : List (String × Json)) : Decidable (Sorted fields) :=
  inferInstanceAs (Decidable (fields.Pairwise _))

/-- The byte count of a file-input placeholder. -/
def placeholderBytes (values : List (String × Json)) : Option Nat := do
  let value ← (Json.object values).getStr "value"
  let counted ← (stripPrefix "<redacted:file-input " value).bind (stripSuffix " bytes>")
  parseUsize counted

/-- What is left of the values beside the hidden members. -/
def shownValues (values : List (String × Json)) : List (String × Json) :=
  Json.removeField "encoded" (Json.removeField "value" values)

def marked (flag : String) (values : List (String × Json)) : Bool :=
  (Json.object values).getBool flag = some true

/-- Values that differ in hidden members only: redacted and not sensitive, or sensitive
under one byte count. -/
structure Masked (a b : List (String × Json)) : Prop where
  sortedA : Sorted a
  sortedB : Sorted b
  shown : shownValues a = shownValues b
  hidden : (marked "redacted" a ∧ ¬ marked "sensitive" a) ∨
    (marked "sensitive" a ∧ placeholderBytes a = placeholderBytes b)

/-- One event, or two that differ in hidden members of their values only. -/
inductive Indistinct : Json → Json → Prop where
  | same (raw : Json) : Indistinct raw raw
  | hidden {a b : List (String × Json)} {valuesA valuesB : List (String × Json)}
      (others : Json.removeField "values" a = Json.removeField "values" b)
      (foundA : (Json.object a).get "values" = some (.object valuesA))
      (foundB : (Json.object b).get "values" = some (.object valuesB))
      (masked : Masked valuesA valuesB) : Indistinct (.object a) (.object b)

inductive IndistinctLine : StreamLine → StreamLine → Prop where
  | same (line : StreamLine) : IndistinctLine line line
  | event {a b : Json} (events : Indistinct a b) : IndistinctLine (.event a) (.event b)

theorem lookup_removeField {key other : String} (apart : key ≠ other)
    (fields : List (String × Json)) :
    (Json.removeField other fields).lookup key = fields.lookup key := by
  induction fields with
  | nil => rfl
  | cons field rest ih =>
    obtain ⟨name, value⟩ := field
    unfold Json.removeField at ih ⊢
    by_cases same : name = other
    · have skipped : (key == name) = false := by simpa [same] using apart
      simp only [List.filter_cons, same, bne_self_eq_false, Bool.false_eq_true, if_false, ih]
      rw [← same, List.lookup_cons, skipped]
    · have kept : (name != other) = true := by simpa using same
      simp only [List.filter_cons, kept, if_true, List.lookup_cons, ih]

theorem get_eq_of_removeField {key other : String} (apart : key ≠ other)
    {a b : List (String × Json)} (same : Json.removeField other a = Json.removeField other b) :
    (Json.object a).get key = (Json.object b).get key := by
  change a.lookup key = b.lookup key
  rw [← lookup_removeField apart a, ← lookup_removeField apart b, same]

theorem get_eq_of_shown {key : String} (notValue : key ≠ "value") (notEncoded : key ≠ "encoded")
    {a b : List (String × Json)} (same : shownValues a = shownValues b) :
    (Json.object a).get key = (Json.object b).get key := by
  change a.lookup key = b.lookup key
  rw [← lookup_removeField notValue a, ← lookup_removeField notEncoded, ← lookup_removeField notValue b,
    ← lookup_removeField notEncoded (Json.removeField "value" b)]
  exact congrArg _ same

theorem Sorted.removeField {fields : List (String × Json)} (sorted : Sorted fields) (key : String) :
    Sorted (Json.removeField key fields) := sorted.sublist List.filter_sublist

theorem removeField_above {fields : List (String × Json)} {key : String}
    (above : ∀ field ∈ fields, compare key field.1 = .lt) : Json.removeField key fields = fields := by
  refine List.filter_eq_self.mpr fun field member => ?_
  rw [bne_iff_ne]
  intro same
  have less := above field member
  rw [same, Std.compare_self] at less
  cases less

theorem insertField_above {fields : List (String × Json)} {key : String}
    (above : ∀ field ∈ fields, compare key field.1 = .lt) (value : Json) :
    Json.insertField key value fields = (key, value) :: fields := by
  cases fields with
  | nil => rfl
  | cons field rest => rw [Json.insertField, above field List.mem_cons_self]

/-- Inserting a member forgets the one it replaces. -/
theorem insertField_removeField {fields : List (String × Json)} (sorted : Sorted fields)
    (key : String) (value : Json) :
    Json.insertField key value (Json.removeField key fields) = Json.insertField key value fields := by
  induction fields with
  | nil => rfl
  | cons field rest ih =>
    obtain ⟨name, old⟩ := field
    obtain ⟨first, later⟩ := List.pairwise_cons.mp sorted
    cases order : compare key name with
    | lt =>
      rw [removeField_above]
      intro field member
      rcases List.mem_cons.mp member with rfl | inside
      · exact order
      · exact Std.TransCmp.lt_trans order (first field inside)
    | eq =>
      obtain rfl := Std.compare_eq_iff_eq.mp order
      have dropped : Json.removeField key ((key, old) :: rest) = rest := by
        rw [Json.removeField, List.filter_cons_of_neg (by simp)]
        exact removeField_above first
      rw [dropped, insertField_above first, Json.insertField, order]
    | gt =>
      have apart : name ≠ key := by
        rintro rfl
        rw [Std.compare_self] at order
        cases order
      have kept : Json.removeField key ((name, old) :: rest) =
          (name, old) :: Json.removeField key rest := List.filter_cons_of_pos (by simpa using apart)
      rw [kept, Json.insertField, order, Json.insertField, order]
      dsimp only
      rw [ih later]

/-- Removing one member and inserting another commute. -/
theorem removeField_insertField {fields : List (String × Json)} (sorted : Sorted fields)
    {key other : String} (apart : key ≠ other) (value : Json) :
    Json.removeField other (Json.insertField key value fields) =
      Json.insertField key value (Json.removeField other fields) := by
  have stays : ∀ rest, Json.removeField other ((key, value) :: rest) =
      (key, value) :: Json.removeField other rest :=
    fun rest => List.filter_cons_of_pos (by simpa using apart)
  induction fields with
  | nil => exact stays []
  | cons field rest ih =>
    obtain ⟨name, old⟩ := field
    obtain ⟨first, later⟩ := List.pairwise_cons.mp sorted
    rw [Json.insertField]
    cases order : compare key name with
    | lt =>
      have above : ∀ field ∈ (name, old) :: rest, compare key field.1 = .lt := by
        intro field member
        rcases List.mem_cons.mp member with rfl | inside
        · exact order
        · exact Std.TransCmp.lt_trans order (first field inside)
      have above' : ∀ field ∈ Json.removeField other ((name, old) :: rest),
          compare key field.1 = .lt := fun field member => above field (List.mem_filter.mp member).1
      dsimp only
      rw [stays, insertField_above above']
    | eq =>
      obtain rfl := Std.compare_eq_iff_eq.mp order
      have kept : Json.removeField other ((key, old) :: rest) =
          (key, old) :: Json.removeField other rest := List.filter_cons_of_pos (by simpa using apart)
      dsimp only
      rw [stays, kept, Json.insertField, order]
    | gt =>
      dsimp only
      by_cases same : name = other
      · have dropped : ∀ rest, Json.removeField other ((name, old) :: rest) =
            Json.removeField other rest := fun rest => List.filter_cons_of_neg (by simp [same])
        rw [dropped, dropped, ih later]
      · have kept : ∀ rest, Json.removeField other ((name, old) :: rest) =
            (name, old) :: Json.removeField other rest :=
          fun rest => List.filter_cons_of_pos (by simpa using same)
        rw [kept, kept, ih later, Json.insertField, order]

theorem Masked.flag {a b : List (String × Json)} (masked : Masked a b) {key : String}
    (notValue : key ≠ "value") (notEncoded : key ≠ "encoded") :
    (Json.object a).getBool key = (Json.object b).getBool key := by
  rw [Json.getBool, Json.getBool, get_eq_of_shown notValue notEncoded masked.shown]

theorem sensitivePlaceholder_form (values : List (String × Json)) : sensitivePlaceholder values =
    if marked "sensitive" values then
      (placeholderBytes values).bind fun bytes =>
        if bytes > maxEventLineBytes then none
        else some ("<redacted:file-input " ++ toString bytes ++ " bytes>")
    else none := by
  unfold sensitivePlaceholder placeholderBytes marked
  dsimp only
  cases flag : (Json.object values).getBool "sensitive" with
  | none => simp
  | some sensitive =>
    cases sensitive with
    | false => simp
    | true =>
      simp only [Option.getD_some, if_true, decide_true, bind, Option.bind_assoc, pure]

theorem sensitivePlaceholder_eq {a b : List (String × Json)} (masked : Masked a b) :
    sensitivePlaceholder a = sensitivePlaceholder b := by
  have flags : marked "sensitive" a ↔ marked "sensitive" b := by
    rw [marked, marked, masked.flag (by decide) (by decide)]
  rw [sensitivePlaceholder_form, sensitivePlaceholder_form]
  rcases masked.hidden with ⟨-, plain⟩ | ⟨sensitive, counts⟩
  · rw [if_neg plain, if_neg fun sensitive => plain (flags.mpr sensitive)]
  · rw [if_pos sensitive, if_pos (flags.mp sensitive), counts]

/-- The public copy of masked values shows no hidden member. -/
theorem publicEventValues_eq {a b : List (String × Json)} (masked : Masked a b) :
    publicEventValues (some (.object a)) = publicEventValues (some (.object b)) := by
  have public_ : ∀ values, Sorted values → (marked "redacted" values ∨ marked "sensitive" values) →
      publicEventValues (some (.object values)) = .object (Json.insertField "value"
        (.string ((sensitivePlaceholder values).getD "<redacted>")) (shownValues values)) := by
    intro values sorted flagged
    have hides : (((Json.object values).getBool "redacted").getD false ||
        ((Json.object values).getBool "sensitive").getD false) = true := by
      rcases flagged with flag | flag
      · rw [marked, decide_eq_true_eq] at flag
        simp [flag]
      · rw [marked, decide_eq_true_eq] at flag
        simp [flag]
    simp only [publicEventValues, Option.getD_some, hides, if_true]
    rw [removeField_insertField sorted (by decide), ← insertField_removeField (sorted.removeField _),
      shownValues, Json.removeField, Json.removeField, List.filter_comm]
    rfl
  have flaggedA : marked "redacted" a ∨ marked "sensitive" a :=
    masked.hidden.imp And.left And.left
  have flaggedB : marked "redacted" b ∨ marked "sensitive" b := by
    refine flaggedA.imp (fun flag => ?_) fun flag => ?_
    · rwa [marked, ← masked.flag (by decide) (by decide)]
    · rwa [marked, ← masked.flag (by decide) (by decide)]
  rw [public_ a masked.sortedA flaggedA, public_ b masked.sortedB flaggedB, masked.shown,
    sensitivePlaceholder_eq masked]

/-- Two events that ingestion cannot tell apart: the members beside `values`, the members
of `values` that it reads, and the public copy. -/
structure SameReadings (a b : Json) : Prop where
  get : ∀ key, key ≠ "values" → a.get key = b.get key
  inside : ∀ key, key ≠ "value" → key ≠ "encoded" →
    (a.get "values").bind (Json.get key) = (b.get "values").bind (Json.get key)
  shown : publicEventValues (a.get "values") = publicEventValues (b.get "values")

theorem Indistinct.readings {a b : Json} (same : Indistinct a b) : SameReadings a b := by
  cases same with
  | same raw => exact ⟨fun _ _ => rfl, fun _ _ _ => rfl, rfl⟩
  | hidden others foundA foundB masked =>
    refine ⟨fun key apart => get_eq_of_removeField apart others, fun key first second => ?_, ?_⟩
    · rw [foundA, foundB]
      exact get_eq_of_shown first second masked.shown
    · rw [foundA, foundB]
      exact publicEventValues_eq masked

namespace SameReadings
variable {a b : Json} (same : SameReadings a b)

include same

theorem getStr {key : String} (apart : key ≠ "values") : a.getStr key = b.getStr key := by
  rw [Json.getStr, Json.getStr, same.get key apart]

theorem getBool {key : String} (apart : key ≠ "values") : a.getBool key = b.getBool key := by
  rw [Json.getBool, Json.getBool, same.get key apart]

theorem getU64 {key : String} (apart : key ≠ "values") : a.getU64 key = b.getU64 key := by
  rw [Json.getU64, Json.getU64, same.get key apart]

theorem valueStr {key : String} (first : key ≠ "value") (second : key ≠ "encoded") :
    valueStr key a = valueStr key b := by
  have read := congrArg (Option.bind · Json.asStr) (same.inside key first second)
  simp only [Option.bind_assoc] at read
  exact read

theorem testId : publicTestId a = publicTestId b := by
  rw [publicTestId, publicTestId, same.getStr (by decide : "testId" ≠ "values"),
    same.getStr (by decide : "testName" ≠ "values")]

theorem kindName : kindName a = kindName b := by
  rw [Walaru.kindName, Walaru.kindName, same.getStr (by decide)]

theorem threadId : threadIdOf a = threadIdOf b := by
  rw [threadIdOf, threadIdOf, same.getU64 (by decide)]

theorem threadKey : threadKeyOf a = threadKeyOf b := by
  rw [threadKeyOf, threadKeyOf, same.getStr (by decide)]

theorem sourcePath (tree : SourceTree) : sourcePath tree a = sourcePath tree b := by
  rw [Walaru.sourcePath, Walaru.sourcePath, same.getStr (by decide)]

theorem lineNumber : lineNumber a = lineNumber b := by
  rw [Walaru.lineNumber, Walaru.lineNumber, same.get _ (by decide)]

theorem symbol : symbolOf a = symbolOf b := by
  rw [symbolOf, symbolOf, same.getStr (by decide : "owner" ≠ "values"),
    same.getStr (by decide : "method" ≠ "values")]

theorem failedFinish : failedFinish a = failedFinish b := by
  rw [Walaru.failedFinish, Walaru.failedFinish, same.kindName, finishStatus, finishStatus,
    same.getStr (by decide)]

theorem finishStatus : finishStatus a = finishStatus b := by
  rw [Walaru.finishStatus, Walaru.finishStatus, same.getStr (by decide)]

theorem publicEvent (ctx : IngestContext) (sequence : Nat) :
    publicEvent ctx sequence a = publicEvent ctx sequence b := by
  simp only [Walaru.publicEvent, same.testId, same.threadId, same.threadKey, same.kindName,
    same.sourcePath, same.lineNumber, same.symbol, same.shown,
    same.getBool (by decide : "virtualThread" ≠ "values"),
    same.getBool (by decide : "coroutine" ≠ "values"),
    same.get _ (by decide : "logicalStack" ≠ "values"),
    same.get _ (by decide : "observations" ≠ "values"),
    same.getStr (by decide : "stateHash" ≠ "values"),
    same.getU64 (by decide : "outputIndex" ≠ "values")]

theorem failureRecord (ctx : IngestContext) (sequence : Nat) :
    failureRecord ctx sequence a = failureRecord ctx sequence b := by
  simp only [Walaru.failureRecord, failureId, same.testId, same.publicEvent,
    same.getStr (by decide : "failureType" ≠ "values"),
    same.getStr (by decide : "message" ≠ "values"), same.get _ (by decide : "frames" ≠ "values")]

theorem targetOwner : targetOwner a = targetOwner b := by
  rw [Walaru.targetOwner, Walaru.targetOwner, same.getStr (by decide)]

theorem targetMethod : targetMethod a = targetMethod b := by
  rw [Walaru.targetMethod, Walaru.targetMethod, same.getStr (by decide)]

theorem nondeterministicBoundary : nondeterministicBoundary a = nondeterministicBoundary b := by
  rw [Walaru.nondeterministicBoundary, Walaru.nondeterministicBoundary, same.targetOwner,
    same.targetMethod]

theorem supportedFileIoBoundary : supportedFileIoBoundary a = supportedFileIoBoundary b := by
  rw [Walaru.supportedFileIoBoundary, Walaru.supportedFileIoBoundary,
    same.getStr (by decide : "targetOwner" ≠ "values"),
    same.getStr (by decide : "targetMethod" ≠ "values")]

theorem ioBoundary : ioBoundary a = ioBoundary b := by
  rw [Walaru.ioBoundary, Walaru.ioBoundary, same.getStr (by decide)]

/-- Every rule reads the target of the call only. -/
theorem classifyBoundary (unavailable : BTreeMap String String) :
    classifyBoundary a unavailable = classifyBoundary b unavailable := by
  have rules : ∀ rule ∈ boundaryRules, rule.applies a = rule.applies b ∧
      rule.reason a = rule.reason b := by
    simp only [boundaryRules, List.mem_cons, List.not_mem_nil, or_false, forall_eq_or_imp, forall_eq,
      same.targetOwner, same.targetMethod, same.nondeterministicBoundary, and_self]
  refine List.foldl_ext _ _ _ fun found rule member => ?_
  rw [(rules rule member).1, (rules rule member).2]

theorem volatileFlag : volatileFlag a = volatileFlag b := by
  have read := congrArg (Option.bind · Json.asBool) (same.inside "volatile" (by decide) (by decide))
  simp only [Option.bind_assoc] at read
  rw [Walaru.volatileFlag, Walaru.volatileFlag, same.getBool (by decide : "volatile" ≠ "values")]
  exact congrArg (fun flag => decide (_ = _) || decide (flag = some true)) read

/-- Both events leave the same accumulators. -/
theorem observe (ctx : IngestContext) (st : IngestState) : st.observe ctx a = st.observe ctx b := by
  have thread : ∀ st, IngestState.observeThread a st = IngestState.observeThread b st := by
    intro st
    rw [IngestState.observeThread, IngestState.observeThread, same.threadId, same.threadKey,
      same.getBool (by decide : "virtualThread" ≠ "values"),
      same.getStr (by decide : "descriptor" ≠ "values")]
  have hint : ∀ st, IngestState.observeHint ctx a st = IngestState.observeHint ctx b st := by
    intro st
    rw [IngestState.observeHint, IngestState.observeHint, same.publicEvent, same.testId]
  have test : ∀ st, IngestState.observeTest ctx a st = IngestState.observeTest ctx b st := by
    intro st
    rw [IngestState.observeTest, IngestState.observeTest, same.testId, same.kindName,
      same.failedFinish, same.finishStatus, failureId, failureId, same.testId, moduleOf, moduleOf,
      same.getStr (by decide)]
  have line : ∀ st, IngestState.observeLine ctx a st = IngestState.observeLine ctx b st := by
    intro st
    rw [IngestState.observeLine, IngestState.observeLine, same.testId, same.kindName,
      same.sourcePath, same.lineNumber, same.symbol]
  have boundary : ∀ st, IngestState.observeBoundary a st = IngestState.observeBoundary b st := by
    intro st
    rw [IngestState.observeBoundary, IngestState.observeBoundary, same.kindName,
      same.nondeterministicBoundary, same.supportedFileIoBoundary, same.ioBoundary,
      same.classifyBoundary, fileInput, fileInput, same.valueStr (by decide) (by decide)]
  have memory : ∀ st, IngestState.observeMemory a st = IngestState.observeMemory b st := by
    intro st
    rw [IngestState.observeMemory, IngestState.observeMemory, same.kindName, same.volatileFlag,
      same.valueStr (by decide) (by decide)]
  have capability : ∀ st, IngestState.observeCapability a st = IngestState.observeCapability b st := by
    intro st
    rw [IngestState.observeCapability, IngestState.observeCapability, same.kindName,
      same.getBool (by decide), same.getStr (by decide : "capability" ≠ "values"),
      same.getStr (by decide : "reason" ≠ "values")]
  rw [IngestState.observe, IngestState.observe, thread, hint, test, line, boundary, memory, capability]

theorem ingestLine (ctx : IngestContext) (index : Nat) (st : IngestState) :
    ingestLine ctx index (.event a) st = ingestLine ctx index (.event b) st := by
  simp only [Walaru.ingestLine, saveFinish, same.testId, same.publicEvent, same.failedFinish,
    same.failureRecord, same.observe]

end SameReadings

theorem ingestLines_indistinct {a b : List StreamLine} (lines : List.Forall₂ IndistinctLine a b)
    (ctx : IngestContext) (index : Nat) (st : IngestState) :
    ingestLines ctx index a st = ingestLines ctx index b st := by
  induction lines generalizing index st with
  | nil => rfl
  | cons line _ ih =>
    rw [ingestLines, ingestLines]
    cases line with
    | same line => simp only [ih]
    | event events => simp only [events.readings.ingestLine, ih]

/-- Streams that differ only in what their marked values hide are ingested into the same
store with the same evidence, or refused with the same error. -/
theorem redacted_values_leave_no_trace (ctx : IngestContext) (a b : List StreamLine)
    (lines : List.Forall₂ IndistinctLine a b) :
    ingestEvents ctx (.lines a) = ingestEvents ctx (.lines b) := by
  simp only [ingestEvents, ingestLines_indistinct lines]

/-- An event with these values. -/
def eventWith (values : List (String × Json)) : Json :=
  .object [("type", .string "INPUT"), ("values", .object values)]

/-- A redacted array and a redacted text; then two spellings of one byte count. -/
theorem redacted_values_leave_no_trace_demo :
    ingestEvents ((demoPass "run-1").ingestContext "rev-1") (.lines
        [.event (eventWith [("redacted", .bool true), ("value", .array [.string "hunter2"])]),
          .event (eventWith [("encoded", .string "aHVudGVyMg=="), ("sensitive", .bool true),
            ("value", .string "<redacted:file-input 14 bytes>")])]) =
      ingestEvents ((demoPass "run-1").ingestContext "rev-1") (.lines
        [.event (eventWith [("redacted", .bool true), ("value", .string "swordfish")]),
          .event (eventWith [("sensitive", .bool true),
            ("value", .string "<redacted:file-input +014 bytes>")])]) := by
  refine redacted_values_leave_no_trace _ _ _
    (.cons (.event (.hidden (by decide) rfl rfl ?_)) (.cons (.event (.hidden (by decide) rfl rfl ?_)) .nil))
  · exact ⟨by decide, by decide, by decide, .inl ⟨by decide, by decide⟩⟩
  · exact ⟨by decide, by decide, by decide, .inr ⟨by decide, by decide⟩⟩

end Walaru
