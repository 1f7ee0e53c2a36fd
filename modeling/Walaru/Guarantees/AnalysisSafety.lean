import Walaru.Guarantees.AssertionSearch

/-!
# Failure analysis is safe

The analysis of a failure returns for every message. Its evidence is at most seven items, an
assertion mismatch first and then items of the events, the newest first; the parts of the
mismatch are cut out of the message; and no redacted value is named as the cause.
-/
namespace Walaru
open Lib.Text Lib.Utf8Slices

theorem trimmed_inside (blank : Char → Bool) (part : List Char) :
    (part.dropWhile blank).rdropWhile blank <:+: part :=
  (List.rdropWhile_prefix blank _).isInfix.trans (List.dropWhile_suffix blank).isInfix

theorem cutAtMarker_inside {occurs : List Char → List Char → List Char → Bool}
    {front back expected actual : List Char} (cut : cutAtMarker occurs front back = some (expected, actual)) :
    expected <:+: front ++ back ∧ actual <:+: front ++ back := by
  have sides : ∀ needle left right n, firstSplit (occurs needle) front back = some (left, right) →
      left.drop front.length <:+: front ++ back ∧ right.drop n <:+: front ++ back := by
    intro needle left right n found
    obtain ⟨middle, rfl, rfl, -, -⟩ := firstSplit_eq_some.mp found
    rw [List.drop_left]
    refine ⟨⟨front, right, List.append_assoc _ _ _⟩, ?_⟩
    refine (List.drop_suffix n right).isInfix.trans ⟨front ++ middle, [], ?_⟩
    rw [List.append_nil, List.append_assoc]
  unfold cutAtMarker at cut
  cases was : firstSplit (occurs "but was".toList) front back with
  | none =>
    cases found : firstSplit (occurs "but found".toList) front back with
    | none =>
      rw [was, found] at cut
      cases cut
    | some found_ =>
      rw [was, found] at cut
      cases cut
      exact sides _ _ _ 9 found
  | some was_ =>
    cases found : firstSplit (occurs "but found".toList) front back with
    | none =>
      rw [was, found] at cut
      cases cut
      exact sides _ _ _ 7 was
    | some found_ =>
      rw [was, found] at cut
      dsimp only at cut
      split at cut
      · cases cut
        exact sides _ _ _ 9 found
      · cases cut
        exact sides _ _ _ 7 was

theorem cutMessage_inside {occurs : List Char → List Char → List Char → Bool}
    {message expected actual : List Char} (cut : cutMessage occurs message = some (expected, actual)) :
    expected <:+: message ∧ actual <:+: message := by
  unfold cutMessage at cut
  cases first : firstSplit (occurs "expected".toList) [] message with
  | none =>
    rw [first] at cut
    cases cut
  | some sides =>
    obtain ⟨front, back⟩ := sides
    obtain ⟨middle, left, whole, -, -⟩ := firstSplit_eq_some.mp first
    rw [first] at cut
    have parts := cutAtMarker_inside cut
    rwa [List.append_assoc, List.take_append_drop, left, List.nil_append, ← whole] at parts

/-- The parts of a mismatch are contiguous in the message. -/
theorem mismatch_inside {message : List Char} {parts : List Char × List Char}
    (mismatch : (cutMessage wordAt message).bind (keptParts trimmedCharacter) = some parts) :
    parts.1 <:+: message ∧ parts.2 <:+: message := by
  obtain ⟨⟨expected, actual⟩, cut, kept⟩ := Option.bind_eq_some_iff.mp mismatch
  obtain ⟨first, second⟩ := cutMessage_inside cut
  unfold keptParts at kept
  obtain ⟨-, same⟩ := Option.ite_none_right_eq_some.mp kept
  cases same
  exact ⟨(trimmed_inside _ _).trans first, (trimmed_inside _ _).trans second⟩

/-- What is gathered are items of a part of the events, in their order, up to seven in all. -/
theorem gather_spec (evidence : List FailureEvidence) (events : List Event) :
    ∃ shown items, shown.Sublist events ∧
      List.Forall₂ (fun event item => evidenceOf event = some item) shown items ∧
      gather evidence events = evidence ++ items ∧
      (evidence.length ≤ 7 → (gather evidence events).length ≤ 7) := by
  induction events generalizing evidence with
  | nil => exact ⟨[], [], List.Sublist.refl _, .nil, (List.append_nil _).symm, id⟩
  | cons event rest ih =>
    rw [gather]
    by_cases full : 7 ≤ evidence.length
    · rw [if_pos full]
      exact ⟨[], [], List.nil_sublist _, .nil, (List.append_nil _).symm, id⟩
    · rw [if_neg full]
      cases item : evidenceOf event with
      | none =>
        obtain ⟨shown, items, part, pairs, whole, few⟩ := ih evidence
        exact ⟨shown, items, part.cons event, pairs, whole, few⟩
      | some found =>
        obtain ⟨shown, items, part, pairs, whole, few⟩ := ih (evidence ++ [found])
        refine ⟨event :: shown, found :: items, part.cons_cons event, .cons item pairs, ?_, fun _ => ?_⟩
        · dsimp only
          rw [whole, List.append_assoc, List.singleton_append]
        · refine few ?_
          rw [List.length_append, List.length_singleton]
          omega

/-- The value is the text that stands for something redacted. -/
def Redacted (value : Json) : Prop := ∃ text, value = .string text ∧ startsWith "<redacted" text = true

theorem actionable_iff (item : FailureEvidence) : actionable item = true ↔ ¬Redacted item.value := by
  unfold actionable Redacted
  rw [Bool.not_eq_true', Bool.eq_false_iff, ne_eq, not_iff_not, Option.any_eq_true]
  constructor
  · rintro ⟨text, shown, starts⟩
    refine ⟨text, ?_, starts⟩
    cases value : item.value with
    | string other =>
      rw [value] at shown
      cases shown
      rfl
    | null | bool | number | array | object =>
      rw [value] at shown
      cases shown
  · rintro ⟨text, value, starts⟩
    exact ⟨text, by rw [value]; rfl, starts⟩

theorem explicitOr_cases (floats : FloatWriter) (evidence : List FailureEvidence) (fallback : String) :
    explicitOr floats evidence fallback = fallback ∨
      ∃ item ∈ evidence, ¬Redacted item.value ∧
        explicitOr floats evidence fallback = explicitCause floats item := by
  unfold explicitOr
  split
  · exact Or.inl rfl
  · rename_i item found
    have admitted := List.find?_some found
    rw [Bool.and_eq_true] at admitted
    exact Or.inr ⟨item, List.mem_of_find?_eq_some found, (actionable_iff item).mp admitted.1, rfl⟩

/-- What an analysis of this failure and these events says. -/
structure Explains (floats : FloatWriter) (failure : FailureRecord) (events : List Event)
    (analysis : FailureAnalysis) : Prop where
  bounded : analysis.evidence.length ≤ 7
  /-- Behind the leading mismatch, if there is one, stand items of events, the newest first. -/
  fromEvents : ∃ mismatch : Option (List Char × List Char), ∃ shown items,
    (∀ parts, mismatch = some parts →
      parts.1 <:+: failure.message.toList ∧ parts.2 <:+: failure.message.toList) ∧
    shown.Sublist events.reverse ∧
    List.Forall₂ (fun event item => evidenceOf event = some item) shown items ∧
    analysis.evidence = (mismatch.map (mismatchEvidence failure)).toList ++ items ∧
    (analysis.likelyCause = fallbackCause failure mismatch ∨
      ∃ item ∈ analysis.evidence, ¬Redacted item.value ∧
        analysis.likelyCause = explicitCause floats item)

/-- Every failure is explained, and nothing panics. -/
theorem analyzeFailure_explains (floats : FloatWriter) (failure : FailureRecord) (events : List Event) :
    ∃ analysis, analyzeFailure floats failure events = some analysis ∧
      Explains floats failure events analysis := by
  obtain ⟨mismatch, found⟩ : ∃ mismatch,
      (cutMessage wordAt failure.message.toList).bind (keptParts trimmedCharacter) = mismatch := ⟨_, rfl⟩
  have parts : assertionMismatch failure.message.toList = some mismatch := by
    rw [assertionMismatch_eq, found]
  obtain ⟨shown, items, part, pairs, whole, few⟩ :=
    gather_spec (mismatch.map (mismatchEvidence failure)).toList events.reverse
  have lead : (mismatch.map (mismatchEvidence failure)).toList.length ≤ 7 := by
    cases mismatch with
    | none => exact Nat.zero_le 7
    | some parts => exact (by decide : 1 ≤ 7)
  unfold analyzeFailure
  rw [parts]
  refine ⟨_, rfl, few lead, mismatch, shown, items, ?_, part, pairs, whole, ?_⟩
  · rintro parts rfl
    exact mismatch_inside found
  · exact explicitOr_cases floats _ _

end Walaru
