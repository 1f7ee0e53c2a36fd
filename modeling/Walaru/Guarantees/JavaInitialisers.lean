import Walaru.Source.Core.AssignedLine

/-!
# Which Java initialisers the surface shows

A field line is kept whole when `static` stands between blanks, the line ends with `;` and
nowhere has a parenthesis. Any other line is cut at its `=`, so an initialiser with a call,
or one behind a leading `static`, leaves no trace in the surface.
-/
namespace Walaru
open Lib.Text

def javaIdentifierPart (c : Char) : Bool := c.isAlphanum || c = '_' || c = '$' || 128 ≤ c.toNat

/-- A line that assigns a static field, anywhere in a source. -/
structure JavaStaticField extends AssignedLine where
  static : ∃ lead rest, head.toList = lead ++ "static".toList ++ rest ∧
    (lead.getLast?.any javaIdentifierPart) = false ∧ (rest.head?.any javaIdentifierPart) = false

/-- How many of the opened ones are left open by a text, when `count` are at its beginning. -/
def openBehind (opening closing : Char) (count : Nat) (text : List Char) : Nat :=
  text.foldl (fun n c => if c = opening then n + 1 else if c = closing then n - 1 else n) count

/-- A brace or an equals sign outside parentheses and brackets. -/
def StopsAt (parentheses brackets : Nat) (text : List Char) (i : Nat) : Prop :=
  (text[i]? = some '\x7b' ∨ text[i]? = some '=') ∧
    openBehind '(' ')' parentheses (text.take i) = 0 ∧ openBehind '[' ']' brackets (text.take i) = 0

instance (parentheses brackets : Nat) (text : List Char) (i : Nat) :
    Decidable (StopsAt parentheses brackets text i) := inferInstanceAs (Decidable (_ ∧ _))

/-- The text up to the first such place, or all of it. -/
def declaration (text : List Char) : List Char :=
  match (List.range text.length).find? (fun i => StopsAt 0 0 text i) with
  | some i => text.take i
  | none => text

theorem cutAt_eq (parentheses brackets : Nat) (text : List Char) :
    cutAt parentheses brackets text =
      ((List.range text.length).find? fun i => StopsAt parentheses brackets text i).map text.take := by
  induction text generalizing parentheses brackets with
  | nil => rfl
  | cons c rest ih =>
    have here : StopsAt parentheses brackets (c :: rest) 0 ↔
        (c = '\x7b' ∨ c = '=') ∧ parentheses = 0 ∧ brackets = 0 := by
      simp [StopsAt, openBehind]
    rw [cutAt, List.length_cons, List.range_succ_eq_map, List.find?_cons]
    by_cases stops : (c = '\x7b' ∨ c = '=') ∧ parentheses = 0 ∧ brackets = 0
    · rw [if_pos stops, decide_eq_true (here.mpr stops)]
      rfl
    · rw [if_neg stops, decide_eq_false (fun found => stops (here.mp found)), ih, List.find?_map,
        Option.map_map, Option.map_map]
      rfl

/-- What is kept of a line that is no field line is its declaration, but for blanks at its end. -/
theorem words_cutBody (value : String) :
    words whiteSpace (cutBody value).toList = words whiteSpace (declaration value.toList) := by
  rw [cutBody, cutAt_eq, declaration]
  cases (List.range value.toList.length).find? fun i => StopsAt 0 0 value.toList i with
  | none => rfl
  | some i => rw [Option.map_some, words_trimEnd, String.toList_ofList]

namespace AssignedLine
variable (l : AssignedLine)

/-- The scanner cuts the line at its `=` or before it. -/
def HeadCut : Prop := (cutAt 0 0 (trim l.head).toList).isSome = true

/-- What is kept of a line that declares something. -/
def kept (initialiser : String) : String :=
  if staticField (trim (l.line initialiser)) then trim (l.line initialiser)
  else cutBody (trim (l.line initialiser))

/-- The whole of a field line, else its declaration. -/
def shown (initialiser : String) : List Char :=
  if staticField (trim (l.line initialiser)) then (trim (l.line initialiser)).toList
  else declaration (trim (l.line initialiser)).toList

theorem words_kept (initialiser : String) :
    words whiteSpace (l.kept initialiser).toList = words whiteSpace (l.shown initialiser) := by
  unfold kept shown
  split
  · rfl
  · exact words_cutBody _

/-- What tells two initialisers apart. Where brackets in the head hide its `=` from the
scanner, the declaration may end in the initialisers, and they differ in front of its end. -/
def Told (first second : String) : Prop :=
  javaDeclares (trim (l.line first)) ≠ javaDeclares (trim (l.line second)) ∨
    javaDeclares (trim (l.line first)) = true ∧
      ((l.HeadCut ∧ (staticField (trim (l.line first)) = true ∨
          staticField (trim (l.line second)) = true)) ∨
        (¬ l.HeadCut ∧ words whiteSpace (l.shown first) ≠ words whiteSpace (l.shown second)))

theorem staticBlock_strip (s : String) :
    startsWith "static \x7b" (trimStart (stripCarriageReturn s)) =
      startsWith "static \x7b" (trimStart s) := by
  rcases stripCarriageReturn_cases s with same | whole
  · rw [same]
  · rw [Bool.eq_iff_iff, startsWith_iff, startsWith_iff, trimStart, trimStart]
    simp only [String.toList_ofList, whole, List.dropWhile_append]
    split
    · rename_i empty
      rw [List.isEmpty_iff.mp empty]
      simp [whiteSpace]
    · rw [prefix_append_iff (by simp)]

/-- The initialiser makes no line a static block. -/
theorem staticBlock_source {initialiser : String} (plain : '\n' ∉ initialiser.toList) :
    staticBlock (l.source initialiser) = staticBlock (l.source "") := by
  have front : ∀ more : String, (trimStart (l.line more)).toList =
      (trimStart l.head).toList ++ more.toList := by
    intro more
    have last := l.trimStart_last
    rw [trimStart, String.toList_ofList] at last
    rw [trimStart, line, String.toList_ofList, String.toList_append, List.dropWhile_append, trimStart,
      String.toList_ofList]
    split
    · rename_i empty
      rw [List.isEmpty_iff.mp empty] at last
      cases last
    · rfl
  have starts : ∀ more : String, startsWith "static \x7b" (trimStart (l.line more)) =
      startsWith "static \x7b" (trimStart l.head) := by
    intro more
    obtain ⟨init, whole⟩ := List.getLast?_eq_some_iff.mp l.trimStart_last
    rw [Bool.eq_iff_iff, startsWith_iff, startsWith_iff, front, whole, List.append_assoc,
      prefix_append_iff (by simp), prefix_append_iff (by simp)]
  have ended : ∀ {more shown : String}, shown = l.line more ∨ shown = stripCarriageReturn (l.line more) →
      startsWith "static \x7b" (trimStart shown) = startsWith "static \x7b" (trimStart l.head) := by
    intro more shown same
    rcases same with rfl | rfl
    · exact starts more
    · rw [staticBlock_strip, starts]
  obtain ⟨shown, same, whole⟩ := l.lines_source plain
  obtain ⟨bare, bareSame, bareWhole⟩ := l.lines_source (show '\n' ∉ "".toList by simp)
  rw [staticBlock, staticBlock, whole, bareWhole, List.any_append, List.any_append, List.any_cons,
    List.any_cons, ended same, ended bareSame]

theorem javaLines_source {initialiser : String} (plain : '\n' ∉ initialiser.toList) :
    (lines (l.source initialiser)).filterMap javaSelected =
      (lines l.before).filterMap javaSelected ++ ((javaSelected (l.line initialiser)).toList ++
        l.later.filterMap javaSelected) := by
  obtain ⟨ended, same, whole⟩ := l.lines_source plain
  have here : javaSelected ended = javaSelected (l.line initialiser) := by
    rcases same with rfl | rfl
    · rfl
    · exact javaSelected_strip _
  rw [whole, List.filterMap_append, List.filterMap_cons, here]
  cases javaSelected (l.line initialiser) with
  | none => simp only [Option.toList_none, List.nil_append]
  | some shown => simp only [Option.toList_some, List.singleton_append]

theorem javaSurface_eq_iff {first second : String} (plain : '\n' ∉ first.toList)
    (other : '\n' ∉ second.toList) (none_ : staticBlock (l.source "") = false) :
    javaSurface (l.source first) = javaSurface (l.source second) ↔
      javaSelected (l.line first) = javaSelected (l.line second) := by
  rw [javaSurface, javaSurface, l.staticBlock_source plain, l.staticBlock_source other, none_,
    if_neg Bool.false_ne_true, if_neg Bool.false_ne_true, javaLines_eq_iff,
    l.javaLines_source plain, l.javaLines_source other, List.append_right_inj, List.append_left_inj]
  constructor
  · intro same
    cases shown : javaSelected (l.line first) <;> cases also : javaSelected (l.line second) <;>
      simp [shown, also] at same ⊢
    exact same
  · intro same
    rw [same]

/-- A cut line has fewer words, or a shorter last one. -/
theorem words_cut {value : String} {kept : List Char} (cut : cutAt 0 0 value.toList = some kept) :
    words whiteSpace value.toList ≠ words whiteSpace (trimEnd (String.ofList kept)).toList := by
  obtain ⟨c, more, whole, stop⟩ := cutAt_some cut
  have solid : whiteSpace c = false := by rcases stop with rfl | rfl <;> decide
  intro same
  rw [words_trimEnd, String.toList_ofList] at same
  have counts := count_words solid value.toList
  rw [same, count_words solid, whole, List.count_append, List.count_cons_self] at counts
  omega

theorem cutBody_of_headCut {parts : List Char}
    (cut : cutAt 0 0 (trim l.head).toList = some parts) (initialiser : String) :
    cutAt 0 0 (trim (l.line initialiser)).toList = some parts ∧
      cutBody (trim (l.line initialiser)) = trimEnd (String.ofList parts) := by
  have here : cutAt 0 0 (trim (l.line initialiser)).toList = some parts := by
    rw [trim_head] at cut
    rw [trim_line, String.toList_append]
    exact cutAt_append cut _
  exact ⟨here, by rw [cutBody, here]⟩

/-- Where the head is cut, only a line kept whole shows its initialiser. -/
theorem kept_of_headCut (cut : l.HeadCut) {first second : String}
    (differ : words whiteSpace (l.line first).toList ≠ words whiteSpace (l.line second).toList) :
    words whiteSpace (l.kept first).toList ≠ words whiteSpace (l.kept second).toList ↔
      staticField (trim (l.line first)) = true ∨ staticField (trim (l.line second)) = true := by
  obtain ⟨parts, found⟩ := Option.isSome_iff_exists.mp cut
  obtain ⟨cutFirst, bodyFirst⟩ := l.cutBody_of_headCut found first
  obtain ⟨cutSecond, bodySecond⟩ := l.cutBody_of_headCut found second
  unfold kept
  rw [bodyFirst, bodySecond]
  by_cases whole : staticField (trim (l.line first)) = true
  · rw [if_pos whole]
    refine iff_of_true ?_ (.inl whole)
    by_cases also : staticField (trim (l.line second)) = true
    · rw [if_pos also, words_trim, words_trim]
      exact differ
    · rw [if_neg also]
      exact words_cut cutFirst
  · rw [if_neg whole]
    by_cases also : staticField (trim (l.line second)) = true
    · rw [if_pos also]
      exact iff_of_true (words_cut cutSecond).symm (.inr also)
    · rw [if_neg also]
      exact iff_of_false (fun different => different rfl) (by simp [whole, also])

theorem javaSelected_line (initialiser : String) :
    javaSelected (l.line initialiser) =
      if javaDeclares (trim (l.line initialiser)) then some (normalizeSpace (l.kept initialiser))
      else none := rfl

theorem told_iff {first second : String}
    (differ : words whiteSpace (l.line first).toList ≠ words whiteSpace (l.line second).toList) :
    javaSelected (l.line first) ≠ javaSelected (l.line second) ↔ l.Told first second := by
  rw [javaSelected_line, javaSelected_line, Told]
  by_cases declares : javaDeclares (trim (l.line first)) = true
  · by_cases also : javaDeclares (trim (l.line second)) = true
    · rw [if_pos declares, if_pos also, declares, also]
      rw [ne_eq, Option.some.injEq, normalizeSpace_eq_iff]
      by_cases cut : l.HeadCut
      · simp only [cut, true_and, not_true_eq_false, false_and, or_false, ne_eq, false_or]
        exact l.kept_of_headCut cut differ
      · simp [cut, words_kept]
    · rw [if_pos declares, if_neg also]
      exact iff_of_true (by simp) (.inl (by simp [declares, also]))
  · by_cases also : javaDeclares (trim (l.line second)) = true
    · rw [if_neg declares, if_pos also]
      exact iff_of_true (by simp) (.inl (by simp [declares, also]))
    · rw [if_neg declares, if_neg also]
      exact iff_of_false (by simp) (by simp [declares, also])

end AssignedLine

/-- Two sources that differ in more than the blanks of one initialiser of a static field have
different surfaces exactly when a line starts with a static block, or the field's line
tells them apart. -/
theorem java_initialisers_told_iff (field : JavaStaticField) (first second : String)
    (plain : '\n' ∉ first.toList) (other : '\n' ∉ second.toList)
    (differ : words whiteSpace (field.line first).toList ≠
      words whiteSpace (field.line second).toList) :
    javaSurface (field.source first) ≠ javaSurface (field.source second) ↔
      staticBlock (field.source "") = true ∨ field.Told first second := by
  by_cases block : staticBlock (field.source "") = true
  · refine iff_of_true ?_ (.inl block)
    rw [javaSurface, javaSurface, field.staticBlock_source plain, field.staticBlock_source other,
      if_pos block, if_pos block]
    intro same
    apply differ
    have chars := congrArg String.toList same
    simp only [AssignedLine.source, String.toList_append, List.append_left_inj,
      List.append_right_inj] at chars
    rw [chars]
  · have none_ : staticBlock (field.source "") = false := by simpa using block
    rw [ne_eq, field.javaSurface_eq_iff plain other none_, ← ne_eq, field.told_iff differ]
    simp [block]

/-- A field of a class, with its modifiers in front of `static`. -/
def modeField (modifiers : String) (oneLine : '\n' ∉ modifiers.toList)
    (ends : (modifiers.toList.getLast?.any javaIdentifierPart) = false) : JavaStaticField where
  before := "class Config \x7b\n"
  head := modifiers ++ "static int mode ="
  after := "\n\x7d\n"
  begins := .inr (by decide)
  oneLine := by
    rw [String.toList_append, List.mem_append, not_or]
    exact ⟨oneLine, by decide⟩
  assigned := by
    rw [String.toList_append, List.getLast?_append]
    rfl
  ends := .inr (by decide)
  static := ⟨modifiers.toList, " int mode =".toList, by simp, ends, by decide⟩

theorem java_initialisers_told_iff_demo :
    javaSurface ((modeField " private " (by decide) (by decide)).source " 1;") ≠
      javaSurface ((modeField " private " (by decide) (by decide)).source " 2;") :=
  (java_initialisers_told_iff (modeField " private " (by decide) (by decide)) " 1;" " 2;"
    (by decide) (by decide) (by decide)).mpr
    (.inr (.inr ⟨by decide, .inl ⟨by unfold AssignedLine.HeadCut; decide, .inl (by decide)⟩⟩))

/-- A field whose first modifier is `static`. -/
theorem leading_static_hides_change :
    ¬ ∀ (field : JavaStaticField) (first second : String), '\n' ∉ first.toList →
      '\n' ∉ second.toList → staticBlock (field.source "") = false →
      words whiteSpace (field.line first).toList ≠ words whiteSpace (field.line second).toList →
      javaSurface (field.source first) ≠ javaSurface (field.source second) := by
  intro claim
  have different := claim (modeField " " (by decide) (by decide)) " 1;" " 2;" (by decide) (by decide)
    (by decide +kernel) (by decide)
  exact different (by decide +kernel)

end Walaru
