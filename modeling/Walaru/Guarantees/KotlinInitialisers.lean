import Walaru.Lib.KotlinLexer
import Walaru.Source.Core.AssignedLine

/-!
# Which Kotlin initialisers the surface shows

The scanner counts the braces of whole lines, also those in literals and comments, and
keeps a property line whole only where its count is zero. There the surface tells any two
initialisers apart, up to their blanks; everywhere else some change of the initialiser
goes unseen.
-/
namespace Walaru
open Lib.Text

/-- A top-level `val` or `var` with an initialiser, anywhere in a source. -/
structure KotlinProperty extends AssignedLine where
  topLevel : Lib.Kotlin.Property before.toList head.toList

/-- The scanner's brace depth at the start of the line. -/
def AssignedLine.braceDepth (l : AssignedLine) : Nat := (lines l.before).foldl braceDepthAfter 0

/-- The scanner is at the top level and reads the line as a property. -/
def AssignedLine.Seen (l : AssignedLine) : Prop :=
  l.braceDepth = 0 ∧ propertyLine (trim l.head) = true

namespace AssignedLine
variable (l : AssignedLine)

theorem kotlinLines_source {initialiser : String} (plain : '\n' ∉ initialiser.toList) :
    kotlinLines 0 (lines (l.source initialiser)) = kotlinLines 0 (lines l.before) ++
      ((kotlinSelected l.braceDepth (l.line initialiser)).toList ++
        kotlinLines (braceDepthAfter l.braceDepth (l.line initialiser)) l.later) := by
  obtain ⟨ended, same, whole⟩ := l.lines_source plain
  rw [whole, kotlinLines_append, kotlinLines]
  rcases same with rfl | rfl
  · rfl
  · rw [kotlinSelected_strip, braceDepthAfter_strip]
    rfl

/-- Two sources have one surface when the line and everything behind it have. -/
theorem kotlinSurface_eq_iff {first second : String} (plain : '\n' ∉ first.toList)
    (other : '\n' ∉ second.toList) :
    kotlinSurface (l.source first) = kotlinSurface (l.source second) ↔
      (kotlinSelected l.braceDepth (l.line first)).toList ++
          kotlinLines (braceDepthAfter l.braceDepth (l.line first)) l.later =
        (kotlinSelected l.braceDepth (l.line second)).toList ++
          kotlinLines (braceDepthAfter l.braceDepth (l.line second)) l.later := by
  rw [Walaru.kotlinSurface_eq_iff, l.kotlinLines_source plain, l.kotlinLines_source other]
  exact List.append_right_inj _

theorem containsDeclaration_trim {declarations : List String}
    (contained : containsDeclaration (trim l.head) declarations = true) (initialiser : String) :
    containsDeclaration (trim (l.line initialiser)) declarations = true := by
  rw [trim_head] at contained
  rw [trim_line]
  unfold containsDeclaration at contained ⊢
  rw [List.any_eq_true] at contained ⊢
  obtain ⟨declaration, member, found⟩ := contained
  refine ⟨declaration, member, ?_⟩
  rw [Bool.or_eq_true, startsWith_iff, containsText_iff] at found ⊢
  rw [String.toList_append]
  rcases found with starts | inside
  · exact .inl (starts.trans (List.prefix_append _ _))
  · exact .inr (inside.trans (List.prefix_append _ _).isInfix)

/-- A text without `=` that the line starts with is one that its head starts with. -/
theorem startsWith_trim {pre : String} (free : '=' ∉ pre.toList) (initialiser : String) :
    startsWith pre (trim (l.line initialiser)) = startsWith pre (trim l.head) := by
  rw [trim_head, trim_line, Bool.eq_iff_iff, startsWith_iff, startsWith_iff, String.toList_append]
  obtain ⟨init, whole⟩ := List.getLast?_eq_some_iff.mp l.trimStart_last
  rw [whole, List.append_assoc, prefix_append_iff (by simp [free]),
    prefix_append_iff (by simp [free])]

theorem propertyLine_trim (seen : propertyLine (trim l.head) = true) (initialiser : String) :
    propertyLine (trim (l.line initialiser)) = true := by
  unfold propertyLine at seen ⊢
  rw [Bool.and_eq_true] at seen ⊢
  rw [l.startsWith_trim (by decide)]
  exact ⟨l.containsDeclaration_trim seen.1 initialiser, seen.2⟩

theorem containsDeclaration_mono {value : String} {some_ more : List String} (within : some_ ⊆ more)
    (contained : containsDeclaration value some_ = true) : containsDeclaration value more = true := by
  unfold containsDeclaration at contained ⊢
  rw [List.any_eq_true] at contained ⊢
  obtain ⟨declaration, member, found⟩ := contained
  exact ⟨declaration, within member, found⟩

theorem kotlinDeclares_of_propertyLine {trimmed : String} (seen : propertyLine trimmed = true) :
    kotlinDeclares trimmed = true := by
  rw [propertyLine, Bool.and_eq_true] at seen
  rw [kotlinDeclares, Bool.or_eq_true]
  exact .inr (containsDeclaration_mono (by simp) seen.1)

theorem kotlinSelected_of_seen (seen : l.Seen) (initialiser : String) :
    kotlinSelected l.braceDepth (l.line initialiser) =
      some (normalizeSpace (trim (l.line initialiser))) := by
  have property := l.propertyLine_trim seen.2 initialiser
  simp only [kotlinSelected]
  rw [if_pos (kotlinDeclares_of_propertyLine property), if_pos ⟨seen.1, property⟩]

/-- Lines of the same words have the same braces. -/
theorem braceDepthAfter_of_words {a b : String}
    (same : words whiteSpace a.toList = words whiteSpace b.toList) (depth : Nat) :
    braceDepthAfter depth a = braceDepthAfter depth b := by
  have counts : ∀ c, whiteSpace c = false → a.toList.count c = b.toList.count c := by
    intro c solid
    rw [← count_words solid a.toList, same, count_words solid]
  rw [braceDepthAfter, braceDepthAfter, counts '{' (by decide), counts '}' (by decide)]

theorem kotlinSurface_of_seen (seen : l.Seen) {first second : String}
    (plain : '\n' ∉ first.toList) (other : '\n' ∉ second.toList) :
    kotlinSurface (l.source first) = kotlinSurface (l.source second) ↔
      words whiteSpace (l.line first).toList = words whiteSpace (l.line second).toList := by
  rw [l.kotlinSurface_eq_iff plain other, l.kotlinSelected_of_seen seen, l.kotlinSelected_of_seen seen]
  constructor
  · intro same
    have whole := (List.cons.inj same).1
    rwa [normalizeSpace_eq_iff, words_trim, words_trim] at whole
  · intro same
    have whole := (normalizeSpace_eq_iff (trim (l.line first)) (trim (l.line second))).mpr (by
      rw [words_trim, words_trim, same])
    rw [whole, braceDepthAfter_of_words same]

end AssignedLine

/-- A text is cut, in it or behind it, when what follows is cut at every depth it can reach. -/
theorem cutAt_isSome_append {parentheses brackets : Nat} (front : List Char) {back : List Char}
    (closed : ∀ p b, p ≤ parentheses + front.length → b ≤ brackets + front.length →
      (cutAt p b back).isSome = true) :
    (cutAt parentheses brackets (front ++ back)).isSome = true := by
  induction front generalizing parentheses brackets with
  | nil => exact closed _ _ (by simp) (by simp)
  | cons c front ih =>
    rw [List.cons_append, cutAt]
    split
    · rfl
    · rw [Option.isSome_map]
      apply ih
      intro p b below under
      have one : (c :: front).length = front.length + 1 := rfl
      apply closed p b
      · split at below
        · omega
        · split at below <;> omega
      · split at under
        · omega
        · split at under <;> omega

theorem cutAt_close_parentheses (n : Nat) {parentheses brackets : Nat} {rest : List Char} :
    (cutAt parentheses brackets (List.replicate n ')' ++ rest)).isSome =
      (cutAt (parentheses - n) brackets rest).isSome := by
  induction n generalizing parentheses with
  | zero => rfl
  | succ n ih =>
    rw [List.replicate_succ, List.cons_append, cutAt, if_neg (by simp), Option.isSome_map]
    simp only [show (')' = '(') = False by decide, show (')' = '[') = False by decide,
      show (')' = ']') = False by decide, if_true, if_false]
    rw [ih, Nat.sub_sub, Nat.add_comm 1 n]

theorem cutAt_close_brackets (n : Nat) {parentheses brackets : Nat} {rest : List Char} :
    (cutAt parentheses brackets (List.replicate n ']' ++ rest)).isSome =
      (cutAt parentheses (brackets - n) rest).isSome := by
  induction n generalizing brackets with
  | zero => rfl
  | succ n ih =>
    rw [List.replicate_succ, List.cons_append, cutAt, if_neg (by simp), Option.isSome_map]
    simp only [show (']' = '(') = False by decide, show (']' = ')') = False by decide,
      show (']' = '[') = False by decide, if_true, if_false]
    rw [ih, Nat.sub_sub, Nat.add_comm 1 n]

namespace AssignedLine
variable (l : AssignedLine)

/-- A comment that closes whatever the head leaves open. -/
def closing : List Char :=
  ['/', '*'] ++ List.replicate (l.head.toList.length + 2) ')' ++
    List.replicate (l.head.toList.length + 2) ']' ++ ['='] ++ ['*', '/']

/-- The comment, and a number of one digit. -/
def numbered (digit : Char) : String := String.ofList (l.closing ++ [digit])

theorem mem_closing {c : Char} (inside : c ∈ l.closing) : c ∈ ['/', '*', ')', ']', '='] := by
  simp only [closing, List.mem_append, List.mem_cons, List.mem_replicate, List.not_mem_nil,
    or_false] at inside
  simp only [List.mem_cons, List.not_mem_nil, or_false]
  tauto

/-- A digit, for the numbers that the scanner does not tell apart. -/
def Digit (c : Char) : Prop := c = '1' ∨ c = '2'

theorem numbered_plain {digit : Char} (one : Digit digit) : '\n' ∉ (l.numbered digit).toList := by
  rw [numbered, String.toList_ofList, List.mem_append, List.mem_singleton, not_or]
  constructor
  · intro inside
    exact absurd (l.mem_closing inside) (by decide)
  · rcases one with rfl | rfl <;> decide

theorem trim_numbered {digit : Char} (one : Digit digit) :
    (trim (l.line (l.numbered digit))).toList = (trimStart l.head).toList ++ (l.closing ++ [digit]) := by
  have kept : trimEnd (l.numbered digit) = l.numbered digit := by
    rw [trimEnd, numbered, String.toList_ofList, List.rdropWhile_concat_neg]
    rcases one with rfl | rfl <;> decide
  rw [trim_line, kept, String.toList_append, numbered, String.toList_ofList]

/-- None of the characters that the closing and the numbers are made of. -/
def lettersOnly (word : List Char) : Bool :=
  word.all fun c => !(['/', '*', ')', ']', '=', '1', '2'].contains c)

/-- The number is none of the characters of a declaration's word. -/
theorem needle_free {digit : Char} (one : Digit digit) {needle : List Char}
    (letters : lettersOnly needle = true) {c : Char} (inside : c ∈ l.closing ++ [digit]) :
    c ∉ needle := by
  intro found
  have other : c ∉ ['/', '*', ')', ']', '=', '1', '2'] := by
    simpa [lettersOnly] using List.all_eq_true.mp letters c found
  apply other
  rw [List.mem_append, List.mem_singleton] at inside
  rcases inside with within | rfl
  · have listed := l.mem_closing within
    simp only [List.mem_cons, List.not_mem_nil, or_false] at listed ⊢
    tauto
  · rcases one with rfl | rfl <;> decide

theorem startsWith_numbered {digit : Char} (one : Digit digit) {needle : String}
    (letters : lettersOnly needle.toList = true) :
    startsWith needle (trim (l.line (l.numbered digit))) = startsWith needle (trim l.head) := by
  rw [Bool.eq_iff_iff, startsWith_iff, startsWith_iff, l.trim_numbered one, trim_head]
  apply prefix_append_iff
  intro c first
  exact l.needle_free one letters (List.mem_of_mem_head? first)

theorem containsText_numbered {digit : Char} (one : Digit digit) {needle : String}
    (some_ : needle.toList ≠ [])
    (letters : lettersOnly needle.toList = true) :
    containsText needle (trim (l.line (l.numbered digit))) = containsText needle (trim l.head) := by
  rw [Bool.eq_iff_iff, containsText_iff, containsText_iff, l.trim_numbered one, trim_head]
  exact infix_append_iff some_ fun c inside => l.needle_free one letters inside

theorem containsDeclaration_numbered {digit : Char} (one : Digit digit) {declarations : List String}
    (letters : declarations.all (fun d => lettersOnly d.toList) = true) :
    containsDeclaration (trim (l.line (l.numbered digit))) declarations =
      containsDeclaration (trim l.head) declarations := by
  unfold containsDeclaration
  induction declarations with
  | nil => rw [List.any_nil, List.any_nil]
  | cons declaration rest ih =>
    rw [List.all_cons, Bool.and_eq_true] at letters
    have spaced : (" " ++ declaration).toList = ' ' :: declaration.toList := by simp
    have blank : lettersOnly (' ' :: declaration.toList) = true := letters.1
    rw [List.any_cons, List.any_cons, ih letters.2, l.startsWith_numbered one letters.1,
      l.containsText_numbered one (by simp [spaced]) (by rw [spaced, blank])]

theorem propertyLine_numbered {digit : Char} (one : Digit digit) :
    propertyLine (trim (l.line (l.numbered digit))) = propertyLine (trim l.head) := by
  rw [propertyLine, propertyLine, l.startsWith_numbered one (by decide),
    l.containsDeclaration_numbered one (by decide)]

theorem kotlinDeclares_numbered {digit : Char} (one : Digit digit) :
    kotlinDeclares (trim (l.line (l.numbered digit))) = kotlinDeclares (trim l.head) := by
  rw [kotlinDeclares, kotlinDeclares, l.startsWith_numbered one (by decide),
    l.startsWith_numbered one (by decide), l.startsWith_numbered one (by decide),
    l.containsDeclaration_numbered one (by decide)]

/-- The cut falls before the number. -/
theorem cutBody_numbered {a b : Char} (one : Digit a) (other : Digit b) :
    cutBody (trim (l.line (l.numbered a))) = cutBody (trim (l.line (l.numbered b))) := by
  have cut : (cutAt 0 0 ((trimStart l.head).toList ++ ['/', '*'] ++
      (List.replicate (l.head.toList.length + 2) ')' ++
        (List.replicate (l.head.toList.length + 2) ']' ++ ['='])))).isSome = true := by
    apply cutAt_isSome_append
    intro p b below under
    have short : (trimStart l.head).toList.length ≤ l.head.toList.length := by
      rw [trimStart, String.toList_ofList]
      exact (List.dropWhile_sublist _).length_le
    simp only [List.length_append, List.length_cons, List.length_nil] at below under
    rw [cutAt_close_parentheses, cutAt_close_brackets, Nat.sub_eq_zero_of_le (by omega),
      Nat.sub_eq_zero_of_le (by omega)]
    rfl
  obtain ⟨kept, found⟩ := Option.isSome_iff_exists.mp cut
  have whole : ∀ {digit}, Digit digit → cutAt 0 0 (trim (l.line (l.numbered digit))).toList = some kept := by
    intro digit this
    have later := cutAt_append found (['*', '/'] ++ [digit])
    rw [l.trim_numbered this, closing]
    simpa only [List.append_assoc] using later
  rw [cutBody, cutBody, whole one, whole other]

theorem kotlinSelected_numbered (unseen : ¬ l.Seen) {a b : Char} (one : Digit a) (other : Digit b) :
    kotlinSelected l.braceDepth (l.line (l.numbered a)) =
      kotlinSelected l.braceDepth (l.line (l.numbered b)) := by
  have cut : ∀ {digit}, Digit digit →
      ¬ (l.braceDepth = 0 ∧ propertyLine (trim (l.line (l.numbered digit))) = true) := by
    intro digit this whole
    rw [l.propertyLine_numbered this] at whole
    exact unseen whole
  simp only [kotlinSelected]
  rw [l.kotlinDeclares_numbered one, l.kotlinDeclares_numbered other, if_neg (cut one),
    if_neg (cut other), l.cutBody_numbered one other]

theorem count_numbered {digit c : Char} (different : c ≠ digit) :
    (l.line (l.numbered digit)).toList.count c = l.head.toList.count c + l.closing.count c := by
  rw [line, numbered, String.toList_append, String.toList_ofList, List.count_append,
    List.count_append, List.count_singleton]
  simp [different.symm]

/-- The two numbers leave one surface, and their lines differ in more than blanks. -/
theorem numbered_unseen (unseen : ¬ l.Seen) :
    kotlinSurface (l.source (l.numbered '1')) = kotlinSurface (l.source (l.numbered '2')) ∧
      words whiteSpace (l.line (l.numbered '1')).toList ≠
        words whiteSpace (l.line (l.numbered '2')).toList := by
  have one : Digit '1' := .inl rfl
  have other : Digit '2' := .inr rfl
  constructor
  · rw [l.kotlinSurface_eq_iff (l.numbered_plain one) (l.numbered_plain other),
      l.kotlinSelected_numbered unseen one other, braceDepthAfter, braceDepthAfter,
      l.count_numbered (by decide), l.count_numbered (by decide), l.count_numbered (by decide),
      l.count_numbered (by decide)]
  · intro same
    have lost := count_words (show whiteSpace '1' = false by decide)
      (l.line (l.numbered '1')).toList
    rw [same, count_words (by decide), l.count_numbered (by decide)] at lost
    rw [line, numbered, String.toList_append, String.toList_ofList, List.count_append,
      List.count_append, List.count_singleton] at lost
    simp at lost

end AssignedLine

/-- At a top-level property, the surface tells any two initialisers apart that differ in more
than blanks exactly when the scanner's depth is zero there and it reads a property. -/
theorem kotlin_initialisers_seen_iff (property : KotlinProperty) :
    (∀ first second : String, '\n' ∉ first.toList → '\n' ∉ second.toList →
      (kotlinSurface (property.source first) ≠ kotlinSurface (property.source second) ↔
        words whiteSpace (property.line first).toList ≠
          words whiteSpace (property.line second).toList)) ↔ property.Seen := by
  constructor
  · intro told
    by_contra unseen
    obtain ⟨same, different⟩ := property.numbered_unseen unseen
    exact (told _ _ (property.numbered_plain (.inl rfl)) (property.numbered_plain (.inr rfl))).mpr
      different same
  · intro seen first second plain other
    exact not_congr (property.kotlinSurface_of_seen seen plain other)

/-- A brace in the text of an earlier constant leaves the scanner one level too deep. -/
def bracedConstant : KotlinProperty where
  before := "const val open = \"\x7b\"\n"
  head := "val answer ="
  after := "\n"
  begins := .inr (by decide)
  oneLine := by decide
  assigned := by decide
  ends := .inr (by decide)
  topLevel := ⟨[], "val".toList, " answer ".toList, by decide, .inl rfl, by decide, by decide,
    by decide, by decide⟩

theorem braced_constant_hides_change :
    ¬ ∀ (property : KotlinProperty) (first second : String), '\n' ∉ first.toList →
      '\n' ∉ second.toList →
      words whiteSpace (property.line first).toList ≠
        words whiteSpace (property.line second).toList →
      kotlinSurface (property.source first) ≠ kotlinSurface (property.source second) := by
  intro claim
  have different := claim bracedConstant " 41" " 42" (by decide) (by decide) (by decide)
  exact different (by decide +kernel)

theorem lines_endLines {ls : List String} (plain : ∀ l ∈ ls, '\n' ∉ l.toList) :
    lines (endLines ls) = ls.map stripCarriageReturn := by
  induction ls with
  | nil => decide
  | cons line rest ih =>
    rw [List.forall_mem_cons] at plain
    have first : endLines (line :: rest) = line ++ "\n" ++ endLines rest := by
      apply String.toList_inj.mp
      simp [endLines]
    rw [first, lines_append_newline, splitChar_of_not_mem plain.1, ih plain.2]
    rfl

namespace AssignedLine
variable (l : AssignedLine)

theorem exists_lines : ∃ ls, (∀ line ∈ ls, '\n' ∉ line.toList) ∧ l.before = endLines ls := by
  rcases l.begins with empty | ended
  · exact ⟨[], by simp, empty⟩
  · obtain ⟨front, whole⟩ := List.isSuffixOf_iff_suffix.mp ended
    refine ⟨splitChar '\n' (String.ofList front), fun line member => splitChar_free member, ?_⟩
    apply String.toList_inj.mp
    rw [← whole]
    have joined := congrArg String.toList (joinChar_splitChar '\n' (String.ofList front))
    have general : ∀ ls : List String, ls ≠ [] →
        (endLines ls).toList = (joinChar '\n' ls).toList ++ ['\n'] := by
      intro ls occupied
      simp only [endLines, joinChar, String.toList_ofList]
      induction ls with
      | nil => exact absurd rfl occupied
      | cons line rest ih =>
        cases rest with
        | nil => simp [List.intercalate]
        | cons next rest =>
          rw [List.flatMap_cons, ih (List.cons_ne_nil _ _)]
          simp [List.intercalate_cons_cons]
    rw [general _ (splitChar_ne_nil _ _), joined]
    simp

/-- Where all braces before the line stand in the code, the scanner knows the depth. -/
theorem braceDepth_of_bracesCount (counted : Lib.Kotlin.Lexer.start.BracesCount l.before.toList) :
    l.braceDepth = (Lib.Kotlin.read l.before.toList).depth := by
  obtain ⟨ls, plain, whole⟩ := l.exists_lines
  have general : ∀ (ls : List String) (s : Lib.Kotlin.Lexer), s.BracesCount (endLines ls).toList →
      (ls.map stripCarriageReturn).foldl braceDepthAfter s.depth =
        ((endLines ls).toList.foldl Lib.Kotlin.Lexer.step s).depth := by
    intro ls
    induction ls with
    | nil => exact fun s _ => rfl
    | cons line rest ih =>
      intro s counted
      have first : (endLines (line :: rest)).toList = line.toList ++ ['\n'] ++ (endLines rest).toList := by
        simp [endLines]
      rw [first] at counted ⊢
      obtain ⟨here, later⟩ := Lib.Kotlin.Lexer.bracesCount_append.mp counted
      have depth := Lib.Kotlin.Lexer.depth_foldl here
      rw [List.count_append, List.count_append] at depth
      simp only [List.count_singleton, show ('\n' == '}') = false by decide,
        show ('\n' == '{') = false by decide, Bool.false_eq_true, if_false, Nat.add_zero] at depth
      have stepped : braceDepthAfter s.depth (stripCarriageReturn line) =
          ((line.toList ++ ['\n']).foldl Lib.Kotlin.Lexer.step s).depth := by
        rw [braceDepthAfter_strip, braceDepthAfter]
        omega
      rw [List.map_cons, List.foldl_cons, stepped, ih _ later, ← List.foldl_append]
  rw [braceDepth, whole, lines_endLines plain]
  exact general ls .start (whole ▸ counted)

end AssignedLine

/-- With all braces before it in the code, a line that starts at the top level is seen when
it reads as a property. -/
theorem KotlinProperty.seen_of_bracesCount (property : KotlinProperty)
    (top : Lib.Kotlin.topLevel property.before.toList = true)
    (counted : Lib.Kotlin.Lexer.start.BracesCount property.before.toList)
    (reads : propertyLine (trim property.head) = true) : property.Seen :=
  ⟨(property.braceDepth_of_bracesCount counted).trans (Lib.Kotlin.depth_of_topLevel top), reads⟩

end Walaru
