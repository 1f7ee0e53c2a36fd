import Walaru.Guarantees.CompilerLines

/-!
# Compiler problems are read back

A line in one of the formats the parser can read gives the problem it was printed for exactly
when the path has no backslashes that turn into slashes, the numbers fit their type, the line is
not too long, and the message is one the parser's cleaning leaves as it is.
-/
namespace Walaru
open Lib.TextSearch Lib.TrimmedLists

theorem whiteSpace_digit {c : Char} (digit : c.isDigit = true) : whiteSpace c = false := by
  simp only [Char.isDigit, Bool.and_eq_true, decide_eq_true_eq] at digit
  have low : 48 ≤ c.toNat := UInt32.le_iff_toNat_le.mp digit.1
  have high : c.toNat ≤ 57 := UInt32.le_iff_toNat_le.mp digit.2
  simp only [whiteSpace, Bool.or_eq_false_iff, Bool.and_eq_false_iff, decide_eq_false_iff_not]
  omega

theorem digit_of_mem {n : Nat} {c : Char} (member : c ∈ digits n) : c.isDigit = true :=
  Nat.isDigit_of_mem_toDigits (by decide) (by decide) member

theorem notMem_digits {n : Nat} {c : Char} (other : c.isDigit = false) : c ∉ digits n := by
  intro member
  rw [digit_of_mem member] at other
  cases other

theorem digits_cons (n : Nat) : ∃ c rest, digits n = c :: rest ∧ c.isDigit = true := by
  cases shape : digits n with
  | nil => exact absurd shape Nat.toDigits_ne_nil
  | cons c rest => exact ⟨c, rest, rfl, digit_of_mem (shape ▸ List.mem_cons_self)⟩

theorem trimmedText_digits (n : Nat) : trimmedText (digits n) = digits n :=
  trimList_of_ends (fun _ first => whiteSpace_digit (digit_of_mem (List.mem_of_mem_head? first)))
    fun _ last => whiteSpace_digit (digit_of_mem (List.mem_of_getLast? last))

theorem trimmedText_space (text : List Char) : trimmedText (' ' :: text) = trimmedText text := by
  have blank : ∀ c ∈ [' '], whiteSpace c = true := by
    intro c inside
    rw [List.mem_singleton.mp inside]
    decide
  have spaced := @trimList_append _ whiteSpace [' '] [] text blank nofun
  rwa [List.append_nil] at spaced

theorem trimmedText_space_digits (n : Nat) : trimmedText (' ' :: digits n) = digits n :=
  (trimmedText_space _).trans (trimmedText_digits n)

theorem parseU32_digits (n : Nat) : parseU32 (digits n) = if n < 2 ^ 32 then some n else none := by
  obtain ⟨c, rest, shape, digit⟩ := digits_cons n
  have same : unsigned (digits n) = digits n := by
    rw [shape, unsigned]
    rintro more plus
    obtain ⟨rfl, -⟩ := List.cons.inj plus
    cases digit
  have all : (digits n).all Char.isDigit = true :=
    List.all_eq_true.mpr fun d member => digit_of_mem member
  have occupied : digits n ≠ [] := Nat.toDigits_ne_nil
  have value : Nat.ofDigitChars 10 (digits n) 0 = n := Nat.ofDigitChars_ten_toDigits
  rw [parseU32, same, if_neg (by simp [all, occupied]), value, Option.filter_some]
  simp only [decide_eq_true_eq]

theorem splitGo_digits (n : Nat) (rest : List Char) :
    Lib.Text.splitGo [','] 0 [] (digits n ++ ',' :: rest) =
      digits n :: Lib.Text.splitGo [','] 0 [] rest := by
  have pass := Lib.Text.splitGo_pass (@notMem_digits n ',' (by decide)) [] (',' :: rest)
  rw [pass]
  simp [Lib.Text.splitGo]

theorem splitGo_comma_free {text : List Char} (free : ',' ∉ text) :
    Lib.Text.splitGo [','] 0 [] text = [text] := by
  have pass := Lib.Text.splitGo_pass free [] []
  rw [List.append_nil] at pass
  rw [pass]
  simp [Lib.Text.splitGo]

/-- The column the parser makes of a number. -/
def readColumn (column : Nat) : Option Nat := if column < 2 ^ 32 then some column else none

/-- A line and a column in brackets, with or without a blank between them. -/
theorem bracketedPosition_printed (p : PrintedProblem) {close : Char} (other : close.isDigit = false)
    (comma : close ≠ ',') {blank : List Char} (blanks : blank = [] ∨ blank = [' '])
    (apart : close ∉ blank) (rest : List Char) :
    bracketedPosition close (digits p.line ++ ',' :: (blank ++ digits p.column) ++ close :: rest) =
      if p.line < 2 ^ 32 then some (p.line, readColumn p.column, rest) else none := by
  have free : close ∉ digits p.line ++ ',' :: (blank ++ digits p.column) := by
    simp only [List.mem_append, List.mem_cons, not_or]
    exact ⟨notMem_digits other, comma, apart, notMem_digits other⟩
  have noComma : ',' ∉ blank ++ digits p.column := by
    rw [List.mem_append, not_or]
    exact ⟨by rcases blanks with rfl | rfl <;> decide, notMem_digits (by decide)⟩
  have second : trimmedText (blank ++ digits p.column) = digits p.column := by
    rcases blanks with rfl | rfl
    · exact trimmedText_digits _
    · exact trimmedText_space_digits _
  rw [bracketedPosition, splitAround_append free]
  simp only [Option.bind_eq_bind, Option.bind_some, splitGo_digits, splitGo_comma_free noComma,
    List.map_cons, List.map_nil, trimmedText_digits, second]
  have kept : (parseU32 (digits p.column)).filter (0 < ·) = readColumn p.column := by
    rw [parseU32_digits, readColumn]
    split_ifs
    · simp [p.columnPositive]
    · rfl
  simp only [List.getElem?_cons_zero, List.getElem?_cons_succ, Option.bind_some, kept]
  rw [parseU32_digits]
  by_cases fits : p.line < 2 ^ 32
  · rw [if_pos fits, if_pos fits, Option.bind_some, if_pos p.linePositive]
  · rw [if_neg fits, if_neg fits, Option.bind_none]

/-- What stands behind the position. -/
def CompilerFormat.remainder (p : PrintedProblem) : CompilerFormat → List Char
  | .javac => p.severity.toList ++ ": ".toList ++ p.message
  | .maven | .kotlin2 => " ".toList ++ p.message
  | .kotlin1 => ": ".toList ++ p.message

theorem compilerPosition_javac (p : PrintedProblem) :
    compilerPosition (CompilerFormat.position p .javac) =
      if p.line < 2 ^ 32 then some (p.line, none, CompilerFormat.remainder p .javac) else none := by
  obtain ⟨c, rest, shape, digit⟩ := digits_cons p.line
  have start : (CompilerFormat.position p .javac).dropWhile whiteSpace =
      CompilerFormat.position p .javac := by
    rw [CompilerFormat.position, shape]
    exact List.dropWhile_cons_of_neg (by simp [whiteSpace_digit digit])
  have parts : splitAround ':' (CompilerFormat.position p .javac) =
      some (digits p.line, ' ' :: CompilerFormat.remainder p .javac) := by
    have whole : CompilerFormat.position p .javac =
        digits p.line ++ ':' :: ' ' :: CompilerFormat.remainder p .javac := by
      simp [CompilerFormat.position, CompilerFormat.remainder]
    rw [whole]
    exact splitAround_append (notMem_digits (by decide)) _
  have words : splitAround ':' (CompilerFormat.remainder p .javac) =
      some (p.severity.toList, ' ' :: p.message) := by
    have whole : CompilerFormat.remainder p .javac = p.severity.toList ++ ':' :: ' ' :: p.message := by
      simp [CompilerFormat.remainder]
    rw [whole]
    refine splitAround_append ?_ _
    rw [PrintedProblem.severity]
    split_ifs <;> decide
  have noNumber : parseU32 (trimmedText p.severity.toList) = none := by
    rw [PrintedProblem.severity]
    split_ifs <;> decide
  have spaced : (' ' :: CompilerFormat.remainder p .javac).dropWhile whiteSpace =
      CompilerFormat.remainder p .javac := by
    rw [List.dropWhile_cons_of_pos (by decide), CompilerFormat.remainder, PrintedProblem.severity]
    split_ifs
    · exact List.dropWhile_cons_of_neg (by decide)
    · exact List.dropWhile_cons_of_neg (by decide)
  rw [compilerPosition, start]
  split
  · rename_i bracket
    rw [CompilerFormat.position, shape] at bracket
    obtain ⟨rfl, -⟩ := List.cons.inj bracket
    cases digit
  · rename_i bracket
    rw [CompilerFormat.position, shape] at bracket
    obtain ⟨rfl, -⟩ := List.cons.inj bracket
    cases digit
  · rw [parts]
    simp only [Option.bind_eq_bind, Option.bind_some, trimmedText_digits, parseU32_digits, spaced]
    by_cases fits : p.line < 2 ^ 32
    · rw [if_pos fits, if_pos fits, Option.bind_some, if_neg (Nat.ne_of_gt p.linePositive), words]
      simp only [noNumber]
    · rw [if_neg fits, if_neg fits, Option.bind_none]

theorem compilerPosition_maven (p : PrintedProblem) :
    compilerPosition (CompilerFormat.position p .maven) =
      if p.line < 2 ^ 32 then
        some (p.line, readColumn p.column, CompilerFormat.remainder p .maven) else none := by
  have whole : CompilerFormat.position p .maven = '[' :: (digits p.line ++ ',' ::
      ([] ++ digits p.column) ++ ']' :: CompilerFormat.remainder p .maven) := by
    simp [CompilerFormat.position, CompilerFormat.remainder]
  rw [whole, compilerPosition, List.dropWhile_cons_of_neg (by decide)]
  exact bracketedPosition_printed p (by decide) (by decide) (.inl rfl) (by decide) _

theorem compilerPosition_kotlin1 (p : PrintedProblem) :
    compilerPosition (CompilerFormat.position p .kotlin1) =
      if p.line < 2 ^ 32 then
        some (p.line, readColumn p.column, CompilerFormat.remainder p .kotlin1) else none := by
  have whole : CompilerFormat.position p .kotlin1 = ' ' :: '(' :: (digits p.line ++ ',' ::
      ([' '] ++ digits p.column) ++ ')' :: CompilerFormat.remainder p .kotlin1) := by
    simp [CompilerFormat.position, CompilerFormat.remainder]
  rw [whole, compilerPosition, List.dropWhile_cons_of_pos (by decide),
    List.dropWhile_cons_of_neg (by decide)]
  exact bracketedPosition_printed p (by decide) (by decide) (.inr rfl) (by decide) _

/-- The position of a format that the parser can read. -/
theorem compilerPosition_printed {f : CompilerFormat} (dialect : f ≠ .kotlin2) (p : PrintedProblem) :
    compilerPosition (f.position p) =
      if p.line < 2 ^ 32 then
        some (p.line, if f = .javac then none else readColumn p.column, f.remainder p) else none := by
  cases f with
  | javac => exact compilerPosition_javac p
  | maven => exact compilerPosition_maven p
  | kotlin1 => exact compilerPosition_kotlin1 p
  | kotlin2 => exact absurd rfl dialect

/-- The end of the cleaning: the words at the start, the blanks and what is too long. -/
def finished (text : List Char) : List Char :=
  let text := stripRepeated "error:".toList text.length text
  let text := stripRepeated "warning:".toList text.length text
  (trimmedText text).take maxProblemMessage

/-- What the cleaning makes of the message of a format. -/
def CompilerFormat.cleaned (message : List Char) : CompilerFormat → List Char
  | .javac => (trimmedText message).take maxProblemMessage
  | .maven | .kotlin2 => finished (trimmedText ((trimmedText message).dropWhile (· = ':')))
  | .kotlin1 => finished (trimmedText message)

theorem problemMessage_eq (remainder : List Char) :
    problemMessage remainder =
      finished (trimmedText ((trimmedText remainder).dropWhile (· = ':'))) :=
  rfl

theorem trimmedText_trimmedText (text : List Char) :
    trimmedText (trimmedText text) = trimmedText text :=
  trimList_trimList (fun _ blank => blank) text

/-- The end of a text does not matter for the text between its blanks. -/
theorem trimmedText_rdropWhile (text : List Char) :
    trimmedText (text.rdropWhile whiteSpace) = trimmedText text := by
  conv_rhs => rw [← @List.rdropWhile_append_rtakeWhile _ whiteSpace text]
  have blanks : ∀ c ∈ text.rtakeWhile whiteSpace, whiteSpace c = true :=
    fun c inside => List.mem_rtakeWhile_imp inside
  exact (@trimList_append _ whiteSpace [] _ _ nofun blanks).symm

theorem not_prefix_spaced {c : Char} (other : c ≠ ' ') (word message : List Char) :
    ¬c :: word <+: (' ' :: message).rdropWhile whiteSpace := by
  intro starts
  exact other (List.cons_prefix_cons.mp (starts.trans (List.rdropWhile_prefix _ _))).1

theorem finished_error {rest : List Char} (noError : ¬"error:".toList <+: rest)
    (noWarning : ¬"warning:".toList <+: rest) :
    finished ("error:".toList ++ rest) = (trimmedText rest).take maxProblemMessage := by
  rw [finished, stripRepeated_once (by decide) noError]
  simp only [stripRepeated_none noWarning]

theorem finished_warning {rest : List Char} (noWarning : ¬"warning:".toList <+: rest) :
    finished ("warning:".toList ++ rest) = (trimmedText rest).take maxProblemMessage := by
  have other : ¬"error:".toList <+: "warning:".toList ++ rest := by
    intro starts
    exact absurd (List.cons_prefix_cons.mp starts).1 (by decide)
  rw [finished, stripRepeated_none other]
  simp only [stripRepeated_once (by decide) noWarning]

theorem problemMessage_javac (p : PrintedProblem) :
    problemMessage (CompilerFormat.remainder p .javac) =
      CompilerFormat.cleaned p.message .javac := by
  have plain : ∀ word : List Char, ∀ c, c ≠ ' ' →
      ¬c :: word <+: (' ' :: p.message).rdropWhile whiteSpace :=
    fun word c other => not_prefix_spaced other word p.message
  have inner : trimmedText ((' ' :: p.message).rdropWhile whiteSpace) = trimmedText p.message :=
    (trimmedText_rdropWhile _).trans (trimmedText_space _)
  have opened : ∀ word : List Char, ∀ c, word.head? = some c → whiteSpace c = false → c ≠ ':' →
      word.getLast? = some ':' → trimmedText ((trimmedText (word ++ ' ' :: p.message)).dropWhile
        (· = ':')) = word ++ (' ' :: p.message).rdropWhile whiteSpace := by
    intro word c first solid other last
    have trimmed : trimmedText (word ++ ' ' :: p.message) =
        word ++ (' ' :: p.message).rdropWhile whiteSpace :=
      trimList_append_solid _ first solid last (by decide)
    have stays : (trimmedText (word ++ ' ' :: p.message)).dropWhile (· = ':') =
        trimmedText (word ++ ' ' :: p.message) := by
      rw [trimmed]
      cases word with
      | nil => cases first
      | cons d word =>
        obtain rfl := Option.some.inj first
        exact List.dropWhile_cons_of_neg (by simp [other])
    rw [stays, trimmedText_trimmedText, trimmed]
  rw [problemMessage_eq, CompilerFormat.cleaned, ← inner]
  cases severity : p.warning with
  | false =>
    have whole : CompilerFormat.remainder p .javac = "error:".toList ++ ' ' :: p.message := by
      simp [CompilerFormat.remainder, PrintedProblem.severity, severity]
    rw [whole, opened _ 'e' rfl (by decide) (by decide) rfl]
    exact finished_error (plain _ _ (by decide)) (plain _ _ (by decide))
  | true =>
    have whole : CompilerFormat.remainder p .javac = "warning:".toList ++ ' ' :: p.message := by
      simp [CompilerFormat.remainder, PrintedProblem.severity, severity]
    rw [whole, opened _ 'w' rfl (by decide) (by decide) rfl]
    exact finished_warning (plain _ _ (by decide))

theorem problemMessage_kotlin1 (p : PrintedProblem) :
    problemMessage (CompilerFormat.remainder p .kotlin1) =
      CompilerFormat.cleaned p.message .kotlin1 := by
  have trimmed : trimmedText (CompilerFormat.remainder p .kotlin1) =
      [':'] ++ (' ' :: p.message).rdropWhile whiteSpace := by
    have whole : CompilerFormat.remainder p .kotlin1 = [':'] ++ ' ' :: p.message := by
      simp [CompilerFormat.remainder]
    rw [whole]
    exact @trimList_append_solid _ whiteSpace ':' ':' [':'] _ rfl (by decide) rfl (by decide)
  have rest : ((' ' :: p.message).rdropWhile whiteSpace).dropWhile (· = ':') =
      (' ' :: p.message).rdropWhile whiteSpace := by
    cases shape : (' ' :: p.message).rdropWhile whiteSpace with
    | nil => rfl
    | cons c more =>
      refine List.dropWhile_cons_of_neg ?_
      rw [decide_eq_true_eq]
      rintro rfl
      refine @not_prefix_spaced ':' (by decide) [] p.message ?_
      rw [shape]
      exact List.cons_prefix_cons.mpr ⟨rfl, List.nil_prefix⟩
  rw [problemMessage_eq, CompilerFormat.cleaned, trimmed, List.singleton_append,
    List.dropWhile_cons_of_pos (by decide), rest, trimmedText_rdropWhile, trimmedText_space]

/-- The parser's message of a format depends on the printed message only. -/
theorem problemMessage_printed {f : CompilerFormat} (dialect : f ≠ .kotlin2) (p : PrintedProblem) :
    problemMessage (f.remainder p) = f.cleaned p.message := by
  cases f with
  | javac => exact problemMessage_javac p
  | maven =>
    have whole : CompilerFormat.remainder p .maven = ' ' :: p.message := by
      simp [CompilerFormat.remainder]
    rw [problemMessage_eq, CompilerFormat.cleaned, whole, trimmedText_space]
  | kotlin1 => exact problemMessage_kotlin1 p
  | kotlin2 => exact absurd rfl dialect

theorem trimmedText_sublist (text : List Char) : (trimmedText text).Sublist text :=
  (List.rdropWhile_prefix _ _).sublist.trans (List.dropWhile_sublist _)

theorem finished_sublist (text : List Char) : (finished text).Sublist text :=
  (List.take_sublist _ _).trans ((trimmedText_sublist _).trans
    ((stripRepeated_suffix _ _ _).sublist.trans (stripRepeated_suffix _ _ _).sublist))

theorem take_eq_self_iff (size : Nat) (text : List Char) :
    text.take size = text ↔ text.length ≤ size :=
  ⟨fun whole => by
    have short := congrArg List.length whole
    rw [List.length_take] at short
    omega, List.take_of_length_le⟩

theorem finished_eq_iff {message : List Char} (occupied : message ≠ []) :
    finished message = message ↔ trimmedText message = message ∧
      message.length ≤ maxProblemMessage ∧ ¬"error:".toList <+: message ∧
        ¬"warning:".toList <+: message := by
  have size := List.length_pos_of_ne_nil occupied
  constructor
  · intro same
    -- What each step leaves holds the message and is part of it.
    rw [finished] at same
    have first : stripRepeated "error:".toList message.length message = message := by
      refine List.Sublist.antisymm (stripRepeated_suffix _ _ _).sublist ?_
      conv_lhs => rw [← same]
      exact (List.take_sublist _ _).trans ((trimmedText_sublist _).trans
        (stripRepeated_suffix _ _ _).sublist)
    simp only [first] at same
    have second : stripRepeated "warning:".toList message.length message = message := by
      refine List.Sublist.antisymm (stripRepeated_suffix _ _ _).sublist ?_
      conv_lhs => rw [← same]
      exact (List.take_sublist _ _).trans (trimmedText_sublist _)
    simp only [second] at same
    have third : trimmedText message = message := by
      refine List.Sublist.antisymm (trimmedText_sublist _) ?_
      conv_lhs => rw [← same]
      exact List.take_sublist _ _
    rw [third] at same
    exact ⟨third, (take_eq_self_iff _ _).mp same, (stripRepeated_eq_iff (by decide) size _).mp first,
      (stripRepeated_eq_iff (by decide) size _).mp second⟩
  · rintro ⟨trimmed, short, noError, noWarning⟩
    rw [finished]
    simp only [stripRepeated_none noError, stripRepeated_none noWarning, trimmed]
    exact List.take_of_length_le short

/-- The starts that the cleaning takes off the message of a format. -/
def CompilerFormat.stripped : CompilerFormat → List (List Char)
  | .javac => []
  | .maven | .kotlin2 => [":".toList, "error:".toList, "warning:".toList]
  | .kotlin1 => ["error:".toList, "warning:".toList]

/-- A message that the cleaning of a format leaves as it is. -/
structure CompilerFormat.Keeps (f : CompilerFormat) (message : List Char) : Prop where
  occupied : message ≠ []
  trimmed : trimmedText message = message
  short : message.length ≤ maxProblemMessage
  starts : ∀ word ∈ f.stripped, ¬word <+: message

theorem dropColons_eq_iff (message : List Char) :
    message.dropWhile (· = ':') = message ↔ ¬":".toList <+: message := by
  cases message with
  | nil => decide
  | cons c message =>
    constructor
    · intro same starts
      obtain rfl := (List.cons_prefix_cons.mp starts).1
      rw [List.dropWhile_cons_of_pos (by decide)] at same
      have long := congrArg List.length same
      have short : (message.dropWhile (· = ':')).length ≤ message.length :=
        (List.dropWhile_sublist _).length_le
      rw [List.length_cons] at long
      omega
    · intro absent
      refine List.dropWhile_cons_of_neg ?_
      rw [decide_eq_true_eq]
      rintro rfl
      exact absent (List.cons_prefix_cons.mpr ⟨rfl, List.nil_prefix⟩)

/-- Without colons in front only a trimmed message is read, and the rest of the cleaning decides. -/
theorem finished_trimmed_eq_iff {message : List Char} (occupied : message ≠ []) :
    finished (trimmedText message) = message ↔ trimmedText message = message ∧
      message.length ≤ maxProblemMessage ∧ ¬"error:".toList <+: message ∧
        ¬"warning:".toList <+: message := by
  constructor
  · intro same
    have trimmed : trimmedText message = message := by
      refine List.Sublist.antisymm (trimmedText_sublist _) ?_
      conv_lhs => rw [← same]
      exact finished_sublist _
    rw [trimmed] at same
    exact (finished_eq_iff occupied).mp same
  · intro kept
    rw [kept.1]
    exact (finished_eq_iff occupied).mpr kept

theorem cleaned_maven_eq_iff {message : List Char} (occupied : message ≠ []) :
    finished (trimmedText ((trimmedText message).dropWhile (· = ':'))) = message ↔
      ¬":".toList <+: message ∧ finished (trimmedText message) = message := by
  constructor
  · intro same
    have inner : (finished (trimmedText ((trimmedText message).dropWhile (· = ':')))).Sublist
        ((trimmedText message).dropWhile (· = ':')) :=
      (finished_sublist _).trans (trimmedText_sublist _)
    have trimmed : trimmedText message = message := by
      refine List.Sublist.antisymm (trimmedText_sublist _) ?_
      conv_lhs => rw [← same]
      exact inner.trans (List.dropWhile_sublist _)
    rw [trimmed] at same inner
    have colons : message.dropWhile (· = ':') = message := by
      refine List.Sublist.antisymm (List.dropWhile_sublist _) ?_
      conv_lhs => rw [← same]
      exact inner
    rw [colons] at same
    exact ⟨(dropColons_eq_iff _).mp colons, same⟩
  · rintro ⟨absent, same⟩
    rw [((finished_trimmed_eq_iff occupied).mp same).1, (dropColons_eq_iff _).mpr absent]
    exact same

/-- The cleaning leaves a message exactly when the format keeps it. -/
theorem cleaned_eq_iff {f : CompilerFormat} {message : List Char} (occupied : message ≠ []) :
    f.cleaned message = message ↔ f.Keeps message := by
  have keeps : ∀ f : CompilerFormat, f.Keeps message ↔ trimmedText message = message ∧
      message.length ≤ maxProblemMessage ∧ ∀ word ∈ f.stripped, ¬word <+: message :=
    fun f => ⟨fun kept => ⟨kept.trimmed, kept.short, kept.starts⟩,
      fun kept => ⟨occupied, kept.1, kept.2.1, kept.2.2⟩⟩
  have colon : finished (trimmedText ((trimmedText message).dropWhile (· = ':'))) = message ↔
      CompilerFormat.Keeps .maven message := by
    rw [cleaned_maven_eq_iff occupied, finished_trimmed_eq_iff occupied, keeps]
    simp only [CompilerFormat.stripped, List.forall_mem_cons, List.not_mem_nil, false_imp_iff,
      implies_true, and_true]
    tauto
  cases f with
  | javac =>
    rw [CompilerFormat.cleaned, keeps]
    simp only [CompilerFormat.stripped, List.not_mem_nil, false_imp_iff, implies_true, and_true]
    constructor
    · intro same
      have trimmed : trimmedText message = message := by
        refine List.Sublist.antisymm (trimmedText_sublist _) ?_
        conv_lhs => rw [← same]
        exact List.take_sublist _ _
      rw [trimmed] at same
      exact ⟨trimmed, (take_eq_self_iff _ _).mp same⟩
    · rintro ⟨trimmed, short⟩
      rw [trimmed]
      exact List.take_of_length_le short
  | maven => exact colon
  | kotlin1 =>
    rw [CompilerFormat.cleaned, finished_trimmed_eq_iff occupied, keeps]
    simp only [CompilerFormat.stripped, List.forall_mem_cons, List.not_mem_nil, false_imp_iff,
      implies_true, and_true]
  | kotlin2 => exact colon.trans ((keeps .maven).trans (keeps .kotlin2).symm)

/-- A line of an error is read as one when the word of the other severity is nowhere in it. -/
theorem problemSeverity_printed {f : CompilerFormat} (dialect : f ≠ .kotlin2) (p : PrintedProblem)
    (calm : p.warning = false → ¬"warning".toList <:+: (p.printed f).map Char.toLower) :
    problemSeverity (p.printed f) = p.severity := by
  have word := @findText_isSome _ _ "warning".toList (by decide) ((p.printed f).map Char.toLower)
  rw [problemSeverity, PrintedProblem.severity]
  cases severity : p.warning with
  | true =>
    rw [if_pos rfl, if_pos]
    cases f with
    | javac =>
      refine .inl (word.mpr ⟨(p.path ++ ':' :: (digits p.line ++ ": ".toList)).map Char.toLower,
        (": ".toList ++ p.message).map Char.toLower, ?_⟩)
      simp [PrintedProblem.printed, CompilerFormat.opening, CompilerFormat.position,
        PrintedProblem.severity, severity]
    | maven =>
      refine .inl (word.mpr ⟨['['], ("] ".toList ++ p.path ++
        ':' :: CompilerFormat.position p .maven).map Char.toLower, ?_⟩)
      simp [PrintedProblem.printed, CompilerFormat.opening, severity]
    | kotlin1 =>
      refine .inr ?_
      have whole : p.printed .kotlin1 =
          'w' :: ':' :: ' ' :: (p.path ++ ':' :: CompilerFormat.position p .kotlin1) := by
        simp [PrintedProblem.printed, CompilerFormat.opening, severity]
      rw [whole, List.dropWhile_cons_of_neg (by decide)]
      rfl
    | kotlin2 => exact absurd rfl dialect
  | false =>
    simp only [Bool.false_eq_true, if_false]
    rw [if_neg]
    rintro (inside | starts)
    · exact calm severity (word.mp inside)
    · obtain ⟨rest, path⟩ := p.path_starts
      obtain ⟨c, more, whole, solid, other⟩ : ∃ c more, p.printed f = c :: more ∧
          whiteSpace c = false ∧ c ≠ 'w' := by
        cases f with
        | javac => exact ⟨'/', _, by rw [PrintedProblem.printed, path]; rfl, by decide, by decide⟩
        | maven =>
          exact ⟨'[', _, by rw [PrintedProblem.printed, severity]; rfl, by decide, by decide⟩
        | kotlin1 =>
          exact ⟨'e', _, by rw [PrintedProblem.printed, severity]; rfl, by decide, by decide⟩
        | kotlin2 => exact absurd rfl dialect
      rw [whole, List.dropWhile_cons_of_neg (by simp [solid]), List.isPrefixOf_iff_prefix] at starts
      exact other (List.cons_prefix_cons.mp starts).1.symm

/-- The line is one that the code's heuristics tell apart: its format is one the parser reads, its
path holds no marker, and a line of an error does not hold the word of the other severity. -/
structure PrintedProblem.Distinct (f : CompilerFormat) (p : PrintedProblem) : Prop where
  dialect : f ≠ .kotlin2
  plain : ∀ marker ∈ sourceMarkers, ¬marker <:+: p.path
  calm : p.warning = false → ¬"warning".toList <:+: (p.printed f).map Char.toLower

/-- What the parser can carry. -/
structure PrintedProblem.Carried (f : CompilerFormat) (p : PrintedProblem) : Prop where
  sized : Lib.Utf8Slices.bytes (p.printed f) ≤ maxProblemBytes
  rooted : p.rootText.getLast? ≠ some '\\'
  separated : '\\' ∉ p.relativeText
  line : p.line < 2 ^ 32
  column : f ≠ .javac → p.column < 2 ^ 32
  message : f.Keeps p.message

/-- How the parser takes a line apart. -/
theorem parseWorkerProblem_printed {f : CompilerFormat} {p : PrintedProblem} (distinct : p.Distinct f) :
    parseWorkerProblem (p.printed f) p.rootText =
      if maxProblemBytes < Lib.Utf8Slices.bytes (p.printed f) then none
      else (relativeProblemPath p.path p.rootText).bind fun path =>
        if p.line < 2 ^ 32 then
          some {
            path := String.ofList path
            line := p.line
            column := if f = .javac then none else readColumn p.column
            severity := p.severity
            message := if f.cleaned p.message = [] then "Compiler reported a problem"
              else String.ofList (f.cleaned p.message) }
        else none := by
  obtain ⟨front, behind⟩ := take_printed f p
  rw [parseWorkerProblem, firstMarker_printed f p distinct.plain]
  simp only [Option.bind_eq_bind, Option.bind_some, front, behind, compilerPath_printed distinct.dialect,
    compilerPosition_printed distinct.dialect, problemSeverity_printed distinct.dialect p distinct.calm]
  by_cases long : maxProblemBytes < Lib.Utf8Slices.bytes (p.printed f)
  · rw [if_pos long, if_pos long]
  · rw [if_neg long, if_neg long]
    congr 1
    funext path
    by_cases fits : p.line < 2 ^ 32
    · rw [if_pos fits, if_pos fits, Option.bind_some]
      simp only [problemMessage_printed distinct.dialect]
    · rw [if_neg fits, if_neg fits, Option.bind_none]

/-- The text the parser gives for a message is the message exactly when the format keeps it. -/
theorem messageText_eq_iff (f : CompilerFormat) (message : List Char) :
    (if f.cleaned message = [] then "Compiler reported a problem"
      else String.ofList (f.cleaned message)) = String.ofList message ↔ f.Keeps message := by
  constructor
  · intro same
    split at same
    · rename_i empty
      -- The parser's own text is one that every format keeps.
      have text : message = "Compiler reported a problem".toList := by
        rw [← String.toList_ofList (l := message), ← same]
      rw [text] at empty
      exact absurd empty (by cases f <;> decide)
    · rename_i occupied
      have whole := String.ofList_inj.mp same
      rw [whole] at occupied
      exact (cleaned_eq_iff occupied).mp whole
  · intro kept
    rw [(cleaned_eq_iff kept.occupied).mpr kept, if_neg kept.occupied]

theorem readColumn_eq_iff (column : Nat) : readColumn column = some column ↔ column < 2 ^ 32 := by
  rw [readColumn]
  split_ifs with fits
  · exact iff_of_true rfl fits
  · exact iff_of_false (by simp) fits

/-- A line that the heuristics tell apart gives the problem it was printed for exactly when the
parser can carry it. -/
theorem problem_round_trip_iff (f : CompilerFormat) (p : PrintedProblem) (distinct : p.Distinct f) :
    parseWorkerProblem (p.printed f) p.rootText = some (p.problem f) ↔ p.Carried f := by
  rw [parseWorkerProblem_printed distinct]
  constructor
  · intro read
    split at read
    · cases read
    · rename_i short
      obtain ⟨path, below, rest⟩ := Option.bind_eq_some_iff.mp read
      split at rest
      · rename_i fits
        have same := Option.some.inj rest
        simp only [PrintedProblem.problem, WorkerProblem.mk.injEq, true_and] at same
        obtain ⟨paths, columns, messages⟩ := same
        rw [String.ofList_inj.mp paths, relativeProblemPath_printed] at below
        refine ⟨Nat.le_of_not_lt short, below.1, below.2, fits, ?_, (messageText_eq_iff f _).mp messages⟩
        intro other
        rw [if_neg other, if_neg other] at columns
        exact (readColumn_eq_iff _).mp columns
      · cases rest
  · intro carried
    have path := (relativeProblemPath_printed p).mpr ⟨carried.rooted, carried.separated⟩
    have message := (messageText_eq_iff f p.message).mpr carried.message
    have column : (if f = .javac then none else readColumn p.column) =
        if f = .javac then none else some p.column := by
      split_ifs with other
      · rfl
      · exact (readColumn_eq_iff _).mpr (carried.column other)
    rw [if_neg (Nat.not_lt.mpr carried.sized), path, Option.bind_some, if_pos carried.line, message,
      column]
    rfl

/-- A warning in a file below a directory of the given name. -/
def unusedValue (directory : EntryName) : PrintedProblem where
  root := [⟨"work".toList, by decide, by decide, by decide⟩]
  directories := [directory]
  stem := "App".toList
  single := by decide
  kind := .kotlin
  line := 8
  linePositive := by decide
  column := 3
  columnPositive := by decide
  warning := true
  message := "unused value".toList

def plainDirectory : EntryName := ⟨"src".toList, by decide, by decide, by decide⟩

def backslashDirectory : EntryName := ⟨"a\\b".toList, by decide, by decide, by decide⟩

theorem problem_round_trip_demo : (unusedValue plainDirectory).Carried .maven ∧
    parseWorkerProblem ((unusedValue plainDirectory).printed .maven) (unusedValue plainDirectory).rootText =
      some ((unusedValue plainDirectory).problem .maven) := by
  have distinct : (unusedValue plainDirectory).Distinct .maven := by
    refine ⟨by decide, ?_, fun error => by cases error⟩
    intro marker member inside
    have absent : (sourceMarkers.all fun marker =>
        !(findText marker (unusedValue plainDirectory).path).isSome) = true := by decide +kernel
    have found := (findText_isSome (by rintro rfl; exact absurd member (by decide)) _).mpr inside
    have missing := List.all_eq_true.mp absent marker member
    rw [found] at missing
    cases missing
  have carried : (unusedValue plainDirectory).Carried .maven := by
    refine ⟨by decide +kernel, by decide +kernel, by decide +kernel, by decide, fun _ => by decide, ?_⟩
    refine ⟨by decide, by decide +kernel, by decide +kernel, ?_⟩
    intro word member starts
    have absent : (CompilerFormat.stripped .maven).all (fun word =>
        !word.isPrefixOf (unusedValue plainDirectory).message) = true := by decide +kernel
    have missing := List.all_eq_true.mp absent word member
    rw [List.isPrefixOf_iff_prefix.mpr starts] at missing
    cases missing
  exact ⟨carried, (problem_round_trip_iff .maven _ distinct).mpr carried⟩

/-- A backslash in a directory's name is read as a slash. -/
theorem problem_round_trip_fails :
    parseWorkerProblem ((unusedValue backslashDirectory).printed .maven)
        (unusedValue backslashDirectory).rootText ≠
      some ((unusedValue backslashDirectory).problem .maven) := by
  decide +kernel

/-- The second Kotlin format leaves its column in the message. -/
theorem second_kotlin_format_unread :
    parseWorkerProblem ((unusedValue plainDirectory).printed .kotlin2)
        (unusedValue plainDirectory).rootText ≠
      some ((unusedValue plainDirectory).problem .kotlin2) := by
  decide +kernel

end Walaru
