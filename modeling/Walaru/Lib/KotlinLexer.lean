import Mathlib.Data.List.Basic

/-!
# Kotlin's lexical structure

A lexer reads one character after the other and keeps what is open: the brackets, and the
string literals whose `${ }` templates it is in. Comments nest; a raw string ends with the
last of three or more quotes.
-/
namespace Walaru.Lib.Kotlin

/-- What is open around a place. -/
inductive Frame where
  | curly
  | round
  | square
  | template (raw : Bool)
  deriving DecidableEq, Repr

inductive Mode where
  | code
  | slash
  | lineComment
  | comment (outer : Nat)
  | commentSlash (outer : Nat)
  | commentStar (outer : Nat)
  | quote
  | quotes
  | string
  | stringEscape
  | stringDollar
  | raw
  | rawDollar
  | rawQuote
  | rawQuotes
  | rawEnd
  | character
  | characterEscape
  | quotedName
  deriving DecidableEq, Repr

structure Lexer where
  mode : Mode
  frames : List Frame
  deriving DecidableEq, Repr

namespace Lexer

def start : Lexer := ⟨.code, []⟩

def leave (frame : Frame) (frames : List Frame) : List Frame :=
  if frames.head? = some frame then frames.tail else frames

/-- A character of the code itself. -/
def code (frames : List Frame) (c : Char) : Lexer :=
  if c = '/' then ⟨.slash, frames⟩
  else if c = '"' then ⟨.quote, frames⟩
  else if c = '\'' then ⟨.character, frames⟩
  else if c = '`' then ⟨.quotedName, frames⟩
  else if c = '(' then ⟨.code, .round :: frames⟩
  else if c = ')' then ⟨.code, leave .round frames⟩
  else if c = '[' then ⟨.code, .square :: frames⟩
  else if c = ']' then ⟨.code, leave .square frames⟩
  else if c = '{' then ⟨.code, .curly :: frames⟩
  else if c = '}' then
    match frames with
    | .template true :: outer => ⟨.raw, outer⟩
    | .template false :: outer => ⟨.string, outer⟩
    | _ => ⟨.code, leave .curly frames⟩
  else ⟨.code, frames⟩

def inString (frames : List Frame) (c : Char) : Lexer :=
  if c = '"' then ⟨.code, frames⟩
  else if c = '\\' then ⟨.stringEscape, frames⟩
  else if c = '$' then ⟨.stringDollar, frames⟩
  else ⟨.string, frames⟩

def inRaw (frames : List Frame) (c : Char) : Lexer :=
  if c = '"' then ⟨.rawQuote, frames⟩
  else if c = '$' then ⟨.rawDollar, frames⟩
  else ⟨.raw, frames⟩

def inComment (frames : List Frame) (outer : Nat) (c : Char) : Lexer :=
  if c = '/' then ⟨.commentSlash outer, frames⟩
  else if c = '*' then ⟨.commentStar outer, frames⟩
  else ⟨.comment outer, frames⟩

def step (s : Lexer) (c : Char) : Lexer :=
  match s.mode with
  | .code => code s.frames c
  | .slash =>
    if c = '/' then ⟨.lineComment, s.frames⟩
    else if c = '*' then ⟨.comment 0, s.frames⟩
    else code s.frames c
  | .lineComment => if c = '\n' ∨ c = '\r' then ⟨.code, s.frames⟩ else s
  | .comment outer => inComment s.frames outer c
  | .commentSlash outer =>
    if c = '*' then ⟨.comment (outer + 1), s.frames⟩ else inComment s.frames outer c
  | .commentStar outer =>
    if c = '/' then
      match outer with
      | 0 => ⟨.code, s.frames⟩
      | outer + 1 => ⟨.comment outer, s.frames⟩
    else inComment s.frames outer c
  | .quote => if c = '"' then ⟨.quotes, s.frames⟩ else inString s.frames c
  | .quotes => if c = '"' then ⟨.raw, s.frames⟩ else code s.frames c
  | .string => inString s.frames c
  | .stringEscape => ⟨.string, s.frames⟩
  | .stringDollar =>
    if c = '{' then ⟨.code, .template false :: s.frames⟩ else inString s.frames c
  | .raw => inRaw s.frames c
  | .rawDollar => if c = '{' then ⟨.code, .template true :: s.frames⟩ else inRaw s.frames c
  | .rawQuote => if c = '"' then ⟨.rawQuotes, s.frames⟩ else inRaw s.frames c
  | .rawQuotes => if c = '"' then ⟨.rawEnd, s.frames⟩ else inRaw s.frames c
  | .rawEnd => if c = '"' then s else code s.frames c
  | .character =>
    if c = '\'' then ⟨.code, s.frames⟩
    else if c = '\\' then ⟨.characterEscape, s.frames⟩
    else s
  | .characterEscape => ⟨.character, s.frames⟩
  | .quotedName => if c = '`' then ⟨.code, s.frames⟩ else s

end Lexer

def read (text : List Char) : Lexer := text.foldl Lexer.step .start

/-- The end of the text stands in the code outside all brackets, literals and comments. -/
def topLevel (text : List Char) : Bool := read text = .start

def identifierPart (c : Char) : Bool := c.isAlphanum || c = '_' || 128 ≤ c.toNat

/-- A `val` or `var` of the top level, and the `=` of its initialiser. -/
structure Property (before head : List Char) : Prop where
  keyword : ∃ lead name rest, head = lead ++ name ++ rest ++ ['='] ∧
    (name = ['v', 'a', 'l'] ∨ name = ['v', 'a', 'r']) ∧
    topLevel (before ++ lead) = true ∧ topLevel (before ++ lead ++ name ++ rest) = true ∧
    (lead.getLast?.any identifierPart) = false ∧ (rest.head?.any identifierPart) = false

def Frame.brace : Frame → Bool
  | .curly => true
  | .template _ => true
  | _ => false

namespace Lexer

/-- The braces that are open. -/
def depth (s : Lexer) : Nat := s.frames.countP Frame.brace

/-- Every brace of the text stands in the code, and none closes what is not open. -/
def BracesCount (s : Lexer) : List Char → Prop
  | [] => True
  | c :: rest =>
    (c = '{' → (s.step c).depth = s.depth + 1) ∧ (c = '}' → (s.step c).depth + 1 = s.depth) ∧
      (s.step c).BracesCount rest

theorem depth_leave {frame : Frame} (other : frame.brace = false) (frames : List Frame) :
    (leave frame frames).countP Frame.brace = frames.countP Frame.brace := by
  unfold leave
  split
  · rename_i here
    obtain ⟨rest, rfl⟩ := List.head?_eq_some_iff.mp here
    simp [other]
  · rfl

theorem depth_code {c : Char} (opens : c ≠ '{') (closes : c ≠ '}') (frames : List Frame) :
    (code frames c).depth = frames.countP Frame.brace := by
  unfold code depth
  rw [if_neg opens, if_neg closes]
  split_ifs
  · rfl
  · rfl
  · rfl
  · rfl
  · simp [Frame.brace]
  · exact depth_leave rfl frames
  · simp [Frame.brace]
  · exact depth_leave rfl frames
  · rfl

/-- Other characters open and close no brace. -/
theorem depth_step {c : Char} (opens : c ≠ '{') (closes : c ≠ '}') (s : Lexer) :
    (s.step c).depth = s.depth := by
  have text : ∀ frames, (inString frames c).depth = frames.countP Frame.brace := by
    intro frames
    unfold inString
    split_ifs <;> rfl
  have raw : ∀ frames, (inRaw frames c).depth = frames.countP Frame.brace := by
    intro frames
    unfold inRaw
    split_ifs <;> rfl
  have comment : ∀ frames outer, (inComment frames outer c).depth = frames.countP Frame.brace := by
    intro frames outer
    unfold inComment
    split_ifs <;> rfl
  have plain := depth_code opens closes
  obtain ⟨mode, frames⟩ := s
  cases mode <;> simp only [step, if_neg opens]
  all_goals try split_ifs
  all_goals first
    | rfl
    | exact plain frames
    | exact text frames
    | exact raw frames
    | exact comment frames _
    | skip
  split <;> rfl

theorem bracesCount_append {s : Lexer} {front back : List Char} :
    s.BracesCount (front ++ back) ↔ s.BracesCount front ∧ (front.foldl step s).BracesCount back := by
  induction front generalizing s with
  | nil => simp [BracesCount]
  | cons c front ih =>
    rw [List.cons_append, BracesCount, BracesCount, ih, List.foldl_cons]
    tauto

/-- The depth counts the braces. -/
theorem depth_foldl {s : Lexer} {text : List Char} (counted : s.BracesCount text) :
    (text.foldl step s).depth + text.count '}' = s.depth + text.count '{' := by
  induction text generalizing s with
  | nil => rfl
  | cons c rest ih =>
    obtain ⟨opens, closes, later⟩ := counted
    have further := ih later
    rw [List.foldl_cons, List.count_cons, List.count_cons]
    by_cases brace : c = '{'
    · have one := opens brace
      subst brace
      simp only [BEq.rfl, if_true, show ('{' == '}') = false by decide, Bool.false_eq_true, if_false]
      omega
    · by_cases end_ : c = '}'
      · have one := closes end_
        subst end_
        simp only [BEq.rfl, if_true, show ('}' == '{') = false by decide, Bool.false_eq_true, if_false]
        omega
      · have same := depth_step brace end_ s
        simp only [beq_iff_eq, brace, end_, if_false]
        omega

end Lexer

theorem depth_of_topLevel {text : List Char} (top : topLevel text = true) : (read text).depth = 0 := by
  have start : read text = .start := by simpa [topLevel] using top
  rw [start]
  rfl

example : topLevel "val a = \"$\x7b \"\x7d\" \x7d\" // \x7b\n".toList = true := by decide

end Walaru.Lib.Kotlin
