import Walaru.Lib.Words

/-!
# What a source declares

`kotlin_surface` and `java_surface`: the declaring lines of a source, with their blanks
collapsed and most bodies cut off. The counters of the scanners are below the bounds of
their machine types for every text shorter than two gigabytes.
-/
namespace Walaru
open Lib.Text

/-- Rust's `char::is_whitespace`. -/
def whiteSpace (c : Char) : Bool :=
  (9 ≤ c.toNat && c.toNat ≤ 13) || c.toNat = 32 || c.toNat = 0x85 || c.toNat = 0xA0 ||
    c.toNat = 0x1680 || (0x2000 ≤ c.toNat && c.toNat ≤ 0x200A) || c.toNat = 0x2028 ||
    c.toNat = 0x2029 || c.toNat = 0x202F || c.toNat = 0x205F || c.toNat = 0x3000

def trim (s : String) : String := trimWhere whiteSpace s

def trimStart (s : String) : String := String.ofList (s.toList.dropWhile whiteSpace)

def trimEnd (s : String) : String := String.ofList (s.toList.rdropWhile whiteSpace)

def normalizeSpace (value : String) : String :=
  String.ofList ([' '].intercalate (words whiteSpace value.toList))

def containsDeclaration (value : String) (declarations : List String) : Bool :=
  declarations.any fun declaration =>
    startsWith declaration value || containsText (" " ++ declaration) value

/-- What stands before the first `{` or `=` outside parentheses and brackets. -/
def cutAt : Nat → Nat → List Char → Option (List Char)
  | _, _, [] => none
  | parentheses, brackets, c :: rest =>
    if (c = '{' ∨ c = '=') ∧ parentheses = 0 ∧ brackets = 0 then some []
    else
      (cutAt
        (if c = '(' then parentheses + 1 else if c = ')' then parentheses - 1 else parentheses)
        (if c = '[' then brackets + 1 else if c = ']' then brackets - 1 else brackets)
        rest).map (c :: ·)

def cutBody (value : String) : String :=
  match cutAt 0 0 value.toList with
  | some kept => trimEnd (String.ofList kept)
  | none => value

/-- Lines, each ended by a newline. -/
def endLines (ls : List String) : String := String.ofList (ls.flatMap fun l => l.toList ++ ['\n'])

def kotlinDeclares (trimmed : String) : Bool :=
  startsWith "package " trimmed || startsWith "import " trimmed || startsWith "@" trimmed ||
    containsDeclaration trimmed
      ["class ", "interface ", "object ", "fun ", "val ", "var ", "typealias "]

/-- The line reads as a property wherever the braces allow one at the top level. -/
def propertyLine (trimmed : String) : Bool :=
  containsDeclaration trimmed ["val ", "var "] && !startsWith "fun " trimmed

def kotlinSelected (braceDepth : Nat) (raw : String) : Option String :=
  let trimmed := trim raw
  if kotlinDeclares trimmed then
    some (if braceDepth = 0 ∧ propertyLine trimmed then normalizeSpace trimmed
      else normalizeSpace (cutBody trimmed))
  else none

/-- The brace depth behind a line; it never falls below zero. -/
def braceDepthAfter (braceDepth : Nat) (raw : String) : Nat :=
  braceDepth + raw.toList.count '{' - raw.toList.count '}'

def kotlinLines : Nat → List String → List String
  | _, [] => []
  | braceDepth, raw :: rest =>
    (kotlinSelected braceDepth raw).toList ++ kotlinLines (braceDepthAfter braceDepth raw) rest

def kotlinSurface (source : String) : String := endLines (kotlinLines 0 (lines source))

/-- Some line starts with a static block. -/
def staticBlock (source : String) : Bool :=
  (lines source).any fun line => startsWith "static \x7b" (trimStart line)

def javaDeclares (trimmed : String) : Bool :=
  startsWith "package " trimmed || startsWith "import " trimmed || startsWith "@" trimmed ||
    containsDeclaration trimmed
      ["class ", "interface ", "enum ", "record ", "public ", "protected ", "static "]

def staticField (trimmed : String) : Bool :=
  containsText " static " trimmed && endsWith ";" trimmed && !containsChar '(' trimmed

def javaSelected (raw : String) : Option String :=
  let trimmed := trim raw
  if javaDeclares trimmed then
    some (normalizeSpace (if staticField trimmed then trimmed else cutBody trimmed))
  else none

def javaSurface (source : String) : String :=
  if staticBlock source then source else endLines ((lines source).filterMap javaSelected)

theorem whiteSpace_space : whiteSpace ' ' = true := by decide

/-- A text is normalised to its words. -/
theorem words_normalizeSpace (value : String) :
    words whiteSpace (normalizeSpace value).toList = words whiteSpace value.toList := by
  rw [normalizeSpace, String.toList_ofList]
  exact words_intercalate whiteSpace_space (fun _ member _ => mem_words member) (nil_notMem_words _)

theorem normalizeSpace_eq_iff (a b : String) :
    normalizeSpace a = normalizeSpace b ↔ words whiteSpace a.toList = words whiteSpace b.toList := by
  constructor
  · intro same
    rw [← words_normalizeSpace a, same, words_normalizeSpace]
  · intro same
    rw [normalizeSpace, same, normalizeSpace]

theorem words_trim (s : String) : words whiteSpace (trim s).toList = words whiteSpace s.toList := by
  rw [trim, trimWhere, String.toList_ofList, words_rdropWhile, words_dropWhile]

theorem words_trimEnd (s : String) :
    words whiteSpace (trimEnd s).toList = words whiteSpace s.toList := by
  rw [trimEnd, String.toList_ofList, words_rdropWhile]

/-- A normalised text is on one line. -/
theorem normalizeSpace_plain (value : String) {c : Char} (inside : c ∈ (normalizeSpace value).toList) :
    c = ' ' ∨ whiteSpace c = false := by
  rw [normalizeSpace, String.toList_ofList] at inside
  generalize gathered : words whiteSpace value.toList = ws at inside
  have solid : ∀ word ∈ ws, ∀ d ∈ word, whiteSpace d = false :=
    fun word member d => mem_words (gathered ▸ member)
  clear gathered
  induction ws with
  | nil => simp [List.intercalate] at inside
  | cons word rest ih =>
    rw [List.forall_mem_cons] at solid
    cases rest with
    | nil => exact .inr (solid.1 c (by simpa [List.intercalate] using inside))
    | cons next rest =>
      rw [List.intercalate_cons_cons, List.append_assoc, List.mem_append, List.mem_append] at inside
      rcases inside with here | gap | later
      · exact .inr (solid.1 c here)
      · exact .inl (List.mem_singleton.mp gap)
      · exact ih later solid.2

theorem normalizeSpace_one_line (value : String) :
    '\n' ∉ (normalizeSpace value).toList ∧ '\r' ∉ (normalizeSpace value).toList := by
  constructor
  · intro inside
    exact absurd (normalizeSpace_plain value inside) (by decide)
  · intro inside
    exact absurd (normalizeSpace_plain value inside) (by decide)

theorem cutAt_some {parentheses brackets : Nat} {text kept : List Char}
    (cut : cutAt parentheses brackets text = some kept) :
    ∃ c more, text = kept ++ c :: more ∧ (c = '{' ∨ c = '=') := by
  induction text generalizing parentheses brackets kept with
  | nil => cases cut
  | cons c text ih =>
    rw [cutAt] at cut
    split at cut
    · rename_i here
      cases cut
      exact ⟨c, text, rfl, here.1⟩
    · obtain ⟨rest, deeper, rfl⟩ := Option.map_eq_some_iff.mp cut
      obtain ⟨d, more, rfl, stop⟩ := ih deeper
      exact ⟨d, more, rfl, stop⟩

/-- What is cut off may be any text. -/
theorem cutAt_append {parentheses brackets : Nat} {front kept : List Char}
    (cut : cutAt parentheses brackets front = some kept) (back : List Char) :
    cutAt parentheses brackets (front ++ back) = some kept := by
  induction front generalizing parentheses brackets kept with
  | nil => cases cut
  | cons c front ih =>
    rw [List.cons_append]
    simp only [cutAt] at cut ⊢
    split
    · rename_i here
      rwa [if_pos here] at cut
    · rename_i further
      rw [if_neg further] at cut
      obtain ⟨rest, deeper, rfl⟩ := Option.map_eq_some_iff.mp cut
      rw [ih deeper]
      rfl

theorem kotlinSelected_plain {depth : Nat} {raw line : String} (selected : kotlinSelected depth raw = some line) :
    '\n' ∉ line.toList ∧ '\r' ∉ line.toList := by
  simp only [kotlinSelected] at selected
  split at selected
  · obtain rfl := Option.some.inj selected
    split
    · exact normalizeSpace_one_line _
    · exact normalizeSpace_one_line _
  · cases selected

theorem kotlinLines_plain {depth : Nat} {ls : List String} {line : String}
    (member : line ∈ kotlinLines depth ls) : '\n' ∉ line.toList ∧ '\r' ∉ line.toList := by
  induction ls generalizing depth with
  | nil => cases member
  | cons raw rest ih =>
    rw [kotlinLines, List.mem_append, Option.mem_toList] at member
    rcases member with here | later
    · exact kotlinSelected_plain here
    · exact ih later

theorem javaSelected_plain {raw line : String} (selected : javaSelected raw = some line) :
    '\n' ∉ line.toList ∧ '\r' ∉ line.toList := by
  simp only [javaSelected] at selected
  split at selected
  · obtain rfl := Option.some.inj selected
    exact normalizeSpace_one_line _
  · cases selected

/-- Ended lines are told apart. -/
theorem endLines_inj {as bs : List String} (first : ∀ l ∈ as, '\n' ∉ l.toList ∧ '\r' ∉ l.toList)
    (second : ∀ l ∈ bs, '\n' ∉ l.toList ∧ '\r' ∉ l.toList) : endLines as = endLines bs ↔ as = bs := by
  constructor
  · intro same
    rw [← lines_ended first, ← lines_ended second]
    exact congrArg lines same
  · rintro rfl
    rfl

theorem kotlinSurface_eq_iff (a b : String) :
    kotlinSurface a = kotlinSurface b ↔ kotlinLines 0 (lines a) = kotlinLines 0 (lines b) :=
  endLines_inj (fun _ => kotlinLines_plain) (fun _ => kotlinLines_plain)

theorem javaLines_eq_iff (as bs : List String) :
    endLines (as.filterMap javaSelected) = endLines (bs.filterMap javaSelected) ↔
      as.filterMap javaSelected = bs.filterMap javaSelected := by
  apply endLines_inj
  · intro l member
    obtain ⟨raw, -, selected⟩ := List.mem_filterMap.mp member
    exact javaSelected_plain selected
  · intro l member
    obtain ⟨raw, -, selected⟩ := List.mem_filterMap.mp member
    exact javaSelected_plain selected

theorem kotlinLines_append (depth : Nat) (front back : List String) :
    kotlinLines depth (front ++ back) =
      kotlinLines depth front ++ kotlinLines (front.foldl braceDepthAfter depth) back := by
  induction front generalizing depth with
  | nil => rfl
  | cons raw rest ih =>
    rw [List.cons_append, kotlinLines, ih, ← List.append_assoc]
    rfl

end Walaru
