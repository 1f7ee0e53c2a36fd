import Mathlib.Algebra.Order.Ring.Nat
import Mathlib.Data.List.Basic

/-!
# Text operations on strings

Each operation works on the character list, so that the kernel evaluates it.
Byte operations use the UTF-8 encoding of the same characters.
-/
namespace Walaru.Lib.Text

def utf8 (s : String) : List UInt8 := s.toList.flatMap String.utf8EncodeChar

def hexDigit (n : Nat) : Char :=
  if n < 10 then Char.ofNat (48 + n) else Char.ofNat (87 + n)

/-- Two lower-case digits a byte. -/
def hexEncode (bytes : List UInt8) : String :=
  String.ofList (bytes.flatMap fun b => [hexDigit (b.toNat / 16), hexDigit (b.toNat % 16)])

def replaceChar (old new : Char) (s : String) : String :=
  String.ofList (s.toList.map fun c => if c = old then new else c)

def startsWith (pre s : String) : Bool := pre.toList.isPrefixOf s.toList

def endsWith (suffix s : String) : Bool := suffix.toList.isSuffixOf s.toList

def containsChar (c : Char) (s : String) : Bool := s.toList.contains c

def containsText (needle s : String) : Bool :=
  s.toList.tails.any fun rest => needle.toList.isPrefixOf rest

def takeChars (n : Nat) (s : String) : String := String.ofList (s.toList.take n)

/-- The part before the first occurrence of `c`, the whole text when there is none. -/
def beforeChar (c : Char) (s : String) : String :=
  String.ofList (s.toList.takeWhile fun d => d != c)

/-- Pieces between the non-overlapping occurrences of `needle`, scanned from the
left; `skip` counts the characters of a match still to pass over. -/
def splitGo (needle : List Char) : Nat → List Char → List Char → List (List Char)
  | _, piece, [] => [piece.reverse]
  | skip + 1, piece, _ :: rest => splitGo needle skip piece rest
  | 0, piece, c :: rest =>
    if needle.isPrefixOf (c :: rest) then
      piece.reverse :: splitGo needle (needle.length - 1) [] rest
    else splitGo needle 0 (c :: piece) rest

/-- Split at a non-empty needle. -/
def splitText (needle s : String) : List String :=
  (splitGo needle.toList 0 [] s.toList).map String.ofList

def splitChar (c : Char) (s : String) : List String :=
  splitText (String.singleton c) s

def stripCarriageReturn (line : String) : String :=
  if line.toList.getLast? = some '\r' then String.ofList line.toList.dropLast else line

/-- Lines ended by a newline, with an optional carriage return before it; the text
after the last newline is a line of its own when there is any. -/
def lines (s : String) : List String :=
  let pieces := splitChar '\n' s
  pieces.dropLast.map stripCarriageReturn ++ pieces.getLast?.toList.filter (· ≠ "")

/-- The two parts around the first occurrence of `c`. -/
def splitOnce (c : Char) (s : String) : Option (String × String) :=
  if containsChar c s then
    some (beforeChar c s, String.ofList ((s.toList.dropWhile fun d => d != c).drop 1))
  else none

theorem map_intercalate {α β : Type} (f : α → β) (separator : List α) (pieces : List (List α)) :
    (separator.intercalate pieces).map f =
      (separator.map f).intercalate (pieces.map (List.map f)) := by
  induction pieces with
  | nil => rfl
  | cons piece rest ih =>
    cases rest with
    | nil => simp [List.intercalate]
    | cons next rest => simpa [List.intercalate] using ih

def isControl (c : Char) : Bool := c.toNat < 32 || (127 ≤ c.toNat && c.toNat < 160)

theorem utf8_injective {a b : String} (same : utf8 a = utf8 b) : a = b := by
  have bytes : ∀ s : String, s.toByteArray = (utf8 s).toByteArray := by
    intro s
    rw [← String.utf8Encode_toList]
    rfl
  apply String.toByteArray_inj.mp
  rw [bytes, bytes, same]

/-- A number is read back from its decimal digits. -/
theorem decimal_injective {a b : Nat} (same : toString a = toString b) : a = b := by
  have digits := congrArg String.toList same
  simp only [Nat.toString_eq_ofList_toDigits, String.toList_ofList] at digits
  simpa only [Nat.ofDigitChars_ten_toDigits] using congrArg (Nat.ofDigitChars 10 · 0) digits

theorem hexDigit_injective {a b : Nat} (boundA : a < 16) (boundB : b < 16)
    (same : hexDigit a = hexDigit b) : a = b := by
  have table : ∀ x y : Fin 16, hexDigit x = hexDigit y → x = y := by decide
  exact congrArg Fin.val (table ⟨a, boundA⟩ ⟨b, boundB⟩ same)

theorem hexEncode_injective {a b : List UInt8} (same : hexEncode a = hexEncode b) : a = b := by
  have digits := String.ofList_inj.mp same
  clear same
  induction a generalizing b with
  | nil =>
    cases b with
    | nil => rfl
    | cons y b => cases digits
  | cons x a ih =>
    cases b with
    | nil => cases digits
    | cons y b =>
      simp only [List.flatMap_cons, List.cons_append, List.nil_append, List.cons.injEq] at digits
      obtain ⟨high, low, rest⟩ := digits
      have boundX := x.toNat_lt
      have boundY := y.toNat_lt
      have highs := hexDigit_injective (by omega) (by omega) high
      have lows := hexDigit_injective (by omega) (by omega) low
      have first : x = y := UInt8.toNat_inj.mp (by omega)
      rw [first, ih rest]

theorem splitGo_pass {c : Char} {piece : List Char} (free : c ∉ piece) (done rest : List Char) :
    splitGo [c] 0 done (piece ++ rest) = splitGo [c] 0 (piece.reverse ++ done) rest := by
  induction piece generalizing done with
  | nil => rfl
  | cons d piece ih =>
    rw [List.mem_cons, not_or] at free
    have other : (c == d) = false := by simpa using free.1
    simp only [List.cons_append, splitGo, List.isPrefixOf, other, Bool.false_and,
      Bool.false_eq_true, if_false]
    rw [ih free.2]
    simp

/-- Splitting takes apart what was joined with a character no piece contains. -/
theorem splitChar_intercalate {c : Char} {pieces : List String} (nonempty : pieces ≠ [])
    (free : ∀ piece ∈ pieces, c ∉ piece.toList) :
    splitChar c (String.ofList ([c].intercalate (pieces.map String.toList))) = pieces := by
  simp only [splitChar, splitText, String.toList_ofList, String.toList_singleton]
  induction pieces with
  | nil => exact absurd rfl nonempty
  | cons piece rest ih =>
    rw [List.forall_mem_cons] at free
    cases rest with
    | nil =>
      have whole := splitGo_pass free.1 [] []
      simp only [List.append_nil] at whole
      simp [List.intercalate, whole, splitGo]
    | cons next rest =>
      have later := ih (List.cons_ne_nil _ _) free.2
      simp only [List.map_cons, List.intercalate_cons_cons, List.append_assoc] at later ⊢
      rw [splitGo_pass free.1]
      simp only [List.cons_append, List.nil_append, splitGo, List.isPrefixOf, BEq.rfl,
        Bool.and_self, if_true, List.length_singleton, Nat.sub_self, List.map_cons,
        List.append_nil, List.reverse_reverse, String.ofList_toList]
      rw [later]

example : splitText "[class:" "a[class:b][class:c]" = ["a", "b]", "c]"] := by decide

end Walaru.Lib.Text
