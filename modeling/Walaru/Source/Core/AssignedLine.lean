import Walaru.Source.Core.SourceSurface

/-!
# One assigned line of a source

A source around the initialiser of one line: the lines before it, the line up to and
including its `=`, and everything from the end of the line on. The scanners read the
other lines in the same way whatever the initialiser is, except for the depth of braces.
-/
namespace Walaru
open Lib.Text

/-- A source with a gap where the initialiser of one line stands. -/
structure AssignedLine where
  before : String
  /-- The line up to and including its `=`. -/
  head : String
  after : String
  begins : before = "" ∨ endsWith "\n" before = true
  oneLine : '\n' ∉ head.toList
  assigned : head.toList.getLast? = some '='
  ends : after = "" ∨ startsWith "\n" after = true

namespace AssignedLine
variable (l : AssignedLine)

def line (initialiser : String) : String := l.head ++ initialiser

def source (initialiser : String) : String := l.before ++ l.line initialiser ++ l.after

/-- The lines behind the assigned one. -/
def later : List String := lines (String.ofList (l.after.toList.drop 1))

theorem lines_before (rest : String) : lines (l.before ++ rest) = lines l.before ++ lines rest := by
  rcases l.begins with empty | ended
  · rw [empty]
    rfl
  · obtain ⟨front, whole⟩ := List.isSuffixOf_iff_suffix.mp ended
    have split_ : l.before = String.ofList front ++ "\n" := by
      apply String.toList_inj.mp
      simpa using whole.symm
    have alone := lines_append_newline (String.ofList front) ""
    rw [String.append_empty] at alone
    rw [split_, lines_append_newline, alone]
    simp [lines, splitChar, splitText, splitGo]

theorem line_ne_empty (initialiser : String) : l.line initialiser ≠ "" := by
  intro empty
  have none_ : l.head.toList ++ initialiser.toList = [] := by
    rw [← String.toList_append]
    exact congrArg String.toList empty
  have assigned := l.assigned
  rw [(List.append_eq_nil_iff.mp none_).1] at assigned
  cases assigned

theorem line_plain {initialiser : String} (plain : '\n' ∉ initialiser.toList) :
    '\n' ∉ (l.line initialiser).toList := by
  rw [line, String.toList_append, List.mem_append, not_or]
  exact ⟨l.oneLine, plain⟩

/-- A carriage return may stand between the line and its newline. -/
theorem lines_source {initialiser : String} (plain : '\n' ∉ initialiser.toList) :
    ∃ ended, (ended = l.line initialiser ∨ ended = stripCarriageReturn (l.line initialiser)) ∧
      lines (l.source initialiser) = lines l.before ++ ended :: l.later := by
  have here := lines_line (l.line_plain plain) (l.line_ne_empty initialiser)
  rcases l.ends with empty | starts
  · refine ⟨_, .inl rfl, ?_⟩
    have none_ : l.later = [] := by
      rw [later, empty]
      decide
    rw [source, String.append_assoc, lines_before, empty, String.append_empty, (here "").1, none_]
  · refine ⟨_, .inr rfl, ?_⟩
    obtain ⟨rest, whole⟩ := List.isPrefixOf_iff_prefix.mp starts
    have split_ : l.after = "\n" ++ String.ofList rest := by
      apply String.toList_inj.mp
      simpa using whole.symm
    have behind : l.later = lines (String.ofList rest) := by
      rw [later, split_]
      simp
    rw [source, String.append_assoc, lines_before, behind, split_, ← String.append_assoc,
      (here _).2]

end AssignedLine

theorem stripCarriageReturn_cases (s : String) :
    stripCarriageReturn s = s ∨ s.toList = (stripCarriageReturn s).toList ++ ['\r'] := by
  rw [stripCarriageReturn]
  split
  · rename_i last
    right
    rw [String.toList_ofList]
    exact (List.dropLast_append_getLast? _ last).symm
  · exact .inl rfl

theorem trimWhere_concat {blank : Char → Bool} {c : Char} (gap : blank c = true) (chars : List Char) :
    ((chars ++ [c]).dropWhile blank).rdropWhile blank = (chars.dropWhile blank).rdropWhile blank := by
  rw [List.dropWhile_append]
  split
  · rename_i empty
    rw [List.isEmpty_iff.mp empty, List.dropWhile_cons_of_pos gap]
    rfl
  · rw [List.rdropWhile_concat_pos _ _ _ gap]

theorem trim_stripCarriageReturn (s : String) : trim (stripCarriageReturn s) = trim s := by
  rcases stripCarriageReturn_cases s with same | whole
  · rw [same]
  · rw [trim, trim, trimWhere, trimWhere, whole, trimWhere_concat (by decide)]

theorem count_stripCarriageReturn {c : Char} (other : c ≠ '\r') (s : String) :
    (stripCarriageReturn s).toList.count c = s.toList.count c := by
  rcases stripCarriageReturn_cases s with same | whole
  · rw [same]
  · rw [whole, List.count_append, List.count_singleton]
    simp [other.symm]

theorem kotlinSelected_strip (depth : Nat) (s : String) :
    kotlinSelected depth (stripCarriageReturn s) = kotlinSelected depth s := by
  rw [kotlinSelected, kotlinSelected, trim_stripCarriageReturn]

theorem braceDepthAfter_strip (depth : Nat) (s : String) :
    braceDepthAfter depth (stripCarriageReturn s) = braceDepthAfter depth s := by
  rw [braceDepthAfter, braceDepthAfter, count_stripCarriageReturn (by decide),
    count_stripCarriageReturn (by decide)]

theorem javaSelected_strip (s : String) : javaSelected (stripCarriageReturn s) = javaSelected s := by
  rw [javaSelected, javaSelected, trim_stripCarriageReturn]

theorem rdropWhile_append {blank : Char → Bool} {front : List Char} {c : Char}
    (last : front.getLast? = some c) (solid : blank c = false) (back : List Char) :
    (front ++ back).rdropWhile blank = front ++ back.rdropWhile blank := by
  have kept : front.reverse.dropWhile blank = front.reverse := by
    cases reversed : front.reverse with
    | nil => rfl
    | cons d rest =>
      have first : front.reverse.head? = some c := by rw [List.head?_reverse, last]
      rw [reversed, List.head?_cons, Option.some.injEq] at first
      rw [List.dropWhile_cons_of_neg (by simp [first, solid])]
  rw [List.rdropWhile, List.rdropWhile, List.reverse_append, List.dropWhile_append, kept]
  split
  · rename_i empty
    rw [List.isEmpty_iff.mp empty]
    simp
  · simp

theorem dropWhile_getLast {blank : Char → Bool} {front : List Char} {c : Char}
    (last : front.getLast? = some c) (solid : blank c = false) :
    (front.dropWhile blank).getLast? = some c := by
  obtain ⟨init, rfl⟩ := List.getLast?_eq_some_iff.mp last
  rw [List.dropWhile_append]
  split
  · rw [List.dropWhile_cons_of_neg (by simp [solid])]
    rfl
  · rw [List.getLast?_concat]

namespace AssignedLine
variable (l : AssignedLine)

theorem trimStart_last : (trimStart l.head).toList.getLast? = some '=' := by
  rw [trimStart, String.toList_ofList]
  exact dropWhile_getLast l.assigned (by decide)

/-- Only the blanks in front of the head and behind the initialiser go. -/
theorem trim_line (initialiser : String) :
    trim (l.line initialiser) = trimStart l.head ++ trimEnd initialiser := by
  have occupied : (l.head.toList.dropWhile whiteSpace).isEmpty = false := by
    have last := l.trimStart_last
    rw [trimStart, String.toList_ofList] at last
    cases front : l.head.toList.dropWhile whiteSpace with
    | nil =>
      rw [front] at last
      cases last
    | cons c rest => rfl
  apply String.toList_inj.mp
  rw [trim, trimWhere, line, String.toList_ofList, String.toList_append, List.dropWhile_append,
    occupied, if_neg Bool.false_ne_true,
    rdropWhile_append (dropWhile_getLast l.assigned (by decide)) (by decide)]
  simp [trimStart, trimEnd]

theorem trim_head : trim l.head = trimStart l.head := by
  have whole := l.trim_line ""
  rwa [line, String.append_empty, show trimEnd "" = "" by decide, String.append_empty] at whole

end AssignedLine
end Walaru
