import Mathlib.Data.List.DropRight
import Mathlib.Data.List.TakeWhile
import Walaru.Lib.Text

/-!
# Trimming, joining and cutting text

The parts of a text: what trimming leaves, what joining and splitting at one
character do to each other, and the two sides of the first occurrence of a needle.
-/
namespace Walaru.Lib.Text

/-- Without the leading and trailing characters that are `blank`. -/
def trimWhere (blank : Char → Bool) (s : String) : String :=
  String.ofList ((s.toList.dropWhile blank).rdropWhile blank)

/-- The sides of the first occurrence of a needle. -/
def cutChars (needle : List Char) : List Char → Option (List Char × List Char)
  | [] => none
  | c :: rest =>
    if needle.isPrefixOf (c :: rest) then some ([], (c :: rest).drop needle.length)
    else (cutChars needle rest).map fun sides => (c :: sides.1, sides.2)

def joinChar (c : Char) (pieces : List String) : String :=
  String.ofList ([c].intercalate (pieces.map String.toList))

/-- Trimming leaves a text alone exactly when it neither starts nor ends blank. -/
theorem trimWhere_eq_self {blank : Char → Bool} {s : String}
    (first : ∀ c ∈ s.toList.head?, blank c = false)
    (last : ∀ c ∈ s.toList.getLast?, blank c = false) : trimWhere blank s = s := by
  have front : s.toList.dropWhile blank = s.toList := by
    cases chars : s.toList with
    | nil => rfl
    | cons c rest => simp [first c (by simp [chars])]
  rw [trimWhere, front, List.rdropWhile_eq_self_iff.mpr, String.ofList_toList]
  intro occupied
  simp [last _ (List.getLast?_eq_getLast_of_ne_nil occupied)]

theorem trimWhere_last {blank : Char → Bool} {s : String} {c : Char}
    (last : (trimWhere blank s).toList.getLast? = some c) : blank c = false := by
  simp only [trimWhere, String.toList_ofList] at last
  have occupied : (s.toList.dropWhile blank).rdropWhile blank ≠ [] := by
    intro empty
    simp [empty] at last
  rw [List.getLast?_eq_getLast_of_ne_nil occupied] at last
  have kept := List.rdropWhile_last_not _ _ occupied
  rw [Option.some.inj last] at kept
  simpa using kept

theorem trimWhere_head {blank : Char → Bool} {s : String} {c : Char}
    (first : (trimWhere blank s).toList.head? = some c) : blank c = false := by
  simp only [trimWhere, String.toList_ofList] at first
  obtain ⟨rest, whole⟩ := List.rdropWhile_prefix blank (l := s.toList.dropWhile blank)
  have front : (s.toList.dropWhile blank).head? = some c := by
    rw [← whole, List.head?_append, first]
    rfl
  cases chars : s.toList.dropWhile blank with
  | nil => simp [chars] at front
  | cons d tail =>
    have stop := List.dropWhile_get_zero_not (p := blank) s.toList (by simp [chars])
    simp only [chars, List.head?_cons, Option.some.injEq] at front
    subst front
    simpa [chars] using stop

theorem trimWhere_subset {blank : Char → Bool} {s : String} {c : Char}
    (inside : c ∈ (trimWhere blank s).toList) : c ∈ s.toList := by
  simp only [trimWhere, String.toList_ofList] at inside
  exact (List.dropWhile_sublist blank).subset ((List.rdropWhile_prefix blank _).subset inside)

theorem splitGo_append (c : Char) (done left right : List Char) :
    splitGo [c] 0 done (left ++ c :: right) = splitGo [c] 0 done left ++ splitGo [c] 0 [] right := by
  induction left generalizing done with
  | nil => simp [splitGo]
  | cons d left ih =>
    simp only [List.cons_append, splitGo, List.isPrefixOf, Bool.and_true]
    by_cases same : c = d
    · subst same
      simp [ih]
    · simp [same, ih]

/-- Splitting a joined text splits each piece. -/
theorem splitChar_joinChar (c : Char) {pieces : List String} (nonempty : pieces ≠ []) :
    splitChar c (joinChar c pieces) = pieces.flatMap (splitChar c) := by
  induction pieces with
  | nil => exact absurd rfl nonempty
  | cons piece rest ih =>
    cases rest with
    | nil => simp [joinChar, List.intercalate]
    | cons next rest =>
      have later := ih (List.cons_ne_nil _ _)
      simp only [splitChar, splitText, joinChar, String.toList_ofList, String.toList_singleton,
        List.map_cons, List.intercalate_cons_cons, List.append_assoc, List.cons_append,
        List.nil_append, List.flatMap_cons] at later ⊢
      rw [splitGo_append, List.map_append, later]

/-- A separator splits a text into the pieces before and behind it. -/
theorem splitChar_append_singleton (c : Char) (left right : String) :
    splitChar c (left ++ String.singleton c ++ right) = splitChar c left ++ splitChar c right := by
  simp [splitChar, splitText, splitGo_append]

theorem splitChar_of_not_mem {c : Char} {s : String} (free : c ∉ s.toList) : splitChar c s = [s] := by
  have whole := splitGo_pass free [] []
  simp only [List.append_nil] at whole
  simp [splitChar, splitText, whole, splitGo]

theorem splitGo_ne_nil (needle : List Char) (skip : Nat) (done text : List Char) :
    splitGo needle skip done text ≠ [] := by
  induction text generalizing skip done with
  | nil => cases skip <;> simp [splitGo]
  | cons d text ih =>
    cases skip with
    | zero =>
      simp only [splitGo]
      split
      · exact List.cons_ne_nil _ _
      · exact ih 0 _
    | succ skip => exact ih skip done

theorem splitChar_ne_nil (c : Char) (s : String) : splitChar c s ≠ [] := by
  simp [splitChar, splitText, splitGo_ne_nil]

/-- Joining the pieces of a split gives the text back. -/
theorem joinChar_splitChar (c : Char) (s : String) : joinChar c (splitChar c s) = s := by
  have general : ∀ text done : List Char,
      [c].intercalate (splitGo [c] 0 done text) = done.reverse ++ text := by
    intro text
    induction text with
    | nil => simp [splitGo, List.intercalate]
    | cons d text ih =>
      intro done
      simp only [splitGo, List.isPrefixOf, Bool.and_true]
      by_cases same : c = d
      · subst same
        simp only [BEq.rfl, if_true, List.length_singleton, Nat.sub_self]
        obtain ⟨first, rest, pieces⟩ := List.exists_cons_of_ne_nil (splitGo_ne_nil [c] 0 [] text)
        have later := ih []
        rw [pieces] at later ⊢
        rw [List.intercalate_cons_cons, later]
        simp
      · simp [same, ih]
  have pieces : (splitChar c s).map String.toList = splitGo [c] 0 [] s.toList := by
    simp [splitChar, splitText, Function.comp_def]
  rw [joinChar, pieces, general]
  simp

theorem splitChar_injective {c : Char} {s t : String} (same : splitChar c s = splitChar c t) :
    s = t := by
  rw [← joinChar_splitChar c s, same, joinChar_splitChar]

/-- A joined text as the last piece joins with the others. -/
theorem joinChar_append_joinChar (c : Char) (front : List String) {back : List String}
    (nonempty : back ≠ []) : joinChar c (front ++ [joinChar c back]) = joinChar c (front ++ back) := by
  induction front with
  | nil => simp [joinChar, List.intercalate]
  | cons piece front ih =>
    simp only [joinChar, String.ofList_inj] at ih ⊢
    cases front with
    | nil =>
      obtain ⟨next, rest, rfl⟩ := List.exists_cons_of_ne_nil nonempty
      simp [List.intercalate_cons_cons]
    | cons next front =>
      simpa [List.intercalate_cons_cons] using ih

/-- No piece of a split contains the character. -/
theorem splitChar_free {c : Char} {s piece : String} (member : piece ∈ splitChar c s) :
    c ∉ piece.toList := by
  simp only [splitChar, splitText, String.toList_singleton, List.mem_map] at member
  obtain ⟨chars, member, rfl⟩ := member
  rw [String.toList_ofList]
  have general : ∀ (text done : List Char), c ∉ done →
      ∀ chars ∈ splitGo [c] 0 done text, c ∉ chars := by
    intro text
    induction text with
    | nil =>
      intro done free chars here
      simp only [splitGo, List.mem_singleton] at here
      simpa [here] using free
    | cons d text ih =>
      intro done free chars here
      simp only [splitGo, List.isPrefixOf, Bool.and_true] at here
      split at here
      · rcases List.mem_cons.mp here with rfl | later
        · simpa using free
        · exact ih [] (by simp) chars (by simpa using later)
      · rename_i different
        refine ih (d :: done) ?_ chars here
        have other : c ≠ d := by simpa using different
        simp [other, free]
  exact general s.toList [] (by simp) chars member

theorem splitChar_subset {c d : Char} {s piece : String} (member : piece ∈ splitChar c s)
    (inside : d ∈ piece.toList) : d ∈ s.toList := by
  simp only [splitChar, splitText, String.toList_singleton, List.mem_map] at member
  obtain ⟨chars, member, rfl⟩ := member
  rw [String.toList_ofList] at inside
  have general : ∀ (text done : List Char), ∀ chars ∈ splitGo [c] 0 done text,
      ∀ d ∈ chars, d ∈ done ∨ d ∈ text := by
    intro text
    induction text with
    | nil =>
      intro done chars here d inside
      simp only [splitGo, List.mem_singleton] at here
      exact .inl (by simpa [here] using inside)
    | cons e text ih =>
      intro done chars here d inside
      simp only [splitGo, List.isPrefixOf, Bool.and_true] at here
      split at here
      · rcases List.mem_cons.mp here with rfl | later
        · exact .inl (by simpa using inside)
        · have rest := ih [] chars (by simpa using later) d inside
          simp only [List.not_mem_nil, false_or] at rest
          exact .inr (List.mem_cons_of_mem _ rest)
      · rcases ih (e :: done) chars here d inside with first | rest
        · rcases List.mem_cons.mp first with rfl | old
          · exact .inr (List.mem_cons_self)
          · exact .inl old
        · exact .inr (List.mem_cons_of_mem _ rest)
  rcases general s.toList [] chars member d inside with none_ | here
  · cases none_
  · exact here

theorem splitOnce_append {c : Char} {left : String} (free : c ∉ left.toList) (right : String) :
    splitOnce c (left ++ String.singleton c ++ right) = some (left, right) := by
  have stop : ∀ d ∈ left.toList, (d != c) = true := by
    intro d inside
    have other : d ≠ c := by
      intro same
      exact free (same ▸ inside)
    simpa using other
  have chars : (left ++ String.singleton c ++ right).toList = left.toList ++ c :: right.toList := by
    simp
  have found : containsChar c (left ++ String.singleton c ++ right) = true := by
    rw [containsChar, chars]
    simp
  rw [splitOnce, if_pos found, beforeChar, chars, List.takeWhile_append_of_pos stop,
    List.dropWhile_append_of_pos stop]
  simp

/-- Lines that were each ended by a newline are read back. -/
theorem lines_ended {ls : List String} (plain : ∀ l ∈ ls, '\n' ∉ l.toList ∧ '\r' ∉ l.toList) :
    lines (String.ofList (ls.flatMap fun l => l.toList ++ ['\n'])) = ls := by
  have joined : String.ofList (ls.flatMap fun l => l.toList ++ ['\n']) = joinChar '\n' (ls ++ [""]) := by
    rw [joinChar, String.ofList_inj]
    clear plain
    induction ls with
    | nil => rfl
    | cons l ls ih =>
      cases ls with
      | nil => simp [List.intercalate]
      | cons next rest =>
        rw [List.flatMap_cons, ih]
        simp [List.intercalate_cons_cons]
  have pieces : splitChar '\n' (joinChar '\n' (ls ++ [""])) = ls ++ [""] := by
    rw [splitChar_joinChar '\n' (by simp), List.flatMap_append]
    congr 1
    have single : ls.flatMap (splitChar '\n') = ls.flatMap fun l => [l] :=
      List.flatMap_congr fun l member => splitChar_of_not_mem (plain l member).1
    rw [single, List.flatMap_singleton']
  have kept : ls.map stripCarriageReturn = ls := by
    refine (List.map_congr_left fun l member => ?_).trans (List.map_id _)
    have unended : l.toList.getLast? ≠ some '\r' := by
      intro last
      exact (plain l member).2 (List.mem_of_getLast? last)
    simp [stripCarriageReturn, unended]
  rw [lines, joined, pieces, List.dropLast_concat, kept]
  simp

/-- Text up to a newline is cut into lines on its own. -/
theorem lines_append_newline (left right : String) :
    lines (left ++ "\n" ++ right) = (splitChar '\n' left).map stripCarriageReturn ++ lines right := by
  have pieces : splitChar '\n' (left ++ "\n" ++ right) = splitChar '\n' left ++ splitChar '\n' right := by
    have chars : (left ++ "\n" ++ right).toList = left.toList ++ '\n' :: right.toList := by simp
    simp only [splitChar, splitText, String.toList_singleton, chars, splitGo_append, List.map_append]
  have occupied := splitChar_ne_nil '\n' right
  rw [lines, lines, pieces, List.dropLast_append_of_ne_nil occupied, List.map_append,
    List.append_assoc, List.getLast?_append_of_ne_nil _ occupied]

/-- A line is followed by what is left of the text. -/
theorem lines_line {line : String} (plain : '\n' ∉ line.toList) (occupied : line ≠ "") (after : String) :
    lines line = [line] ∧ lines (line ++ "\n" ++ after) = stripCarriageReturn line :: lines after := by
  constructor
  · rw [lines, splitChar_of_not_mem plain]
    simp [occupied]
  · rw [lines_append_newline, splitChar_of_not_mem plain]
    rfl

/-- The sides of a cut put the text together again. -/
theorem cutChars_eq_some {needle text left right : List Char}
    (cut : cutChars needle text = some (left, right)) : text = left ++ needle ++ right := by
  induction text generalizing left with
  | nil => cases cut
  | cons c rest ih =>
    simp only [cutChars] at cut
    split at cut
    · rename_i here
      obtain ⟨tail, whole⟩ := List.isPrefixOf_iff_prefix.mp here
      simp only [Option.some.injEq, Prod.mk.injEq] at cut
      obtain ⟨rfl, rfl⟩ := cut
      simp [← whole]
    · obtain ⟨⟨head, tail⟩, deeper, same⟩ := Option.map_eq_some_iff.mp cut
      obtain ⟨rfl, rfl⟩ := Prod.mk.inj same
      rw [ih deeper]
      rfl

theorem cutChars_isSome {needle : List Char} (occupied : needle ≠ []) (text : List Char) :
    (cutChars needle text).isSome = text.tails.any fun rest => needle.isPrefixOf rest := by
  induction text with
  | nil =>
    cases needle with
    | nil => exact absurd rfl occupied
    | cons c needle => simp [cutChars, List.isPrefixOf]
  | cons c rest ih =>
    simp only [cutChars, List.tails, List.any_cons]
    split
    · rename_i here
      simp [here]
    · rename_i absent
      simp [absent, ih]

/-- A cut passes over a piece without the needle's first character. -/
theorem cutChars_pass {c : Char} (needle : List Char) {piece : List Char} (free : c ∉ piece)
    (tail : List Char) :
    cutChars (c :: needle) (piece ++ tail) =
      (cutChars (c :: needle) tail).map fun sides => (piece ++ sides.1, sides.2) := by
  induction piece with
  | nil => simp
  | cons d piece ih =>
    rw [List.mem_cons, not_or] at free
    have other : (c == d) = false := by simpa using free.1
    simp [cutChars, List.isPrefixOf, other, ih free.2, Function.comp_def]

theorem mem_replaceChar {old new : Char} (different : old ≠ new) (s : String) :
    old ∉ (replaceChar old new s).toList := by
  simp only [replaceChar, String.toList_ofList, List.mem_map, not_exists, not_and]
  intro c _ same
  split at same
  · exact different same.symm
  · rename_i other
    exact other same

theorem replaceChar_of_not_mem {old new : Char} {s : String} (free : old ∉ s.toList) :
    replaceChar old new s = s := by
  have unchanged : (s.toList.map fun c => if c = old then new else c) = s.toList := by
    refine (List.map_congr_left fun c here => ?_).trans (List.map_id _)
    have other : c ≠ old := by
      intro same
      exact free (same ▸ here)
    simp [other]
  rw [replaceChar, unchanged, String.ofList_toList]

theorem mem_joinChar {c d : Char} {pieces : List String} (inside : d ∈ (joinChar c pieces).toList) :
    d = c ∨ ∃ piece ∈ pieces, d ∈ piece.toList := by
  rw [joinChar, String.toList_ofList] at inside
  induction pieces with
  | nil => simp [List.intercalate] at inside
  | cons piece rest ih =>
    cases rest with
    | nil => exact .inr ⟨piece, by simp, by simpa [List.intercalate] using inside⟩
    | cons next rest =>
      rw [List.map_cons, List.map_cons, List.intercalate_cons_cons, List.append_assoc,
        List.mem_append, List.mem_append, List.mem_singleton] at inside
      rcases inside with here | same | later
      · exact .inr ⟨piece, by simp, here⟩
      · exact .inl same
      · rcases ih later with same | ⟨other, member, found⟩
        · exact .inl same
        · exact .inr ⟨other, List.mem_cons_of_mem _ member, found⟩

theorem replaceChar_append (old new : Char) (a b : String) :
    replaceChar old new (a ++ b) = replaceChar old new a ++ replaceChar old new b := by
  apply String.toList_inj.mp
  simp [replaceChar]

/-- What holds of the 128 ASCII characters holds of each character below 128. -/
theorem ascii_forall {P : Char → Prop} (table : ∀ n : Fin 128, P (Char.ofNat n)) {c : Char}
    (ascii : c.toNat < 128) : P c := by
  have one := table ⟨c.toNat, ascii⟩
  rwa [Char.ofNat_toNat] at one

end Walaru.Lib.Text
