import Walaru.Source.Core.WorkspaceFiles
import Walaru.Source.Daemon.Overlay

/-!
# The texts under which mirrored paths are recorded

The manifest of a mirror records texts, the mirror itself has paths. For the paths
whose names their texts stand for, the two correspond.
-/
namespace Walaru.Overlay
open Lib.Text Lib.FileTree

/-- A name that its text stands for: well-formed, without a backslash, and no dots. -/
def canonicalName (name : FileName) : Bool :=
  name.plain && name.toStringLossy ∉ [".", ".."]

/-- A path below the mirror's root of such names. -/
structure Canonical (path : Path) : Prop where
  nonempty : path ≠ []
  names : ∀ name ∈ path, canonicalName name = true

theorem Canonical.plain {path : Path} (canonical : Canonical path) :
    ∀ name ∈ path, name.plain = true := by
  intro name member
  have both := canonical.names name member
  rw [canonicalName, Bool.and_eq_true] at both
  exact both.1

theorem Canonical.split_text {path : Path} (canonical : Canonical path) :
    splitChar '/' (relativeString [] path) = path.map FileName.toStringLossy := by
  rw [relativeString_plain canonical.plain, splitChar_displayPath canonical.nonempty]

theorem toStringLossy_ne_empty (name : FileName) : name.toStringLossy ≠ "" := by
  intro empty
  have chars := congrArg String.toList empty
  simp [FileName.toStringLossy, name.nonempty] at chars

theorem pieceName_text {name : FileName} (canonical : canonicalName name = true) :
    pieceName name.toStringLossy = some name ∧ name.toStringLossy ≠ ".." := by
  simp only [canonicalName, Bool.and_eq_true, decide_eq_true_eq, List.mem_cons,
    List.not_mem_nil, or_false, not_or] at canonical
  obtain ⟨plain, dot, dots⟩ := canonical
  have named : name.toStringLossy ≠ "." ∧ name.toStringLossy.toList ≠ [] ∧
      '/' ∉ name.toStringLossy.toList := by
    refine ⟨dot, ?_, name.separator_not_mem⟩
    simp [FileName.toStringLossy, name.nonempty]
  have same : FileName.ofText name.toStringLossy named.2 = name := by
    cases name
    simpa [FileName.ofText] using (FileName.units_of_plain plain).1.symm
  exact ⟨by rw [pieceName, dif_pos named, same], dots⟩

/-- An absolute text has an empty piece at its front. -/
theorem relative_of_pieces {text : String} (occupied : "" ∉ splitChar '/' text) :
    startsWith "/" text = false := by
  cases chars : text.toList with
  | nil => simp [startsWith, chars]
  | cons c rest =>
    by_contra absolute
    have slash : '/' = c := by simpa [startsWith, chars, List.isPrefixOf] using absolute
    subst slash
    apply occupied
    rw [splitChar, splitText, chars]
    simp [splitGo, List.isPrefixOf]

theorem Canonical.relative {path : Path} (canonical : Canonical path) :
    startsWith "/" (relativeString [] path) = false := by
  apply relative_of_pieces
  rw [canonical.split_text, List.mem_map]
  rintro ⟨name, -, empty⟩
  exact toStringLossy_ne_empty name empty

theorem validateRelativePath_ok {value : String} (valid : validateRelativePath value = .ok ()) :
    '\\' ∉ value.toList ∧ "" ∉ splitChar '/' value ∧ ".." ∉ splitChar '/' value := by
  unfold validateRelativePath at valid
  split at valid
  · cases valid
  · rename_i first
    split at valid
    · cases valid
    · rename_i second
      simp only [not_or] at first second
      exact ⟨by simpa [containsChar] using first.2.2.1, first.2.2.2.2, second.2⟩

theorem texts_of_pieces {pieces : List String}
    (good : ∀ piece ∈ pieces, piece ≠ "" ∧ piece ≠ "." ∧ piece ≠ ".." ∧ '/' ∉ piece.toList ∧
      '\\' ∉ piece.toList) :
    (pieces.filterMap pieceName).map FileName.toStringLossy = pieces ∧
      ∀ name ∈ pieces.filterMap pieceName, canonicalName name = true := by
  induction pieces with
  | nil => simp
  | cons piece rest ih =>
    rw [List.forall_mem_cons] at good
    obtain ⟨⟨occupied, dot, dots, slash, backslash⟩, later⟩ := good
    have named : piece ≠ "." ∧ piece.toList ≠ [] ∧ '/' ∉ piece.toList :=
      ⟨dot, by simpa using occupied, slash⟩
    have text : (FileName.ofText piece named.2).toStringLossy = piece := by
      simp [FileName.toStringLossy, FileName.ofText, Function.comp_def, NameUnit.lossy]
    have canonical : canonicalName (FileName.ofText piece named.2) = true := by
      simp only [canonicalName, text, Bool.and_eq_true]
      refine ⟨?_, by simp [dot, dots]⟩
      simp only [FileName.plain, FileName.ofText, List.all_map, List.all_eq_true]
      intro c inside
      have other : c ≠ '\\' := by
        rintro rfl
        exact backslash inside
      simpa using other
    rw [List.filterMap_cons_some (b := FileName.ofText piece named.2) (by rw [pieceName, dif_pos named])]
    obtain ⟨texts, names⟩ := ih later
    exact ⟨by simp [text, texts], by simpa [canonical] using names⟩

end Walaru.Overlay
