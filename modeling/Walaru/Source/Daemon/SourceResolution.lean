import Walaru.Lib.TreeLeaves
import Walaru.Source.Daemon.OverlayPaths
import Walaru.Source.Daemon.Events

/-!
# The workspace as the source path resolver sees it

`resolve_source_path` asks the file system whether the reported path is a file, and
walks `src` for entries of the reported name. Here both are read off a machine's
directory tree, in which a link shows what it leads to.
-/
namespace Walaru
open Lib.Text Lib.FileTree

/-- A machine's files and the path that leads to the workspace's root. -/
structure Located where
  machine : Tree
  root : Path
  distinct : machine.distinct = true

namespace Located

/-- Where the pieces of a path text lead, from a directory on. -/
def follow (machine : Tree) : Path → List String → Option Path
  | place, [] => some place
  | place, piece :: rest =>
    if machine.look place ≠ some .dir then none
    else if piece = ".." then follow machine place.dropLast rest
    else follow machine (place ++ (Overlay.pieceName piece).toList) rest

/-- What `workspace.join(text)` names; an absolute text starts at the top. -/
def leads (w : Located) (text : String) : Option Path :=
  follow w.machine (if startsWith "/" text then [] else w.root) (splitChar '/' text)

/-- `workspace.join(text).is_file()`. -/
def isFile (w : Located) (text : String) : Bool :=
  match (w.leads text).bind w.machine.look with
  | some (.file _) => true
  | _ => false

def sourceName : FileName := .src

/-- The entries below `src` that are no directories; without such a directory there
are none. -/
def sourceLeaves (w : Located) : List Path :=
  match w.machine.get (w.root ++ [sourceName]) with
  | some (.dir entries) => (Node.dir entries).leaves [sourceName]
  | _ => []

/-- The text that the last name of a path is. -/
def lastText (path : Path) : Option String := path.getLast?.bind FileName.toStr

/-- The resolver's view. A name that is no text, or that no directory holds, is never
the one looked for. -/
def sourceTree (w : Located) : SourceTree where
  isFile := w.isFile
  sourceFiles := (w.sourceLeaves.filter fun path =>
    (lastText path).any fun text => !([".", ".."].contains text)).map displayPath

theorem toStringLossy_of_toStr {name : FileName} {text : String} (shown : name.toStr = some text) :
    name.toStringLossy = text := by
  simp only [FileName.toStr, unitsToStr, Option.map_eq_some_iff] at shown
  obtain ⟨chars, mapped, rfl⟩ := shown
  rw [FileName.toStringLossy]
  congr 1
  generalize name.units = units at mapped
  induction units generalizing chars with
  | nil => simpa using mapped.symm
  | cons unit rest ih =>
    simp only [List.mapM_cons, Option.bind_eq_bind, Option.bind_eq_some_iff, Option.pure_def,
      Option.some.injEq] at mapped
    obtain ⟨c, scalar, cs, mapped, rfl⟩ := mapped
    cases unit with
    | scalar d =>
      cases scalar
      simp [NameUnit.lossy, ih cs mapped]
    | illFormed bytes => cases scalar

theorem fileName_ne {text name : String} (shown : fileName text = some name) :
    name ≠ "." ∧ name ≠ ".." := by
  simp only [fileName, Option.filter_eq_some_iff, decide_eq_true_eq] at shown
  have member := List.mem_of_getLast? shown.1
  have kept := (List.mem_filter.mp member).2
  simp only [Bool.and_eq_true, decide_eq_true_eq] at kept
  exact ⟨kept.2, shown.2⟩

/-- The displayed path of an entry ends in the entry's name. -/
theorem fileName_displayPath {path : Path} {text : String} (last : lastText path = some text)
    (proper : text ≠ "." ∧ text ≠ "..") : fileName (displayPath path) = some text := by
  simp only [lastText, Option.bind_eq_some_iff] at last
  obtain ⟨name, ending, shown⟩ := last
  have nonempty : path ≠ [] := by
    rintro rfl
    cases ending
  obtain ⟨above, rfl⟩ : ∃ above, path = above ++ [name] := by
    rw [List.getLast?_eq_some_iff] at ending
    exact ending
  have lossy := toStringLossy_of_toStr shown
  have occupied : text ≠ "" := lossy ▸ Overlay.toStringLossy_ne_empty name
  rw [fileName, splitChar_displayPath nonempty]
  simp [lossy, proper, occupied]

/-- The entries below `src` that bear the name. -/
def namedLeaves (w : Located) (name : Option String) : List Path :=
  w.sourceLeaves.filter fun path => name.isSome && lastText path = name

theorem collectNamedFiles_sourceTree (w : Located) (text : String) :
    collectNamedFiles w.sourceTree (fileName text) =
      (w.namedLeaves (fileName text)).map displayPath := by
  rw [collectNamedFiles, sourceTree, namedLeaves, List.filter_map, List.filter_filter]
  congr 1
  apply List.filter_congr
  intro path _
  cases looked : fileName text with
  | none => simp
  | some name =>
    have proper := fileName_ne looked
    cases last : lastText path with
    | none => simp
    | some own =>
      by_cases dotted : own = "." ∨ own = ".."
      · have other : own ≠ name := by
          rintro rfl
          exact dotted.elim proper.1 proper.2
        simp [other]
        exact fun _ => or_iff_not_imp_left.mp dotted
      · rw [not_or] at dotted
        simp [fileName_displayPath last dotted, dotted]

theorem resolveSourcePath_sourceTree (w : Located) (raw : String) :
    resolveSourcePath w.sourceTree raw =
      if w.isFile (replaceChar '\\' '/' raw) then replaceChar '\\' '/' raw
      else
        match w.namedLeaves (fileName (replaceChar '\\' '/' raw)) with
        | [only] => relativeString [] only
        | _ => replaceChar '\\' '/' raw := by
  rw [resolveSourcePath, collectNamedFiles_sourceTree]
  change (if w.isFile _ = true then _ else _) = _
  split
  · rfl
  · match w.namedLeaves (fileName (replaceChar '\\' '/' raw)) with
    | [] => rfl
    | [only] => simp [relativeString]
    | _ :: _ :: _ => rfl

/-- An entry below `src` that is no directory. -/
def SourceEntry (w : Located) (path : Path) : Prop :=
  ∃ below, path = sourceName :: below ∧ below ≠ [] ∧
    ∃ kind, w.machine.look (w.root ++ path) = some kind ∧ kind ≠ .dir

/-- The only entry below `src` of that name. -/
def OnlyNamed (w : Located) (name : Option String) (only : Path) : Prop :=
  ∀ path, w.SourceEntry path ∧ name.isSome ∧ lastText path = name ↔ path = only

theorem sourceEntry_iff_leaf {w : Located} {entries : Tree}
    (directory : w.machine.get (w.root ++ [sourceName]) = some (.dir entries)) (path : Path) :
    w.SourceEntry path ↔ ∃ below, path = [sourceName] ++ below ∧ (Node.dir entries).Leaf below := by
  have under (below : Path) : w.machine.get (w.root ++ sourceName :: below) =
      (Node.dir entries).get below := by
    have split : w.root ++ sourceName :: below = (w.root ++ [sourceName]) ++ below := by simp
    rw [split, Entries.get, Node.get_append]
    change (w.machine.get _).bind _ = _
    rw [directory, Option.bind_some]
  constructor
  · rintro ⟨below, rfl, -, kind, shown, leaf⟩
    rw [Entries.look, under, Option.map_eq_some_iff] at shown
    obtain ⟨found, shown, rfl⟩ := shown
    exact ⟨below, rfl, found, shown, leaf⟩
  · rintro ⟨below, rfl, found, shown, leaf⟩
    refine ⟨below, rfl, ?_, found.kind, ?_, leaf⟩
    · rintro rfl
      cases shown
      exact leaf rfl
    · rw [Entries.look, List.singleton_append, under, shown, Option.map_some]

theorem sourceEntry_directory {w : Located} {path : Path} (entry : w.SourceEntry path) :
    ∃ entries, w.machine.get (w.root ++ [sourceName]) = some (.dir entries) := by
  obtain ⟨below, rfl, nonempty, kind, shown, -⟩ := entry
  cases below with
  | nil => exact absurd rfl nonempty
  | cons name rest =>
    rw [Entries.look, Option.map_eq_some_iff] at shown
    obtain ⟨found, shown, -⟩ := shown
    have deeper : (Node.dir w.machine).get ((w.root ++ [sourceName]) ++ name :: rest) =
        some found := by simpa [Entries.get] using shown
    exact Node.get_dir_of_get deeper

/-- The search ends with one entry exactly when one entry bears the name. -/
theorem namedLeaves_eq_singleton {w : Located} {name : Option String} {only : Path} :
    w.namedLeaves name = [only] ↔ w.OnlyNamed name only := by
  unfold namedLeaves sourceLeaves OnlyNamed
  cases found : w.machine.get (w.root ++ [sourceName]) with
  | some node =>
    cases node with
    | dir entries =>
      have whole : (Node.dir w.machine).distinct = true := w.distinct
      have distinct : (Node.dir entries).distinct = true := Node.distinct_get whole found
      simp only [sourceEntry_iff_leaf found]
      rw [Node.filter_leaves_eq_singleton distinct]
      simp
    | _ =>
      simp only [List.filter_nil, List.nil_eq, reduceCtorEq, false_iff]
      intro unique
      obtain ⟨entries, directory⟩ := sourceEntry_directory ((unique only).mpr rfl).1
      simp [found] at directory
  | none =>
    simp only [List.filter_nil, List.nil_eq, reduceCtorEq, false_iff]
    intro unique
    obtain ⟨entries, directory⟩ := sourceEntry_directory ((unique only).mpr rfl).1
    simp [found] at directory

end Located
end Walaru
