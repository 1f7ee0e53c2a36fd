import Walaru.Source.Daemon.SourceResolution

/-!
# The file that a recorded line belongs to

A class tells its source by a name, for Java the bare file name. The resolver takes
the file at that path of the workspace, and otherwise the only entry of that name
below the workspace's own `src`. Sources of a module stand elsewhere, so the file found
need not be the one that was compiled. Here is when the stored path leads to no other
file.
-/
namespace Walaru.Located
open Lib.Text Lib.FileTree

/-- A file of the workspace. -/
def Holds (w : Located) (file : Path) : Prop :=
  ∃ data, w.machine.look (w.root ++ file) = some (.file data)

/-- The text leads to this file of the workspace. -/
def Names (w : Located) (text : String) (file : Path) : Prop :=
  w.leads text = some (w.root ++ file) ∧ w.Holds file

/-- The stored text is the path of this file, or names no file of the workspace. -/
def Attributed (w : Located) (file : Path) (stored : String) : Prop :=
  ∀ other, w.Names stored other → other = file

/-- The reported name leads to no other file, neither as a path of the workspace nor
as the name of the only entry below `src` that bears it. -/
structure Unmistaken (w : Located) (file : Path) (reported : String) : Prop where
  place : ∀ other, w.Names (replaceChar '\\' '/' reported) other → other = file
  search : w.isFile (replaceChar '\\' '/' reported) = false →
    ∀ only, w.OnlyNamed (fileName (replaceChar '\\' '/' reported)) only →
      ∀ other, w.Names (relativeString [] only) other → other = file

theorem isFile_of_names {w : Located} {text : String} {file : Path} (names : w.Names text file) :
    w.isFile text = true := by
  obtain ⟨led, data, shown⟩ := names
  simp [isFile, led, shown]

theorem resolveSourcePath_attributed_iff (w : Located) (file : Path) (reported : String) :
    w.Attributed file (resolveSourcePath w.sourceTree reported) ↔
      w.Unmistaken file reported := by
  rw [resolveSourcePath_sourceTree]
  by_cases found : w.isFile (replaceChar '\\' '/' reported) = true
  · rw [if_pos found]
    constructor
    · intro attributed
      exact ⟨attributed, by simp [found]⟩
    · exact fun unmistaken => unmistaken.place
  · rw [if_neg found]
    have place (other : Path) (names : w.Names (replaceChar '\\' '/' reported) other) :
        other = file := absurd (isFile_of_names names) found
    split
    · rename_i only single
      have named : w.OnlyNamed (fileName (replaceChar '\\' '/' reported)) only :=
        namedLeaves_eq_singleton.mp single
      constructor
      · intro attributed
        refine ⟨place, fun _ only' named' => ?_⟩
        obtain rfl : only = only' := (named' only).mp ((named only).mpr rfl)
        exact attributed
      · intro unmistaken
        exact unmistaken.search (by simpa using found) only named
    · rename_i several
      constructor
      · intro _
        refine ⟨place, fun _ only named => ?_⟩
        exact absurd (namedLeaves_eq_singleton.mpr named) (several only)
      · exact fun _ => place

/-- A file below `src` is the only one of its name, or there is no only one. -/
theorem only_eq_of_sourceEntry {w : Located} {file only : Path} {name : String}
    (entry : w.SourceEntry file) (own : lastText file = some name)
    (named : w.OnlyNamed (some name) only) : only = file :=
  ((named file).mp ⟨entry, rfl, own⟩).symm

theorem follow_shown {machine : Tree} {path : Path}
    (names : ∀ name ∈ path, Overlay.canonicalName name = true) {place : Path}
    {kind : Kind FileData} (shown : machine.look (place ++ path) = some kind) :
    follow machine place (path.map FileName.toStringLossy) = some (place ++ path) := by
  induction path generalizing place with
  | nil => simp [follow]
  | cons name rest ih =>
    rw [List.forall_mem_cons] at names
    obtain ⟨piece, dots⟩ := Overlay.pieceName_text names.1
    have above := Entries.look_above shown (List.prefix_append place (name :: rest)) (by simp)
    have next : machine.look ((place ++ [name]) ++ rest) = some kind := by simpa using shown
    simp only [List.map_cons, follow, dots, if_false, piece, Option.toList_some, above, ne_eq,
      not_true_eq_false]
    simpa using ih names.2 next

/-- The text of an entry whose names are ordinary leads back to the entry. -/
theorem leads_text {w : Located} {path : Path} (canonical : Overlay.Canonical path)
    {kind : Kind FileData} (shown : w.machine.look (w.root ++ path) = some kind) :
    w.leads (relativeString [] path) = some (w.root ++ path) := by
  rw [leads, canonical.relative, canonical.split_text]
  exact follow_shown canonical.names shown

/-- Where the names below `src` are ordinary and a class reports its own file's name:
the search mistakes a file exactly when it lies elsewhere and `src` holds one file of
that name. -/
theorem own_name_attributed_iff {w : Located} {file : Path} {name : String}
    (own : lastText file = some name) (reported : replaceChar '\\' '/' name = name)
    (proper : fileName name = some name)
    (ordinary : ∀ path, w.SourceEntry path → Overlay.Canonical path) :
    w.Attributed file (resolveSourcePath w.sourceTree name) ↔
      (∀ other, w.Names name other → other = file) ∧
        (w.isFile name = false → w.SourceEntry file ∨
          ∀ only, w.OnlyNamed (some name) only → ¬ w.Holds only) := by
  rw [resolveSourcePath_attributed_iff]
  constructor
  · intro ⟨place, search⟩
    rw [reported] at place search
    rw [proper] at search
    refine ⟨place, fun missing => ?_⟩
    by_cases entry : w.SourceEntry file
    · exact .inl entry
    · refine .inr fun only named held => ?_
      have found : w.SourceEntry only := ((named only).mpr rfl).1
      obtain ⟨data, shown⟩ := held
      have same := search missing only named only ⟨leads_text (ordinary only found) shown, data, shown⟩
      exact entry (same ▸ found)
  · intro ⟨place, search⟩
    refine ⟨by simpa [reported] using place, ?_⟩
    rw [reported, proper]
    intro missing only named other ⟨led, held⟩
    obtain ⟨kind, shown⟩ : ∃ kind, w.machine.look (w.root ++ only) = some kind := by
      obtain ⟨below, rfl, -, kind, shown, -⟩ := ((named only).mpr rfl).1
      exact ⟨kind, shown⟩
    rw [leads_text (ordinary only ((named only).mpr rfl).1) shown] at led
    obtain rfl : only = other := List.append_cancel_left (Option.some.inj led)
    rcases search missing with entry | absent
    · exact only_eq_of_sourceEntry entry own named
    · exact absurd held (absent only named)

def exampleFile (names : List String) : List FileName := names.filterMap Overlay.pieceName

/-- A root with its own `src/demo/A.java` and a module with another `A.java`. -/
def twoModules : Located where
  machine :=
    .cons .src
      (.dir (.cons (.ofText "demo") (.dir (.cons .sourceA (.file ⟨[1], 0⟩) .nil)) .nil))
      (.cons (.ofText "module")
        (.dir (.cons .src (.dir (.cons .sourceA (.file ⟨[2], 0⟩) .nil)) .nil))
        .nil)
  root := []
  distinct := by decide +kernel

/-- The module's line is stored under the root's file. -/
theorem module_source_mistaken :
    twoModules.Holds (exampleFile ["module", "src", "A.java"]) ∧
    lastText (exampleFile ["module", "src", "A.java"]) = some "A.java" ∧
    resolveSourcePath twoModules.sourceTree "A.java" = "src/demo/A.java" ∧
    ¬ twoModules.Attributed (exampleFile ["module", "src", "A.java"])
      (resolveSourcePath twoModules.sourceTree "A.java") := by
  have stored : resolveSourcePath twoModules.sourceTree "A.java" = "src/demo/A.java" := by
    decide +kernel
  have led : twoModules.leads "src/demo/A.java" =
      some (twoModules.root ++ exampleFile ["src", "demo", "A.java"]) := by decide +kernel
  have held : twoModules.machine.look (twoModules.root ++ exampleFile ["src", "demo", "A.java"]) =
      some (.file ⟨[1], 0⟩) := by decide +kernel
  have different : exampleFile ["src", "demo", "A.java"] ≠
      exampleFile ["module", "src", "A.java"] := by decide +kernel
  refine ⟨⟨⟨[2], 0⟩, by decide +kernel⟩, by decide +kernel, stored, ?_⟩
  rw [stored]
  intro attributed
  exact different (attributed _ ⟨led, _, held⟩)

end Walaru.Located
