import Walaru.Lib.Trace
import Walaru.Source.Daemon.OverlayEffects

/-!
# Where a preparation puts files

What the parts of a preparation leave is said by the paths at which something other than
a directory stands: the listed files and the documents come to stand at theirs, the stale
ones go away, and nothing else appears.
-/
namespace Walaru.Overlay
open Lib.Text Lib.FileTree

/-- The text leads to the path, wherever that path exists. -/
structure Leads (text : String) (path : Path) : Prop where
  pieces : ∀ piece ∈ splitChar '/' text, piece ≠ "" ∧ piece ≠ ".."
  ending : endsInDot text = false
  target : pathFromSlashes text = path

theorem pieceName_isSome {piece : String} (occupied : piece ≠ "") (dot : piece ≠ ".")
    (free : '/' ∉ piece.toList) : ∃ name, pieceName piece = some name := by
  have named : piece ≠ "." ∧ piece.toList ≠ [] ∧ '/' ∉ piece.toList :=
    ⟨dot, by simpa using occupied, free⟩
  exact ⟨_, by rw [pieceName, dif_pos named]⟩

/-- Pieces that do not end in a dot name something. -/
theorem names_ne_nil {pieces : List String} (some_ : pieces ≠ [])
    (good : ∀ piece ∈ pieces, piece ≠ "" ∧ piece ≠ ".." ∧ '/' ∉ piece.toList)
    (ending : pieces.getLast? ≠ some ".") : pieces.filterMap pieceName ≠ [] := by
  have last := List.getLast_mem some_
  rw [List.getLast?_eq_getLast_of_ne_nil some_] at ending
  obtain ⟨occupied, -, free⟩ := good _ last
  obtain ⟨name, named⟩ := pieceName_isSome occupied (fun same => ending (by rw [same])) free
  exact List.ne_nil_of_mem (List.mem_filterMap.mpr ⟨_, last, named⟩)

theorem resolve_pieces {mirror : Tree} {pieces : List String}
    (good : ∀ piece ∈ pieces, piece ≠ "" ∧ piece ≠ ".." ∧ '/' ∉ piece.toList)
    (ending : pieces.getLast? ≠ some ".") {place : Path} {kind : Kind FileData}
    (shown : mirror.look (place ++ pieces.filterMap pieceName) = some kind) :
    resolve mirror place pieces = some (place ++ pieces.filterMap pieceName) := by
  induction pieces generalizing place with
  | nil => simp [resolve]
  | cons piece rest ih =>
    have below := names_ne_nil (by simp) good ending
    have above := Entries.look_above shown (List.prefix_append place _) (by simpa using below)
    have later : rest.getLast? ≠ some "." := by
      cases rest with
      | nil => simp
      | cons next rest => simpa [List.getLast?_cons] using ending
    rw [List.forall_mem_cons] at good
    have split_ : (pieceName piece).toList ++ rest.filterMap pieceName =
        (piece :: rest).filterMap pieceName := by
      cases named : pieceName piece with
      | none => simp [named]
      | some name => simp [named]
    rw [← split_, ← List.append_assoc] at shown ⊢
    simp only [resolve, above, ne_eq, not_true_eq_false, if_false, good.1.2.1]
    exact ih good.2 later shown

theorem Leads.staleTarget {text : String} {path : Path} (leads : Leads text path) {mirror : Tree}
    (solid : mirror.Solid path) : staleTarget mirror text = some path := by
  obtain ⟨kind, shown, -⟩ := solid
  have relative : startsWith "/" text = false :=
    relative_of_pieces fun empty => (leads.pieces "" empty).1 rfl
  rw [Overlay.staleTarget, relative, if_neg (by simp)]
  have ending : (splitChar '/' text).getLast? ≠ some "." := by simpa [endsInDot] using leads.ending
  have there : mirror.look ([] ++ (splitChar '/' text).filterMap pieceName) = some kind := by
    simpa [← leads.target, pathFromSlashes] using shown
  have resolved := resolve_pieces
    (fun piece member => ⟨(leads.pieces piece member).1, (leads.pieces piece member).2,
      splitChar_free member⟩) ending there
  simpa [← leads.target, pathFromSlashes] using resolved

theorem leads_of_valid {text : String} (valid : validateRelativePath text = .ok ())
    (ending : endsInDot text = false) : Leads text (pathFromSlashes text) where
  pieces piece member := by
    obtain ⟨-, occupied, dots⟩ := validateRelativePath_ok valid
    constructor
    · rintro rfl
      exact occupied member
    · rintro rfl
      exact dots member
  ending := ending
  target := rfl

theorem names_pieces {rel : Path} (names : ∀ name ∈ rel, canonicalName name = true) :
    (rel.map FileName.toStringLossy).filterMap pieceName = rel := by
  induction rel with
  | nil => rfl
  | cons name rest ih =>
    rw [List.forall_mem_cons] at names
    rw [List.map_cons, List.filterMap_cons_some (pieceName_text names.1).1, ih names.2]

/-- A document is recorded by a text that leads to where it is written. -/
theorem leads_document {rel : Path} (names : ∀ name ∈ rel, canonicalName name = true)
    {document : OverlayDocument} (valid : validateRelativePath document.path = .ok ())
    (ending : endsInDot document.path = false) :
    Leads (documentKey rel document) (documentTarget rel document) := by
  obtain ⟨backslash, -, -⟩ := validateRelativePath_ok valid
  have free : ∀ piece ∈ rel.map FileName.toStringLossy ++ splitChar '/' document.path,
      '/' ∉ piece.toList ∧ '\\' ∉ piece.toList := by
    intro piece member
    rcases List.mem_append.mp member with above | below
    · obtain ⟨name, inside, rfl⟩ := List.mem_map.mp above
      have canonical := names name inside
      rw [canonicalName, Bool.and_eq_true] at canonical
      exact ⟨name.separator_not_mem, (FileName.units_of_plain canonical.1).2⟩
    · exact ⟨splitChar_free below, fun inside => backslash (splitChar_subset below inside)⟩
  have whole : documentKey rel document =
      joinChar '/' (rel.map FileName.toStringLossy ++ splitChar '/' document.path) := by
    have path := joinChar_append_joinChar '/' (rel.map FileName.toStringLossy)
      (splitChar_ne_nil '/' document.path)
    rw [joinChar_splitChar] at path
    rw [documentKey, path, replaceChar_of_not_mem]
    intro inside
    rcases mem_joinChar inside with same | ⟨piece, member, found⟩
    · exact absurd same (by decide)
    · exact (free piece member).2 found
  have pieces : splitChar '/' (documentKey rel document) =
      rel.map FileName.toStringLossy ++ splitChar '/' document.path := by
    rw [whole, joinChar]
    exact splitChar_intercalate (by simp [splitChar_ne_nil]) fun piece member => (free piece member).1
  refine ⟨?_, ?_, ?_⟩
  · intro piece member
    rw [pieces, List.mem_append] at member
    rcases member with above | below
    · obtain ⟨name, inside, rfl⟩ := List.mem_map.mp above
      exact ⟨toStringLossy_ne_empty name, (pieceName_text (names name inside)).2⟩
    · exact (leads_of_valid valid ending).pieces piece below
  · rw [endsInDot, decide_eq_false_iff_not] at ending ⊢
    rwa [pieces, List.getLast?_append_of_ne_nil _ (splitChar_ne_nil _ _)]
  · rw [pathFromSlashes, pieces, List.filterMap_append, names_pieces names]
    rfl

section Listed
variable {env : PrepareEnv} {tree : Tree} {listed : Except String CommandOutput}
  {previous : MirrorManifest} {mirror after : Tree}

/-- A regular file that one of the listed paths leads to. -/
def NamesFile (tree : Tree) (bytes : List UInt8) (path : Path) : Prop :=
  (∃ source, regularAt tree (gitPath bytes) = some source) ∧ pathFromSlashes (gitPath bytes) = path

def ListedFile (tree : Tree) (listed : Except String CommandOutput) (path : Path) : Prop :=
  ∃ bytes ∈ (listedFields listed).getD [], NamesFile tree bytes path

theorem NamesFile.regular {bytes : List UInt8} {path : Path} (names : NamesFile tree bytes path) :
    endsInDot (gitPath bytes) = false ∧ ∃ source, tree.look path = some (.file source) := by
  obtain ⟨⟨source, regular⟩, rfl⟩ := names
  unfold regularAt at regular
  split at regular
  · cases regular
  · rename_i ending
    split at regular
    · rename_i found
      exact ⟨by simpa using ending, _, Entries.look_file.mpr found⟩
    · cases regular

/-- No regular file lies below another. -/
theorem NamesFile.apart {bytes bytes' : List UInt8} {path path' : Path}
    (names : NamesFile tree bytes path) (names' : NamesFile tree bytes' path')
    (above : path <+: path') : path = path' := by
  obtain ⟨-, source, shown⟩ := names.regular
  obtain ⟨-, source', shown'⟩ := names'.regular
  by_contra different
  rw [Entries.look_below shown (by simp) above (Ne.symm different)] at shown'
  cases shown'

theorem NamesFile.occupied {bytes : List UInt8} {path : Path} (names : NamesFile tree bytes path) :
    path ≠ [] := by
  obtain ⟨-, source, shown⟩ := names.regular
  rintro rfl
  cases shown

theorem reusable_solid {source : FileData} {relative : String} {path : Path}
    (reuse : reusable env previous source relative (mirror.look path) = true) :
    mirror.Solid path := by
  simp only [reusable, Bool.and_eq_true] at reuse
  have matches_ := reuse.2
  unfold destinationMatches at matches_
  split at matches_
  · rename_i shown
    exact ⟨_, shown, by simp⟩
  · cases matches_

theorem mirroredFile_placed {source : FileData} {path : Path} {relative : String}
    (plain : mirror.Plain)
    (success : mirroredFile env source path relative previous mirror = some after) :
    Entries.Placed path mirror after := by
  unfold mirroredFile at success
  split at success
  · rename_i reuse
    cases success
    exact plain.placed_self (reusable_solid reuse)
  · exact plain.placed success

/-- A file is not mirrored below another. -/
theorem mirroredFile_open {source : FileData} {path : Path} {relative : String} (plain : mirror.Plain)
    (success : mirroredFile env source path relative previous mirror = some after) :
    ∀ query, query <+: path → query ≠ path → ¬ mirror.Solid query := by
  unfold mirroredFile at success
  split at success
  · rename_i reuse
    rintro query above different ⟨kind, shown, other⟩
    obtain ⟨found, here, -⟩ := reusable_solid reuse
    rw [Entries.look_below shown other above (Ne.symm different)] at here
    cases here
  · exact ((Entries.place_isSome plain.distinct).mp (Option.isSome_of_mem success)).2

theorem mirroredFile_isSome {source : FileData} {path : Path} {relative : String}
    (plain : mirror.Plain) (occupied : path ≠ [])
    (clear : ∀ query, mirror.Solid query → query <+: path → query = path) :
    (mirroredFile env source path relative previous mirror).isSome = true := by
  unfold mirroredFile
  split
  · rfl
  · rw [Entries.place_isSome plain.distinct]
    exact ⟨occupied, fun query above different solid => different (clear query solid above)⟩

theorem placeListed_valid {bytes : List UInt8}
    (success : placeListed env tree previous bytes mirror = some after) :
    validateRelativePath (gitPath bytes) = .ok () := by
  unfold placeListed at success
  split at success
  · cases success
  · rename_i checked
    exact checked

theorem placeListed_cases {bytes : List UInt8} (plain : mirror.Plain)
    (success : placeListed env tree previous bytes mirror = some after) :
    (∃ path, NamesFile tree bytes path ∧ Entries.Placed path mirror after ∧
        ∀ query, query <+: path → query ≠ path → ¬ mirror.Solid query) ∨
      ((∀ path, ¬ NamesFile tree bytes path) ∧ after = mirror) := by
  unfold placeListed at success
  split at success
  · cases success
  · split at success
    · rename_i source regular
      exact .inl ⟨_, ⟨⟨source, regular⟩, rfl⟩, mirroredFile_placed plain success,
        mirroredFile_open plain success⟩
    · rename_i absent
      cases success
      refine .inr ⟨?_, rfl⟩
      rintro path ⟨⟨source, regular⟩, -⟩
      rw [absent] at regular
      cases regular

/-- Listed files appear, and what was below a file still is. -/
theorem placeFields_effect {fields : List (List UInt8)} (plain : mirror.Plain)
    (success : fields.foldlM (fun mirror bytes => placeListed env tree previous bytes mirror) mirror =
      some after) :
    after.Plain ∧
      (∀ path, after.Solid path → mirror.Solid path ∨ ∃ bytes ∈ fields, NamesFile tree bytes path) ∧
      ∀ path, (mirror.Covered path ∨ ∃ bytes ∈ fields, NamesFile tree bytes path) →
        after.Covered path := by
  induction fields generalizing mirror with
  | nil =>
    cases success
    exact ⟨plain, fun path solid => .inl solid, fun path covered => by simpa using covered⟩
  | cons bytes fields ih =>
    rw [List.foldlM_cons] at success
    obtain ⟨next, first, rest⟩ := Option.bind_eq_some_iff.mp success
    rcases placeListed_cases plain first with ⟨place, names, placed, -⟩ | ⟨unnamed, rfl⟩
    · obtain ⟨kept, appear, covered⟩ := ih placed.plain rest
      refine ⟨kept, fun path solid => ?_, fun path under => covered path ?_⟩
      · rcases appear path solid with before | ⟨other, member, later⟩
        · rcases (placed.solid path).mp before with rfl | ⟨-, old⟩
          · exact .inr ⟨bytes, List.mem_cons_self, names⟩
          · exact .inl old
        · exact .inr ⟨other, List.mem_cons_of_mem _ member, later⟩
      · rcases under with old | ⟨other, member, named⟩
        · exact .inl (placed.covered old)
        · rcases List.mem_cons.mp member with rfl | member
          · obtain rfl : place = path := names.2.symm.trans named.2
            exact .inl ⟨place, List.prefix_refl _, placed.here⟩
          · exact .inr ⟨other, member, named⟩
    · obtain ⟨kept, appear, covered⟩ := ih plain rest
      refine ⟨kept, fun path solid => ?_, fun path under => covered path ?_⟩
      · rcases appear path solid with before | ⟨other, member, later⟩
        · exact .inl before
        · exact .inr ⟨other, List.mem_cons_of_mem _ member, later⟩
      · rcases under with old | ⟨other, member, named⟩
        · exact .inl old
        · rcases List.mem_cons.mp member with rfl | member
          · exact absurd named (unnamed path)
          · exact .inr ⟨other, member, named⟩

/-- A file that stands above a listed one, or is covered itself, makes the copying fail. -/
theorem placeFields_open {fields : List (List UInt8)} (plain : mirror.Plain)
    (success : fields.foldlM (fun mirror bytes => placeListed env tree previous bytes mirror) mirror =
      some after) {query : Path} (covered : mirror.Covered query) {bytes : List UInt8}
    (member : bytes ∈ fields) {file : Path} (names : NamesFile tree bytes file)
    (above : query <+: file) : query = file := by
  induction fields generalizing mirror with
  | nil => cases member
  | cons first fields ih =>
    rw [List.foldlM_cons] at success
    obtain ⟨next, here, rest⟩ := Option.bind_eq_some_iff.mp success
    rcases placeListed_cases plain here with ⟨place, named, placed, open_⟩ | ⟨unnamed, rfl⟩
    · rcases List.mem_cons.mp member with rfl | later
      · obtain rfl : place = file := named.2.symm.trans names.2
        obtain ⟨higher, inside, solid⟩ := covered
        by_contra different
        refine open_ higher (inside.trans above) (fun same => different ?_) solid
        subst same
        exact above.eq_of_length_le inside.length_le
      · exact ih placed.plain rest (placed.covered covered) later
    · rcases List.mem_cons.mp member with rfl | later
      · exact absurd names (unnamed file)
      · exact ih plain rest covered later

/-- Valid paths can be mirrored where no file stands above one that they name. -/
theorem placeFields_isSome {fields : List (List UInt8)}
    (valid : ∀ bytes ∈ fields, validateRelativePath (gitPath bytes) = .ok ()) (plain : mirror.Plain)
    (clear : ∀ query, mirror.Solid query → ∀ bytes ∈ fields, ∀ path, NamesFile tree bytes path →
      query <+: path → query = path) :
    (fields.foldlM (fun mirror bytes => placeListed env tree previous bytes mirror) mirror).isSome =
      true := by
  have enabled : ∀ mirror : Tree, ∀ bytes ∈ fields,
      (mirror.Plain ∧ ∀ query, mirror.Solid query → ∀ bytes ∈ fields, ∀ path,
        NamesFile tree bytes path → query <+: path → query = path) →
      ∃ next, placeListed env tree previous bytes mirror = some next ∧
        (next.Plain ∧ ∀ query, next.Solid query → ∀ bytes ∈ fields, ∀ path,
          NamesFile tree bytes path → query <+: path → query = path) := by
    rintro mirror bytes member ⟨plain, clear⟩
    have success : (placeListed env tree previous bytes mirror).isSome = true := by
      unfold placeListed
      rw [valid bytes member]
      simp only
      split
      · rename_i source regular
        have names : NamesFile tree bytes (pathFromSlashes (gitPath bytes)) := ⟨⟨source, regular⟩, rfl⟩
        exact mirroredFile_isSome plain names.occupied
          fun query solid => clear query solid bytes member _ names
      · rfl
    obtain ⟨next, first⟩ := Option.isSome_iff_exists.mp success
    refine ⟨next, first, ?_⟩
    rcases placeListed_cases plain first with ⟨place, names, placed, -⟩ | ⟨-, rfl⟩
    · refine ⟨placed.plain, fun query solid other inside path named above => ?_⟩
      rcases (placed.solid query).mp solid with rfl | ⟨-, old⟩
      · exact names.apart named above
      · exact clear query old other inside path named above
    · exact ⟨plain, clear⟩
  exact Lib.Trace.foldlM_isSome enabled ⟨plain, clear⟩

theorem placeAll_effect (plain : mirror.Plain)
    (success : placeAll env tree listed previous mirror = some after) :
    after.Plain ∧ (∀ path, after.Solid path → mirror.Solid path ∨ ListedFile tree listed path) ∧
      ∀ path, (mirror.Covered path ∨ ListedFile tree listed path) → after.Covered path := by
  obtain ⟨fields, finished, folded⟩ := Option.bind_eq_some_iff.mp success
  unfold ListedFile
  rw [finished]
  exact placeFields_effect plain folded

theorem placeAll_open (plain : mirror.Plain)
    (success : placeAll env tree listed previous mirror = some after) {query file : Path}
    (solid : mirror.Solid query) (named : ListedFile tree listed file) (above : query <+: file) :
    query = file := by
  obtain ⟨fields, finished, folded⟩ := Option.bind_eq_some_iff.mp success
  obtain ⟨bytes, member, names⟩ := named
  rw [finished, Option.getD_some] at member
  exact placeFields_open plain folded ⟨query, List.prefix_refl _, solid⟩ member names above

theorem placeAll_valid (success : placeAll env tree listed previous mirror = some after) :
    ∀ bytes ∈ (listedFields listed).getD [], validateRelativePath (gitPath bytes) = .ok () := by
  obtain ⟨fields, finished, folded⟩ := Option.bind_eq_some_iff.mp success
  rw [finished, Option.getD_some]
  clear finished success
  induction fields generalizing mirror with
  | nil => simp
  | cons bytes fields ih =>
    rw [List.foldlM_cons] at folded
    obtain ⟨next, first, rest⟩ := Option.bind_eq_some_iff.mp folded
    exact List.forall_mem_cons.mpr ⟨placeListed_valid first, ih rest⟩

/-- What could be mirrored once can be mirrored wherever no file is in the way. -/
theorem placeAll_isSome {fresh : Tree} {other : MirrorManifest}
    (once : (placeAll env tree listed other fresh).isSome = true) (plain : mirror.Plain)
    (clear : ∀ query, mirror.Solid query → ∀ path, ListedFile tree listed path → query <+: path →
      query = path) :
    (placeAll env tree listed previous mirror).isSome = true := by
  obtain ⟨last, success⟩ := Option.isSome_iff_exists.mp once
  have valid := placeAll_valid success
  obtain ⟨fields, finished, -⟩ := Option.bind_eq_some_iff.mp success
  rw [finished, Option.getD_some] at valid
  rw [placeAll, finished]
  refine placeFields_isSome valid plain fun query solid bytes member path names => ?_
  exact clear query solid path ⟨bytes, by simpa [finished] using member, names⟩

end Listed

section Stale
variable {mirror after : Tree}

theorem withoutStale_isSome (removed : String) (mirror : Tree) :
    (withoutStale removed mirror).isSome = true := by
  unfold withoutStale
  split
  · split
    · rename_i leaf
      exact Entries.discard_isSome leaf
    · rfl
  · rfl

/-- A file that the text leads to is gone, and nothing appeared. -/
theorem withoutStale_effect {removed : String} (plain : mirror.Plain)
    (success : withoutStale removed mirror = some after) :
    after.Plain ∧ ∀ path, after.Solid path → mirror.Solid path ∧ ¬ Leads removed path := by
  unfold withoutStale at success
  split at success
  · rename_i target found
    split at success
    · rename_i leaf
      refine ⟨plain.discard leaf success, fun path solid => ?_⟩
      obtain ⟨different, before⟩ := (Entries.solid_discard_leaf plain.distinct leaf success path).mp solid
      refine ⟨before, fun leads => different ?_⟩
      exact Option.some.inj ((leads.staleTarget before).symm.trans found)
    · rename_i open_
      cases success
      refine ⟨plain, fun path solid => ⟨solid, fun leads => open_ ?_⟩⟩
      obtain rfl : path = target := Option.some.inj ((leads.staleTarget solid).symm.trans found)
      exact plain.files path solid
  · rename_i nowhere
    cases success
    refine ⟨plain, fun path solid => ⟨solid, fun leads => ?_⟩⟩
    rw [leads.staleTarget solid] at nowhere
    cases nowhere

theorem removeAll_isSome (stale : List String) (mirror : Tree) :
    (stale.foldlM (fun mirror removed => withoutStale removed mirror) mirror).isSome = true := by
  refine Lib.Trace.foldlM_isSome (P := fun _ => True) (fun s removed _ _ => ?_) trivial
  obtain ⟨next, gone⟩ := Option.isSome_iff_exists.mp (withoutStale_isSome removed s)
  exact ⟨next, gone, trivial⟩

theorem removeAll_effect {stale : List String} (plain : mirror.Plain)
    (success : stale.foldlM (fun mirror removed => withoutStale removed mirror) mirror = some after) :
    after.Plain ∧
      ∀ path, after.Solid path → mirror.Solid path ∧ ∀ removed ∈ stale, ¬ Leads removed path := by
  induction stale generalizing mirror with
  | nil =>
    cases success
    exact ⟨plain, fun path solid => ⟨solid, by simp⟩⟩
  | cons removed stale ih =>
    rw [List.foldlM_cons] at success
    obtain ⟨next, first, rest⟩ := Option.bind_eq_some_iff.mp success
    obtain ⟨between, gone⟩ := withoutStale_effect plain first
    obtain ⟨kept, later⟩ := ih between rest
    refine ⟨kept, fun path solid => ?_⟩
    obtain ⟨here, others⟩ := later path solid
    obtain ⟨before, unled⟩ := gone path here
    exact ⟨before, List.forall_mem_cons.mpr ⟨unled, others⟩⟩

end Stale

section Documents
variable {env : PrepareEnv} {rel : Path} {documents : List OverlayDocument} {mirror after : Tree}

theorem withDocument_placed {document : OverlayDocument} (plain : mirror.Plain)
    (success : withDocument env rel document mirror = some after) :
    endsInDot document.path = false ∧ Entries.Placed (documentTarget rel document) mirror after := by
  unfold withDocument at success
  split at success
  · cases success
  · rename_i ending
    exact ⟨by simpa using ending, plain.placed success⟩

/-- The documents' files appear, and nothing else. -/
theorem writeAll_effect (plain : mirror.Plain)
    (success : documents.foldlM (fun mirror document => withDocument env rel document mirror) mirror =
      some after) :
    after.Plain ∧ (∀ document ∈ documents, endsInDot document.path = false) ∧
      ∀ path, after.Solid path →
        mirror.Solid path ∨ ∃ document ∈ documents, documentTarget rel document = path := by
  induction documents generalizing mirror with
  | nil =>
    cases success
    exact ⟨plain, by simp, fun path solid => .inl solid⟩
  | cons document documents ih =>
    rw [List.foldlM_cons] at success
    obtain ⟨next, first, rest⟩ := Option.bind_eq_some_iff.mp success
    obtain ⟨ending, placed⟩ := withDocument_placed plain first
    obtain ⟨kept, endings, appear⟩ := ih placed.plain rest
    refine ⟨kept, List.forall_mem_cons.mpr ⟨ending, endings⟩, fun path solid => ?_⟩
    rcases appear path solid with before | ⟨other, member, same⟩
    · rcases (placed.solid path).mp before with rfl | ⟨-, old⟩
      · exact .inr ⟨document, List.mem_cons_self, rfl⟩
      · exact .inl old
    · exact .inr ⟨other, List.mem_cons_of_mem _ member, same⟩

/-- Documents that could be written over one mirror can be written over another whose
files, where they stand above a document, are below or at files of the first. -/
theorem writeAll_isSome {fresh : Tree} (plainFresh : fresh.Plain) (plain : mirror.Plain)
    (once : (documents.foldlM (fun mirror document => withDocument env rel document mirror)
      fresh).isSome = true)
    (clear : ∀ query, mirror.Solid query → fresh.Covered query ∨
      ∀ document ∈ documents, query <+: documentTarget rel document →
        query = documentTarget rel document) :
    (documents.foldlM (fun mirror document => withDocument env rel document mirror) mirror).isSome =
      true := by
  induction documents generalizing fresh mirror with
  | nil => rfl
  | cons document documents ih =>
    obtain ⟨last, success⟩ := Option.isSome_iff_exists.mp once
    rw [List.foldlM_cons] at success
    obtain ⟨next, first, rest⟩ := Option.bind_eq_some_iff.mp success
    obtain ⟨ending, placedFresh⟩ := withDocument_placed plainFresh first
    have written : fresh.place (documentTarget rel document)
        ⟨utf8 document.content, env.clock (documentTarget rel document)⟩ = some next := by
      rwa [withDocument, if_neg (by simp [ending])] at first
    obtain ⟨occupied, open_⟩ :=
      (Entries.place_isSome plainFresh.distinct).mp (Option.isSome_of_mem written)
    have here : (withDocument env rel document mirror).isSome = true := by
      rw [withDocument, if_neg (by simp [ending]), Entries.place_isSome plain.distinct]
      refine ⟨occupied, fun query above different solid => ?_⟩
      rcases clear query solid with ⟨higher, inside, covering⟩ | free
      · refine open_ higher (inside.trans above) (fun same => ?_) covering
        subst same
        exact different (above.eq_of_length_le inside.length_le)
      · exact different (free document List.mem_cons_self above)
    obtain ⟨between, placing⟩ := Option.isSome_iff_exists.mp here
    have placed := (withDocument_placed plain placing).2
    rw [List.foldlM_cons, placing]
    refine ih placedFresh.plain placed.plain (Option.isSome_of_mem rest) fun query solid => ?_
    rcases (placed.solid query).mp solid with rfl | ⟨-, old⟩
    · exact .inl ⟨_, List.prefix_refl _, placedFresh.here⟩
    · rcases clear query old with covered | free
      · exact .inl (placedFresh.covered covered)
      · exact .inr fun other member => free other (List.mem_cons_of_mem _ member)

end Documents

section Manifest
variable {env : PrepareEnv} {tree : Tree} {listed : Except String CommandOutput} {rel : Path}
  {overlay : OverlayRequest}

theorem addDocuments_effect (documents : List OverlayDocument) (manifest : MirrorManifest) :
    (addDocuments rel documents manifest).schemaVersion = manifest.schemaVersion ∧
      ∀ text, text ∈ (addDocuments rel documents manifest).paths ↔
        text ∈ manifest.paths ∨ ∃ document ∈ documents, documentKey rel document = text := by
  unfold addDocuments
  induction documents generalizing manifest with
  | nil => simp
  | cons document documents ih =>
    rw [List.foldl_cons]
    obtain ⟨version, members⟩ := ih { manifest with
      paths := manifest.paths.insert (documentKey rel document)
      overlayPaths := manifest.overlayPaths.insert (documentKey rel document) }
    refine ⟨version, fun text => ?_⟩
    rw [members]
    simp only [Std.ExtTreeSet.mem_insert, Std.LawfulEqCmp.compare_eq_iff_eq, List.mem_cons,
      exists_eq_or_imp]
    exact or_assoc.trans or_left_comm

theorem recordFields_effect (fields : List (List UInt8)) (manifest : MirrorManifest) :
    (fields.foldl (recordListed env tree) manifest).schemaVersion = manifest.schemaVersion ∧
      ∀ text, text ∈ (fields.foldl (recordListed env tree) manifest).paths ↔
        text ∈ manifest.paths ∨
          ∃ bytes ∈ fields, (∃ path, NamesFile tree bytes path) ∧ gitPath bytes = text := by
  induction fields generalizing manifest with
  | nil => simp
  | cons bytes fields ih =>
    rw [List.foldl_cons]
    obtain ⟨version, members⟩ := ih (recordListed env tree manifest bytes)
    cases regular : regularAt tree (gitPath bytes) with
    | none =>
      have same : recordListed env tree manifest bytes = manifest := by simp [recordListed, regular]
      rw [same] at version members ⊢
      refine ⟨version, fun text => ?_⟩
      simp [members, NamesFile, regular]
    | some source =>
      have added : recordListed env tree manifest bytes =
          recordFile env source (gitPath bytes) manifest := by simp [recordListed, regular]
      rw [added] at version members ⊢
      refine ⟨version, fun text => ?_⟩
      rw [members]
      simp only [recordFile, Std.ExtTreeSet.mem_insert, Std.LawfulEqCmp.compare_eq_iff_eq,
        List.mem_cons, exists_eq_or_imp, NamesFile, regular, Option.some.injEq, exists_eq', true_and]
      exact or_assoc.trans or_left_comm

theorem currentManifest_schemaVersion :
    (currentManifest env tree rel listed overlay).schemaVersion = 1 :=
  (addDocuments_effect overlay.documents _).1.trans (recordFields_effect _ .new).1

/-- The texts of the listed files and of the documents. -/
theorem mem_currentManifest {text : String} :
    text ∈ (currentManifest env tree rel listed overlay).paths ↔
      (∃ bytes ∈ (listedFields listed).getD [],
          (∃ path, NamesFile tree bytes path) ∧ gitPath bytes = text) ∨
        ∃ document ∈ overlay.documents, documentKey rel document = text := by
  rw [currentManifest, (addDocuments_effect overlay.documents _).2, recordAll,
    (recordFields_effect _ .new).2]
  simp [MirrorManifest.new]

theorem mem_stalePaths {previous current : MirrorManifest} {text : String} :
    text ∈ stalePaths previous current ↔ text ∈ previous.paths ∧ text ∉ current.paths := by
  rw [stalePaths, List.mem_filter, Std.ExtTreeSet.mem_toList, Bool.not_eq_true',
    ← Bool.not_eq_true, ← Std.ExtTreeSet.mem_iff_contains]

end Manifest

theorem validateDocuments_ok {documents : List OverlayDocument} {paths : List String} {total : Nat}
    (valid : validateDocuments paths total documents = .ok ()) :
    ∀ document ∈ documents, validateRelativePath document.path = .ok () := by
  induction documents generalizing paths total with
  | nil => simp
  | cons document documents ih =>
    unfold validateDocuments at valid
    cases checked : validateRelativePath document.path with
    | error e =>
      rw [checked] at valid
      cases valid
    | ok done =>
      rw [checked] at valid
      simp only [bind, Except.bind, throw, throwThe, MonadExceptOf.throw] at valid
      split_ifs at valid
      exact List.forall_mem_cons.mpr ⟨checked, ih valid⟩

theorem validate_documents {overlay : OverlayRequest} (valid : validate overlay = .ok ()) :
    ∀ document ∈ overlay.documents, validateRelativePath document.path = .ok () := by
  unfold validate at valid
  split_ifs at valid
  exact validateDocuments_ok valid

end Walaru.Overlay
