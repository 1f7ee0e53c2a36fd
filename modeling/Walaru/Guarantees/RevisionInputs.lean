import Mathlib.Data.List.TakeWhile
import Walaru.Guarantees.RevisionEncoding
import Walaru.Lib.LastEntries
import Walaru.Source.Client.Live
import Walaru.Source.Daemon.Impact
import Walaru.Source.Daemon.VerifierEffects

/-!
# Which files move the revision

The snapshot's path rules beside the two other rules of the repository that say
which paths matter: the daemon's classification of build and source inputs, and
the editor client's list of ignored directories.
-/
namespace Walaru
open Lib.Text Lib.FileTree Lib.LastEntries

/-- Writing the file at `path` of `w` again, with this content, gives `v`. -/
def Rewrites (w : Workspace) (path : Path) (data : FileData) (v : Workspace) : Prop :=
  w.tree.alter (fun _ => some (.file data)) path = some v.tree

/-- The file at `path` takes part in the snapshot of `w`, the snapshot of `v` has
another revision, a request that captured `v` is not answered from the cache with an
outcome of that of `w`, and impact selection against the manifest of `w` finds the
path among those that differ. -/
structure MovesRevision (hash : RevisionHash) (root : Path) (w v : Workspace) (path : Path) :
    Prop where
  captured : root ++ path ∈ (capturedFiles root w.tree).map Prod.fst
  revision : (capture hash root v.tree).snapshot.revision ≠ (capture hash root w.tree).snapshot.revision
  cache : ∀ (env : VerifierEnv) (request : VerificationRequest) (replay : Option Recording)
    (s after : EvidenceStore) (outcome : VerificationOutcome),
    env.capture request.executionRoot .before = .ok (capture hash root v.tree).snapshot →
    verifyInternal env request replay s = .ok outcome after → outcome.cached = true →
      outcome.revision ≠ (capture hash root w.tree).snapshot.revision
  baseline : relativeString [] path ∈ differingPaths
    (manifestOf (capture hash root w.tree).snapshot) (capture hash root v.tree).snapshot

local instance lawful_optionString : LawfulBEq (Option String) := inferInstance

/-- The path starts in `src`, or ends in a build file name, or in a name with the
extension of a source or script. -/
def readByRevision (path : Path) : Bool :=
  path.head? = some .src ||
    (path.getLast?.any fun name => name.toStr.any fun text => text ∈ includedFileNames) ||
    (path.getLast?.any fun name => name.extension.any fun extension =>
      unitsToStr extension ∈ [some "java", some "kt", some "kts", some "gradle"])

theorem includedFile_eq (path : Path) : includedFile [] path = readByRevision path := by
  simp only [includedFile, readByRevision, stripRoot_nil]
  have first : (path.head?.any fun part => part = .ofText "src") =
      decide (path.head? = some .src) := by
    cases path.head? <;> simp [FileName.src]
  rw [first]
  cases path.getLast? with
  | none => simp [includedFileNames]
  | some name =>
    have blank : "" ∉ includedFileNames := by decide
    cases shown : name.toStr with
    | none => cases extension : name.extension <;> simp [shown, extension, blank]
    | some text => cases extension : name.extension <;> simp [shown, extension, Bool.or_assoc]

theorem includedContents_eq (tree : Tree) (path : Path) {data : FileData}
    (regular : tree.get path = some (.file data))
    (outside : ∀ name ∈ path.dropLast, ignoredDirectory name.toStringLossy = false) :
    includedContents tree path = if readByRevision path then some data.contents else none := by
  have reached : (path.dropLast.all fun name => !ignoredDirectory name.toStringLossy) = true := by
    rw [List.all_eq_true]
    intro name member
    simp [outside name member]
  simp [includedContents, reached, includedFile_eq, regular]

/-- The files the walk meets below `root`, in its order. -/
def walkedFiles (root : Path) (tree : Tree) : List (Path × FileData) :=
  visitedFiles ((Node.dir tree).visits FileName.before
    (fun name => !ignoredDirectory name.toStringLossy) root)

/-- Later than the file at `path` the walk meets one that the path rules read and that
has the same relative text. -/
def Shadowed (root : Path) (w : Workspace) (path : Path) : Prop :=
  ∃ other, readByRevision other = true ∧ relativeString [] other = relativeString [] path ∧
    [root ++ path, root ++ other].Sublist ((walkedFiles root w.tree).map Prod.fst)

section Capture

variable {w v : Workspace} {path : Path} {data payload : FileData} (root : Path)

theorem mem_capturedFiles_iff (regular : w.tree.get path = some (.file data))
    (outside : ∀ name ∈ path.dropLast, ignoredDirectory name.toStringLossy = false) :
    (root ++ path, data) ∈ capturedFiles root w.tree ↔ readByRevision path = true := by
  have contents := includedContents_eq w.tree path regular outside
  rw [mem_capturedFiles, mem_collectFiles w.distinct]
  constructor
  · rintro ⟨below, here, -, included⟩
    rw [List.append_cancel_left_eq] at here
    subst here
    rw [contents] at included
    by_contra unread
    simp [unread] at included
  · intro read
    exact ⟨path, rfl, regular, by simp [contents, read]⟩

theorem captured_iff (regular : w.tree.get path = some (.file data))
    (outside : ∀ name ∈ path.dropLast, ignoredDirectory name.toStringLossy = false) :
    root ++ path ∈ (capturedFiles root w.tree).map Prod.fst ↔ readByRevision path = true := by
  rw [← mem_capturedFiles_iff root regular outside, List.mem_map]
  constructor
  · rintro ⟨⟨found, held⟩, member, rfl⟩
    obtain ⟨below, here, got, -⟩ := (mem_collectFiles w.distinct).mp (mem_capturedFiles.mp member)
    rw [List.append_cancel_left_eq] at here
    subst here
    rw [regular] at got
    cases got
    exact member
  · intro member
    exact ⟨_, member, rfl⟩

/-- What a captured file holds after the file at `target` has been written again. -/
def rewrittenFile (target : Path) (payload : FileData) (file : Path × FileData) : Path × FileData :=
  (file.1, if file.1 = target then payload else file.2)

@[simp] theorem rewrittenFile_fst (target : Path) (payload : FileData) (file : Path × FileData) :
    (rewrittenFile target payload file).1 = file.1 := rfl

theorem visitedFiles_rewritten (target : Path) (payload : FileData)
    (visits : List (Visit FileName FileData)) :
    visitedFiles (visits.map (Visit.rewritten target payload)) =
      (visitedFiles visits).map (rewrittenFile target payload) := by
  induction visits with
  | nil => rfl
  | cons visit rest ih =>
    simp only [visitedFiles] at ih ⊢
    cases visit with
    | directory path => simpa [Visit.rewritten] using ih
    | file path data => simpa [Visit.rewritten, rewrittenFile] using ih

theorem collectFiles_rewritten (regular : w.tree.get path = some (.file data))
    (rewrites : Rewrites w path payload v) :
    collectFiles root v.tree =
      (collectFiles root w.tree).map (rewrittenFile (root ++ path) payload) := by
  rw [collectFiles, Node.visits_alter w.distinct regular rewrites, visitedFiles_rewritten,
    List.filter_map]
  rfl

theorem capturedFiles_rewritten (regular : w.tree.get path = some (.file data))
    (rewrites : Rewrites w path payload v) :
    capturedFiles root v.tree =
      (capturedFiles root w.tree).map (rewrittenFile (root ++ path) payload) := by
  have sorted := List.map_insertionSort
    (r := fun a b : Path × FileData => relativeString root a.1 ≤ relativeString root b.1)
    (s := fun a b : Path × FileData => relativeString root a.1 ≤ relativeString root b.1)
    (rewrittenFile (root ++ path) payload) (collectFiles root w.tree) fun _ _ _ _ => Iff.rfl
  rw [capturedFiles, collectFiles_rewritten root regular rewrites, ← sorted, capturedFiles]

/-- The collected files of one relative text, in the order of the walk. -/
def filesNamed (root : Path) (tree : Tree) (text : String) : List (Path × FileData) :=
  (collectFiles root tree).filter fun file => relativeString root file.1 = text

theorem filesNamed_rewritten (regular : w.tree.get path = some (.file data))
    (rewrites : Rewrites w path payload v) (text : String) :
    filesNamed root v.tree text =
      (filesNamed root w.tree text).map (rewrittenFile (root ++ path) payload) := by
  have kept : ((fun file : Path × FileData => decide (relativeString root file.1 = text)) ∘
      rewrittenFile (root ++ path) payload) = fun file => decide (relativeString root file.1 = text) :=
    funext fun file => by rw [Function.comp_apply, rewrittenFile_fst]
  rw [filesNamed, filesNamed, collectFiles_rewritten root regular rewrites, List.filter_map, kept]

/-- The content digest a snapshot has under a text is that of the last file of the text. -/
theorem fileDigests_get? (hash : RevisionHash) (root : Path) (tree : Tree) (text : String) :
    (capture hash root tree).snapshot.fileDigests.get? text =
      (filesNamed root tree text).getLast?.map
        fun file => hexEncode (hash.sha256 file.2.contents) := by
  have order := filter_insertionSort (fun file : Path × FileData => relativeString root file.1) text
    (collectFiles root tree)
  simp only [capture, capturedFiles, filesNamed, filled_get?, order]
  simp

/-- After a file has been written again the digest under its text differs exactly when it
is the last file of that text. -/
theorem digest_changes_iff (hash : RevisionHash) (regular : w.tree.get path = some (.file data))
    (rewrites : Rewrites w path payload v)
    (told : hash.sha256 payload.contents ≠ hash.sha256 data.contents) :
    relativeString [] path ∈ differingPaths (manifestOf (capture hash root w.tree).snapshot)
        (capture hash root v.tree).snapshot ↔
      (filesNamed root w.tree (relativeString [] path)).getLast? = some (root ++ path, data) := by
  rw [mem_differingPaths, manifestOf, fileDigests_get?, fileDigests_get?,
    filesNamed_rewritten root regular rewrites, List.getLast?_map]
  cases last : (filesNamed root w.tree (relativeString [] path)).getLast? with
  | none => simp
  | some file =>
    obtain ⟨found, held⟩ := file
    by_cases here : found = root ++ path
    · subst here
      have member := List.mem_of_mem_filter (List.mem_of_getLast? last)
      obtain ⟨below, same, got, -⟩ := (mem_collectFiles w.distinct).mp member
      rw [List.append_cancel_left_eq] at same
      subst same
      rw [regular] at got
      cases got
      simp only [rewrittenFile, Option.map_some, if_true, ne_eq, Option.some.injEq, iff_true]
      exact fun same => told (hexEncode_injective same).symm
    · simp [rewrittenFile, here]

theorem includedFile_root {other : Path} (read : readByRevision other = true) :
    includedFile root (root ++ other) = true := by
  have nonempty : other ≠ [] := by
    rintro rfl
    simp [readByRevision] at read
  rw [includedFile_append root nonempty, includedFile_eq, read]

theorem readByRevision_of_collected {other : Path} {held : FileData}
    (member : (root ++ other, held) ∈ collectFiles root w.tree) : readByRevision other = true := by
  obtain ⟨below, here, -, included⟩ := (mem_collectFiles w.distinct).mp member
  rw [List.append_cancel_left_eq] at here
  subst here
  unfold includedContents at included
  split at included
  · rename_i rules
    rw [Bool.and_eq_true] at rules
    rw [← includedFile_eq, rules.2]
  · cases included

/-- A collected file is the last of its text unless a later one has the same text. -/
theorem last_iff_unshadowed (collected : (root ++ path, data) ∈ collectFiles root w.tree) :
    (filesNamed root w.tree (relativeString [] path)).getLast? = some (root ++ path, data) ↔
      ¬ Shadowed root w path := by
  have named : (root ++ path, data) ∈ filesNamed root w.tree (relativeString [] path) :=
    List.mem_filter.mpr ⟨collected, by simp [relativeString_append]⟩
  have nodup : (filesNamed root w.tree (relativeString [] path)).Nodup :=
    (List.Nodup.of_map Prod.fst (collectFiles_nodup w.distinct root)).filter _
  rw [getLast?_iff nodup named, not_iff_not]
  constructor
  · intro ⟨⟨found, held⟩, pair⟩
    have listed := pair.subset (List.mem_cons_of_mem _ (List.mem_singleton_self _))
    obtain ⟨listed, text⟩ := List.mem_filter.mp listed
    obtain ⟨other, rfl, -⟩ := (mem_collectFiles w.distinct).mp listed
    rw [decide_eq_true_eq, relativeString_append] at text
    exact ⟨other, readByRevision_of_collected root listed, text,
      (pair.trans (List.filter_sublist.trans List.filter_sublist)).map Prod.fst⟩
  · intro ⟨other, read, text, later⟩
    obtain ⟨files, walked, shape⟩ := List.sublist_map_iff.mp later
    obtain ⟨⟨first, held⟩, ⟨second, held'⟩, rfl⟩ : ∃ a b, files = [a, b] := by
      have two : files.length = 2 := by simpa using (congrArg List.length shape).symm
      exact List.length_eq_two.mp two
    simp only [List.map_cons, List.map_nil, List.cons.injEq, and_true] at shape
    obtain ⟨rfl, rfl⟩ := shape
    have own := readByRevision_of_collected root collected
    have kept := (walked.filter fun file => includedFile root file.1).filter
      fun file => decide (relativeString root file.1 = relativeString [] path)
    simp only [List.filter_cons, includedFile_root root own, includedFile_root root read,
      relativeString_append, text, decide_true, if_true, List.filter_nil] at kept
    -- of the two entries the first is the file itself
    have there := List.mem_of_mem_filter (kept.subset List.mem_cons_self)
    obtain ⟨below, here, got, -⟩ := (mem_collectFiles w.distinct).mp there
    obtain ⟨below', here', got', -⟩ := (mem_collectFiles w.distinct).mp collected
    rw [List.append_cancel_left_eq] at here here'
    subst here here'
    rw [got'] at got
    cases got
    exact ⟨_, kept⟩

end Capture

/-- An answer from the cache is one of the revision that the request captured. -/
theorem cached_revision {env : VerifierEnv} {request : VerificationRequest}
    {replay : Option Recording} {s after : EvidenceStore} {outcome : VerificationOutcome}
    {before_ : RevisionSnapshot} (captured : env.capture request.executionRoot .before = .ok before_)
    (returned : verifyInternal env request replay s = .ok outcome after)
    (cached : outcome.cached = true) : outcome.revision = before_.revision := by
  have result := verifyInternal_result env request replay s
  rw [returned] at result
  cases result with
  | served idle hit =>
    obtain rfl := Except.ok.inj (captured.symm.trans hit.captured)
    have guard := hit.reusable
    simp only [reusable, Bool.and_eq_true, decide_eq_true_eq] at guard
    exact guard.1.1.2
  | finished admitted observed => cases cached

/-- Let a regular file outside the ignored directories that is a source or build input
of the daemon be written again with other content, and let the hash tell the two
contents and the two streams apart. That moves the revision, the cache and the
baseline exactly when the path rules of the snapshot read the path and the walk meets
no later file of the same text. -/
theorem input_moves_revision_iff (hash : RevisionHash) (root : Path) (w v : Workspace) {path : Path}
    {data payload : FileData} (regular : w.tree.get path = some (.file data))
    (rewrites : Rewrites w path payload v) (changed : payload.contents ≠ data.contents)
    (outside : ∀ name ∈ path.dropLast, ignoredDirectory name.toStringLossy = false)
    (_input : sourceInput (relativeString [] path) = true ∨
      buildInput (relativeString [] path) = true)
    (contents : hash.sha256 payload.contents = hash.sha256 data.contents →
      payload.contents = data.contents)
    (streams : hash.sha256 (revisionStream root v.tree) = hash.sha256 (revisionStream root w.tree) →
      revisionStream root v.tree = revisionStream root w.tree) :
    MovesRevision hash root w v path ↔ readByRevision path = true ∧ ¬ Shadowed root w path := by
  have digests := digest_changes_iff root hash regular rewrites (fun same => changed (contents same))
  constructor
  · intro moves
    have read := (captured_iff root regular outside).mp moves.captured
    have member := mem_capturedFiles.mp ((mem_capturedFiles_iff root regular outside).mpr read)
    exact ⟨read, (last_iff_unshadowed root member).mp (digests.mp moves.baseline)⟩
  · intro ⟨read, alone⟩
    have member := (mem_capturedFiles_iff root regular outside).mpr read
    have moved : (capture hash root v.tree).snapshot.revision ≠
        (capture hash root w.tree).snapshot.revision := by
      intro same
      have streamsEqual := streams (hexEncode_injective (by simpa [capture] using same))
      have fields := (Workspace.revisionStream_eq_iff v w root root).mp streamsEqual
      rw [framedFields, framedFields, capturedFiles_rewritten root regular rewrites, List.map_map,
        List.map_inj_left] at fields
      have equal := fields _ member
      simp only [Function.comp_apply, rewrittenFile, if_true, Prod.mk.injEq] at equal
      exact changed equal.2
    refine ⟨(captured_iff root regular outside).mpr read, moved, ?_, ?_⟩
    · intro env request replay s after outcome captured returned cached
      rw [cached_revision captured returned cached]
      exact moved
    · exact digests.mpr ((last_iff_unshadowed root (mem_capturedFiles.mp member)).mpr alone)

def resourcePath : Path :=
  [.ofText "app", .src, .main, .ofText "resources", .ofText "app.properties"]

/-- A module with one resource. -/
def moduleWithResource (contents : List UInt8) (fits : contents.length ≤ isizeMax := by decide) :
    Workspace where
  tree := .cons (.ofText "app") (.dir (.cons .src (.dir (.cons .main
    (.dir (.cons (.ofText "resources") (.dir (.cons (.ofText "app.properties")
      (.file ⟨contents, 0⟩) .nil)) .nil)) .nil)) .nil)) .nil
  distinct := rfl
  addressable := by
    intro file member
    have text : (utf8 (relativeString [] resourcePath)).length ≤ isizeMax := by decide +kernel
    have only : file = (resourcePath, ⟨contents, 0⟩) := by
      simpa [resourcePath, visitedFiles, Node.visits, Entries.visits, entryVisits] using member
    subst only
    exact ⟨text, fits⟩

/-- The resource of a module is a source input outside every ignored directory, and
whatever the hash, writing it again leaves the snapshot as it was. -/
theorem module_resource_unread :
    sourceInput (relativeString [] resourcePath) = true ∧
    (∀ name ∈ resourcePath.dropLast, ignoredDirectory name.toStringLossy = false) ∧
    (moduleWithResource [1]).tree.get resourcePath = some (.file ⟨[1], 0⟩) ∧
    Rewrites (moduleWithResource [1]) resourcePath ⟨[2], 0⟩ (moduleWithResource [2]) ∧
    resourcePath ∉ (capturedFiles [] (moduleWithResource [1]).tree).map Prod.fst ∧
    ∀ hash, capture hash [] (moduleWithResource [1]).tree =
      capture hash [] (moduleWithResource [2]).tree := by
  have empty : ∀ contents fits, capturedFiles [] (moduleWithResource contents fits).tree = [] := by
    intro contents fits
    have walked : walkedFiles [] (moduleWithResource contents fits).tree =
        [(resourcePath, ⟨contents, 0⟩)] := rfl
    have unread : includedFile [] resourcePath = false := by decide +kernel
    have collected : collectFiles [] (moduleWithResource contents fits).tree = [] := by
      rw [collectFiles, ← walkedFiles, walked, List.filter_cons_of_neg (by simp [unread])]
      rfl
    rw [capturedFiles, collected]
    rfl
  refine ⟨by decide +kernel, by decide +kernel, rfl, rfl, by simp [empty], ?_⟩
  intro hash
  simp only [capture, revisionStream, empty]

theorem directoryA_valid : "A".toList ≠ [] ∧ '/' ∉ "A".toList := by decide

def directoryA : FileName := .ofText "A" directoryA_valid

def nestedPath : Path := [.src, .main, .java, directoryA, .sourceB]

def flatPath : Path := [.src, .main, .java, .ofText "A\\B.java"]

/-- Two sources with one relative text: the walk meets `A/B.java` before `A\B.java`. -/
def sharedText (nested flat : UInt8) : Workspace where
  tree := .cons .src (.dir (.cons .main (.dir (.cons .java (.dir
    (.cons directoryA (.dir (.cons .sourceB (.file ⟨[nested], 0⟩) .nil))
      (.cons (.ofText "A\\B.java") (.file ⟨[flat], 0⟩) .nil))) .nil)) .nil)) .nil
  distinct := rfl
  addressable := by
    intro file member
    have nestedText : (utf8 (relativeString [] nestedPath)).length ≤ isizeMax := by decide +kernel
    have flatText : (utf8 (relativeString [] flatPath)).length ≤ isizeMax := by decide +kernel
    have either : file = (nestedPath, ⟨[nested], 0⟩) ∨ file = (flatPath, ⟨[flat], 0⟩) := by
      have listed : file ∈ [(nestedPath, (⟨[nested], 0⟩ : FileData)), (flatPath, ⟨[flat], 0⟩)] := member
      simpa using listed
    rcases either with rfl | rfl
    · exact ⟨nestedText, show 1 ≤ isizeMax by decide⟩
    · exact ⟨flatText, show 1 ≤ isizeMax by decide⟩

theorem sharedText_walked (nested flat : UInt8) :
    (walkedFiles [] (sharedText nested flat).tree).map Prod.fst = [nestedPath, flatPath] := rfl

def digestHash : RevisionHash :=
  ⟨Lib.Sha256.sha256, fun _ bytes => hexEncode (Lib.Sha256.sha256 bytes)⟩

/-- The file that the walk meets last moves the revision and the baseline; the other,
whose digest it replaces under their text, does not move the baseline. -/
theorem input_moves_revision_iff_demo :
    MovesRevision digestHash [] (sharedText 1 1) (sharedText 1 2) flatPath ∧
    ¬ MovesRevision digestHash [] (sharedText 1 1) (sharedText 2 1) nestedPath := by
  have inputs : ∀ path ∈ [nestedPath, flatPath], sourceInput (relativeString [] path) = true ∨
      buildInput (relativeString [] path) = true := by decide +kernel
  constructor
  · refine (@input_moves_revision_iff digestHash [] (sharedText 1 1) (sharedText 1 2) flatPath
      ⟨[1], 0⟩ ⟨[2], 0⟩ rfl rfl (by decide) (by decide +kernel) (inputs _ (by simp))
      (by decide +kernel) (by decide +kernel)).mpr ⟨by decide +kernel, ?_⟩
    rintro ⟨other, -, -, later⟩
    rw [sharedText_walked] at later
    have apart : [nestedPath, flatPath].Nodup := by decide
    exact (getLast?_iff apart (by simp)).mp rfl ⟨_, later⟩
  · rw [@input_moves_revision_iff digestHash [] (sharedText 1 1) (sharedText 2 1) nestedPath
      ⟨[1], 0⟩ ⟨[2], 0⟩ rfl rfl (by decide) (by decide +kernel) (inputs _ (by simp))
      (by decide +kernel) (by decide +kernel)]
    refine fun moves => moves.2 ⟨flatPath, by decide +kernel, by decide +kernel, ?_⟩
    rw [sharedText_walked]
    exact List.Sublist.refl _

/-- A name with the extension of a Java or Kotlin file. -/
def sourceName (name : FileName) : Bool :=
  name.extension.any fun extension =>
    unitsToStr extension ∈ [some "java", some "kt", some "kts"]

/-- The directories of a path. -/
def directories (path : Path) : List String := path.dropLast.map FileName.toStringLossy

def ToolDirectory (names : List String) : Prop := ∃ name ∈ names, name ∈ Client.generatedPathSegments

def OutputDirectory (names : List String) : Prop := ∃ name ∈ names, name ∈ ["build", "out", "target"]

/-- Directories before the first `src`. -/
def beforeSource (names : List String) : List String := names.takeWhile fun name => name ≠ "src"

/-- Directories from the first `src` on. -/
def fromSource (names : List String) : List String := names.dropWhile fun name => name ≠ "src"

theorem units_of_lossy {name : FileName} {text : String} (shown : name.toStringLossy = text)
    (wellFormed : '\uFFFD' ∉ text.toList) : name.units = text.toList.map .scalar := by
  subst shown
  simp only [FileName.toStringLossy, String.toList_ofList] at wellFormed ⊢
  generalize name.units = units at wellFormed ⊢
  induction units with
  | nil => rfl
  | cons unit rest ih =>
    rw [List.map_cons, List.mem_cons, not_or] at wellFormed
    rw [List.map_cons, List.map_cons, ← ih wellFormed.2]
    cases unit with
    | scalar c => rfl
    | illFormed bytes => exact absurd rfl wellFormed.1

/-- A source file is not named like a directory that either rule knows. -/
theorem sourceName_ne {name : FileName} (source : sourceName name = true) {text : String}
    (known : text ∈ "src" :: "build" :: "dist" :: "out" :: "target" :: Client.generatedPathSegments) :
    name.toStringLossy ≠ text := by
  intro shown
  have table : ∀ text ∈ "src" :: "build" :: "dist" :: "out" :: "target" ::
      Client.generatedPathSegments, '\uFFFD' ∉ text.toList ∧
      ((text.toList.map NameUnit.scalar).reverse.dropWhile
        fun u => u != .scalar '.').length ≤ 1 := by
    decide
  obtain ⟨wellFormed, short⟩ := table text known
  simp [sourceName, FileName.extension, units_of_lossy shown wellFormed, short] at source

theorem mem_beforeSource_iff {names : List String} {name : String} :
    name ∈ beforeSource names ↔
      ∃ index < names.findIdx (fun n => n = "src"), names[index]? = some name := by
  have cut : beforeSource names = names.take (names.findIdx fun n => n = "src") := by
    rw [beforeSource, List.takeWhile_eq_take_findIdx_not]
    simp
  rw [cut, List.mem_take_iff_getElem]
  constructor
  · intro ⟨index, bound, here⟩
    exact ⟨index, by omega, by rw [List.getElem?_eq_getElem (by omega), here]⟩
  · intro ⟨index, bound, here⟩
    obtain ⟨inside, here⟩ := List.getElem?_eq_some_iff.mp here
    exact ⟨index, by omega, here⟩

/-- With a `src` segment the client ignores tool directories anywhere and output
directories before the first `src`. -/
theorem ignoredWorkspacePath_iff {relative : String}
    (source : "src" ∈ splitChar '/' relative) :
    Client.ignoredWorkspacePath relative = true ↔
      ToolDirectory (splitChar '/' relative) ∨
        ∃ name ∈ beforeSource (splitChar '/' relative), name ∈ Client.generatedOutputSegments := by
  unfold Client.ignoredWorkspacePath
  generalize splitChar '/' relative = segments at source
  have found : segments.findIdx? (fun segment => segment = "src") =
      some (segments.findIdx fun segment => segment = "src") := by
    refine List.findIdx?_eq_some_iff_findIdx_eq.mpr ⟨?_, rfl⟩
    exact List.findIdx_lt_length_of_exists ⟨"src", source, by simp⟩
  simp only [found, Option.all_some]
  split
  · rename_i tool
    simp only [List.any_eq_true, decide_eq_true_eq] at tool
    simp only [true_iff]
    exact .inl tool
  · rename_i clean
    simp only [List.any_eq_true, decide_eq_true_eq] at clean
    simp only [List.any_eq_true, Prod.exists, List.mem_zipIdx_iff_getElem?, Bool.and_eq_true,
      decide_eq_true_eq, mem_beforeSource_iff]
    constructor
    · intro ⟨name, index, here, output, bound⟩
      exact .inr ⟨name, ⟨index, bound, here⟩, output⟩
    · intro either
      rcases either with tool | ⟨name, ⟨index, bound, here⟩, output⟩
      · exact absurd tool clean
      · exact ⟨name, index, here, output, bound⟩

/-- For a source file below a `src` directory the client looks at the directories only. -/
theorem clientIgnores_iff {path : Path} {name : FileName} (last : path.getLast? = some name)
    (source : sourceName name = true) (below : "src" ∈ directories path) :
    Client.ignoredWorkspacePath (displayPath path) = true ↔
      ToolDirectory (directories path) ∨
        ∃ directory ∈ beforeSource (directories path),
          directory ∈ Client.generatedOutputSegments := by
  obtain ⟨dirs, rfl⟩ : ∃ dirs, path = dirs ++ [name] := List.getLast?_eq_some_iff.mp last
  have segments : splitChar '/' (displayPath (dirs ++ [name])) =
      directories (dirs ++ [name]) ++ [name.toStringLossy] := by
    rw [splitChar_displayPath (by simp)]
    simp [directories]
  have tools : ToolDirectory (directories (dirs ++ [name]) ++ [name.toStringLossy]) ↔
      ToolDirectory (directories (dirs ++ [name])) := by
    constructor
    · intro ⟨segment, member, tool⟩
      rcases List.mem_append.mp member with inside | final
      · exact ⟨segment, inside, tool⟩
      · rw [List.mem_singleton.mp final] at tool
        exact absurd rfl (sourceName_ne source (by simp [tool]))
    · intro ⟨segment, member, tool⟩
      exact ⟨segment, List.mem_append_left _ member, tool⟩
  have cut : beforeSource (directories (dirs ++ [name]) ++ [name.toStringLossy]) =
      beforeSource (directories (dirs ++ [name])) := by
    have stops : ((directories (dirs ++ [name])).takeWhile fun n => n ≠ "src").length ≠
        (directories (dirs ++ [name])).length := by
      intro whole
      have everything := (List.takeWhile_prefix (l := directories (dirs ++ [name]))
        fun n => decide (n ≠ "src")).eq_of_length whole
      have kept : "src" ∈ (directories (dirs ++ [name])).takeWhile fun n => n ≠ "src" := by
        rw [everything]
        exact below
      simpa using List.mem_takeWhile_imp kept
    rw [beforeSource, List.takeWhile_append, if_neg stops, beforeSource]
  rw [ignoredWorkspacePath_iff (by rw [segments]; exact List.mem_append_left _ below), segments,
    tools, cut]

/-- The snapshot reads a source file unless a directory above it is ignored. -/
theorem captured_source_iff {w : Workspace} (root : Path) {path : Path} {name : FileName}
    {data : FileData} (regular : w.tree.get path = some (.file data))
    (last : path.getLast? = some name) (source : sourceName name = true) :
    root ++ path ∈ (capturedFiles root w.tree).map Prod.fst ↔
      ¬ (ToolDirectory (directories path) ∨ OutputDirectory (directories path)) := by
  have read : includedFile [] path = true := by
    rw [includedFile_eq, readByRevision, last]
    obtain ⟨extension, shown, kind⟩ := (Option.any_eq_true _ _).mp source
    simp only [decide_eq_true_eq, List.mem_cons, List.not_mem_nil, or_false] at kind
    simp only [Option.any_some, shown, List.mem_cons, List.not_mem_nil, or_false,
      Bool.or_eq_true, decide_eq_true_eq]
    tauto
  have ignored : (path.dropLast.all fun name => !ignoredDirectory name.toStringLossy) = true ↔
      ¬ (ToolDirectory (directories path) ∨ OutputDirectory (directories path)) := by
    have split_ : ∀ text, ignoredDirectory text = true ↔
        text ∈ Client.generatedPathSegments ∨ text ∈ ["build", "out", "target"] := by
      intro text
      simp only [ignoredDirectory, Client.generatedPathSegments, decide_eq_true_eq, List.mem_cons,
        List.not_mem_nil, or_false]
      tauto
    simp only [List.all_eq_true, Bool.not_eq_true', ← Bool.not_eq_true, split_, ToolDirectory,
      OutputDirectory, directories, List.mem_map, exists_exists_and_eq_and]
    push Not
    constructor
    · intro clean
      exact ⟨fun name member => (clean name member).1, fun name member => (clean name member).2⟩
    · intro ⟨tools, outputs⟩ name member
      exact ⟨tools name member, outputs name member⟩
  have included : includedContents w.tree path = some data.contents ↔
      (path.dropLast.all fun name => !ignoredDirectory name.toStringLossy) = true := by
    simp [includedContents, read, regular]
  rw [← ignored, ← included]
  constructor
  · intro member
    obtain ⟨⟨found, held⟩, member, here⟩ := List.mem_map.mp member
    obtain ⟨below, rfl, got, shown⟩ := (mem_collectFiles w.distinct).mp (mem_capturedFiles.mp member)
    have same : below = path := by simpa using here
    subst same
    rw [regular] at got
    cases got
    exact shown
  · intro shown
    refine List.mem_map.mpr ⟨(root ++ path, data), mem_capturedFiles.mpr ?_, rfl⟩
    exact (mem_collectFiles w.distinct).mpr ⟨path, rfl, regular, shown⟩

/-- For a source file below a `src` directory, the snapshot reads it exactly when the
client does not ignore it if and only if: a directory above it is a tool's, or one
before the first `src` is an output directory for both, or `dist` stands before the
first `src` exactly when an output directory stands after it. -/
theorem generated_rules_agree_iff (root : Path) (w : Workspace) {path : Path} {name : FileName}
    {data : FileData} (regular : w.tree.get path = some (.file data))
    (last : path.getLast? = some name) (source : sourceName name = true)
    (below : "src" ∈ directories path) :
    (root ++ path ∈ (capturedFiles root w.tree).map Prod.fst ↔
      Client.ignoredWorkspacePath (displayPath path) = false) ↔
    ToolDirectory (directories path) ∨ OutputDirectory (beforeSource (directories path)) ∨
      ("dist" ∈ beforeSource (directories path) ↔ OutputDirectory (fromSource (directories path))) := by
  rw [captured_source_iff root regular last source, ← Bool.not_eq_true,
    clientIgnores_iff last source below]
  have outputs : OutputDirectory (directories path) ↔
      OutputDirectory (beforeSource (directories path)) ∨
        OutputDirectory (fromSource (directories path)) := by
    have whole : directories path =
        beforeSource (directories path) ++ fromSource (directories path) :=
      List.takeWhile_append_dropWhile.symm
    constructor
    · intro ⟨name, member, output⟩
      rw [whole] at member
      rcases List.mem_append.mp member with before_ | after_
      · exact .inl ⟨name, before_, output⟩
      · exact .inr ⟨name, after_, output⟩
    · intro either
      rw [whole]
      rcases either with ⟨name, member, output⟩ | ⟨name, member, output⟩
      · exact ⟨name, List.mem_append_left _ member, output⟩
      · exact ⟨name, List.mem_append_right _ member, output⟩
  have client : (∃ name ∈ beforeSource (directories path), name ∈ Client.generatedOutputSegments) ↔
      OutputDirectory (beforeSource (directories path)) ∨
        "dist" ∈ beforeSource (directories path) := by
    constructor
    · intro ⟨name, member, output⟩
      by_cases dist : name = "dist"
      · exact .inr (dist ▸ member)
      · refine .inl ⟨name, member, ?_⟩
        simpa [Client.generatedOutputSegments, dist] using output
    · intro either
      rcases either with ⟨name, member, output⟩ | dist
      · refine ⟨name, member, ?_⟩
        simp only [Client.generatedOutputSegments, List.mem_cons] at output ⊢
        tauto
      · exact ⟨"dist", dist, by decide⟩
  rw [outputs, client]
  tauto

/-- A source in a package named `target`. -/
def packagedTarget : Workspace where
  tree := .cons .src (.dir (.cons (.ofText "target")
    (.dir (.cons (.ofText "App.java") (.file ⟨[1], 0⟩) .nil)) .nil)) .nil
  distinct := by decide
  addressable := by decide +kernel

def packagedPath : Path := [.src, .ofText "target", .ofText "App.java"]

/-- The client reports changes of the file, and the snapshot does not read it. -/
theorem packaged_target_unread :
    packagedTarget.tree.get packagedPath = some (.file ⟨[1], 0⟩) ∧
    "src" ∈ directories packagedPath ∧
    Client.ignoredWorkspacePath (displayPath packagedPath) = false ∧
    packagedPath ∉ (capturedFiles [] packagedTarget.tree).map Prod.fst := by
  refine ⟨rfl, by decide +kernel, by decide +kernel, by decide +kernel⟩

theorem generated_rules_agree_iff_demo :
    ¬ ([] ++ packagedPath ∈ (capturedFiles [] packagedTarget.tree).map Prod.fst ↔
      Client.ignoredWorkspacePath (displayPath packagedPath) = false) := by
  rw [@generated_rules_agree_iff [] packagedTarget packagedPath (.ofText "App.java") ⟨[1], 0⟩
    rfl rfl (by decide +kernel) (by decide +kernel)]
  intro either
  have none_before : beforeSource (directories packagedPath) = [] := by decide +kernel
  have after_ : OutputDirectory (fromSource (directories packagedPath)) :=
    ⟨"target", by decide +kernel, by decide⟩
  rcases either with ⟨name, member, tool⟩ | ⟨name, member, output⟩ | dist
  · revert name
    decide +kernel
  · simp [none_before] at member
  · simpa [none_before] using dist.mpr after_

end Walaru
