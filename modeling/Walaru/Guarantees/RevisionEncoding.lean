import Walaru.Lib.Sha256
import Walaru.Source.Core.WorkspaceFiles

/-!
# What the revision stream says

The stream that `RevisionSnapshot::capture` hashes, as a function of the included
paths and their contents: what it determines, and which files take part in it.
-/
namespace Walaru
open Lib.Text Lib.FileTree Lib.Framing

/-- The framed fields of one workspace: each relative path and its content. -/
def framedFields (root : Path) (tree : Tree) : List (String × List UInt8) :=
  (capturedFiles root tree).map fun file => (relativeString root file.1, file.2.contents)

theorem revisionStream_frames (root : Path) (tree : Tree) :
    revisionStream root tree = utf8 "walaru-revision-v1\x00" ++
      ((framedFields root tree).flatMap fun field => [utf8 field.1, field.2]).flatMap (frame 8) := by
  simp [revisionStream, framedFields, updateFrame, List.flatMap_assoc, List.flatMap_map]

theorem mem_framedFields {tree : Tree} (distinct : tree.distinct = true) {root : Path}
    {text : String} {contents : List UInt8} :
    (text, contents) ∈ framedFields root tree ↔
      ∃ below, includedContents tree below = some contents ∧ relativeString [] below = text := by
  simp only [framedFields, List.mem_map, Prod.mk.injEq]
  constructor
  · intro ⟨⟨path, data⟩, member, named, held⟩
    obtain ⟨below, rfl, -, included⟩ := (mem_collectFiles distinct).mp (mem_capturedFiles.mp member)
    rw [relativeString_append] at named
    exact ⟨below, held ▸ included, named⟩
  · intro ⟨below, included, named⟩
    obtain ⟨data, got, rfl⟩ := includedContents_file included
    refine ⟨(root ++ below, data), mem_capturedFiles.mpr ?_, ?_, rfl⟩
    · exact (mem_collectFiles distinct).mpr ⟨below, rfl, got, included⟩
    · rw [relativeString_append, named]

theorem framedFields_sorted (root : Path) (tree : Tree) :
    (framedFields root tree).Pairwise fun a b => a.1 ≤ b.1 := by
  let order : Path × FileData → Path × FileData → Prop :=
    fun a b => relativeString root a.1 ≤ relativeString root b.1
  have total : Std.Total order :=
    ⟨fun a b => le_total (relativeString root a.1) (relativeString root b.1)⟩
  have transitive : IsTrans _ order := ⟨fun a b c => le_trans⟩
  exact (List.pairwise_insertionSort order (collectFiles root tree)).map _ fun _ _ sorted => sorted

namespace Workspace

variable (w : Workspace)

/-- Every included path has plain names only. -/
def PlainPaths : Prop :=
  ∀ path, (includedContents w.tree path).isSome → ∀ name ∈ path, name.plain = true

variable {w}

theorem included_nonempty {path : Path} {contents : List UInt8}
    (included : includedContents w.tree path = some contents) : path ≠ [] := by
  intro empty
  subst empty
  obtain ⟨data, got, -⟩ := includedContents_file included
  cases got

/-- Included paths with the same text are the same path. -/
theorem PlainPaths.text_injective {v : Workspace} (plainW : w.PlainPaths) (plainV : v.PlainPaths)
    {a b : Path} {inA inB : List UInt8} (shownA : includedContents w.tree a = some inA)
    (shownB : includedContents v.tree b = some inB)
    (same : relativeString [] a = relativeString [] b) : a = b :=
  relativeString_injective (included_nonempty shownA) (included_nonempty shownB)
    (plainW a (by simp [shownA])) (plainV b (by simp [shownB])) same

/-- No field of the stream is longer than its length prefix can say. -/
theorem fields_fit (w : Workspace) (root : Path) :
    ∀ value ∈ (framedFields root w.tree).flatMap (fun field => [utf8 field.1, field.2]),
      value.length < 256 ^ 8 := by
  intro value member
  obtain ⟨⟨text, contents⟩, field, either⟩ := List.mem_flatMap.mp member
  obtain ⟨below, included, named⟩ := (mem_framedFields w.distinct).mp field
  obtain ⟨data, got, rfl⟩ := includedContents_file included
  have nonempty := included_nonempty included
  have visited : Visit.file below data ∈
      (Node.dir w.tree).visits FileName.before (fun _ => true) [] := by
    have whole : (Node.dir w.tree).distinct = true := w.distinct
    exact (Node.mem_visits_file whole).mpr ⟨below, nonempty, rfl, got, by simp⟩
  have bounds := w.addressable _ (mem_visitedFiles.mpr visited)
  rw [named] at bounds
  have limit : isizeMax < 256 ^ 8 := by decide
  simp only [List.mem_cons, List.not_mem_nil, or_false] at either
  rcases either with rfl | rfl
  · exact lt_of_le_of_lt bounds.1 limit
  · exact lt_of_le_of_lt bounds.2 limit

theorem PlainPaths.framedFields_nodup (plain : w.PlainPaths) (root : Path) :
    (framedFields root w.tree).Nodup := by
  have paths : ((capturedFiles root w.tree).map Prod.fst).Nodup :=
    ((List.perm_insertionSort _ _).map Prod.fst).nodup_iff.mpr (collectFiles_nodup w.distinct root)
  have texts : (framedFields root w.tree).map Prod.fst =
      ((capturedFiles root w.tree).map Prod.fst).map (relativeString root) := by
    simp [framedFields, Function.comp_def]
  refine List.Nodup.of_map Prod.fst ?_
  rw [texts]
  refine List.Nodup.map_on ?_ paths
  intro x hereX y hereY equal
  obtain ⟨⟨_, dataX⟩, memberX, rfl⟩ := List.mem_map.mp hereX
  obtain ⟨⟨_, dataY⟩, memberY, rfl⟩ := List.mem_map.mp hereY
  obtain ⟨x, rfl, -, shownX⟩ := (mem_collectFiles w.distinct).mp (mem_capturedFiles.mp memberX)
  obtain ⟨y, rfl, -, shownY⟩ := (mem_collectFiles w.distinct).mp (mem_capturedFiles.mp memberY)
  rw [relativeString_append, relativeString_append] at equal
  rw [plain.text_injective plain shownX shownY equal]

/-- The fields of a workspace whose paths are plain determines what it includes, and
is determined by it: neither the order of directory listings nor the root matters. -/
theorem framedFields_eq_iff {w v : Workspace} (plainW : w.PlainPaths) (plainV : v.PlainPaths)
    (rootW rootV : Path) :
    framedFields rootW w.tree = framedFields rootV v.tree ↔
      includedContents w.tree = includedContents v.tree := by
  constructor
  · intro same
    have carried : ∀ {a b : Workspace}, a.PlainPaths → b.PlainPaths → ∀ rootA rootB,
        framedFields rootA a.tree = framedFields rootB b.tree → ∀ path contents,
        includedContents a.tree path = some contents →
        includedContents b.tree path = some contents := by
      intro a b plainA plainB rootA rootB same path contents included
      have field : (relativeString [] path, contents) ∈ framedFields rootB b.tree := by
        rw [← same]
        exact (mem_framedFields a.distinct).mpr ⟨path, included, rfl⟩
      obtain ⟨other, included', named⟩ := (mem_framedFields b.distinct).mp field
      rwa [plainA.text_injective plainB included included' named.symm]
    funext path
    refine Option.ext fun contents => ⟨?_, ?_⟩
    · exact carried plainW plainV rootW rootV same path contents
    · exact carried plainV plainW rootV rootW same.symm path contents
  · intro same
    have members : ∀ field, field ∈ framedFields rootW w.tree ↔ field ∈ framedFields rootV v.tree := by
      intro ⟨text, contents⟩
      rw [mem_framedFields w.distinct, mem_framedFields v.distinct, same]
    have permuted := (List.perm_ext_iff_of_nodup (plainW.framedFields_nodup rootW)
      (plainV.framedFields_nodup rootV)).mpr members
    refine permuted.eq_of_pairwise ?_ (framedFields_sorted rootW w.tree) (framedFields_sorted rootV v.tree)
    intro ⟨textA, inA⟩ ⟨textB, inB⟩ hereA hereB lower upper
    obtain ⟨a, shownA, rfl⟩ := (mem_framedFields w.distinct).mp hereA
    obtain ⟨b, shownB, rfl⟩ := (mem_framedFields v.distinct).mp hereB
    have text := le_antisymm lower upper
    obtain rfl := plainW.text_injective plainV shownA shownB text
    rw [same, shownB] at shownA
    rw [Option.some.inj shownA]

/-- Streams are equal exactly when their fields are. -/
theorem revisionStream_eq_iff (w v : Workspace) (rootW rootV : Path) :
    revisionStream rootW w.tree = revisionStream rootV v.tree ↔
      framedFields rootW w.tree = framedFields rootV v.tree := by
  rw [revisionStream_frames, revisionStream_frames, List.append_cancel_left_eq]
  constructor
  · intro same
    have fields := frames_injective (by decide) (w.fields_fit rootW) (v.fields_fit rootV) same
    revert fields
    generalize framedFields rootW w.tree = a
    generalize framedFields rootV v.tree = b
    intro fields
    induction a generalizing b with
    | nil =>
      cases b with
      | nil => rfl
      | cons y b => cases fields
    | cons x a ih =>
      cases b with
      | nil => cases fields
      | cons y b =>
        simp only [List.flatMap_cons, List.cons_append, List.nil_append, List.cons.injEq] at fields
        rw [ih b fields.2.2, Prod.ext (utf8_injective fields.1) fields.2.1]
  · intro same
    rw [same]

end Workspace

namespace Workspace

/-- Plain names of the collected files are plain paths. -/
theorem plainPaths_of_collected {w : Workspace}
    (names : ∀ file ∈ collectFiles [] w.tree, ∀ name ∈ file.1, name.plain = true) :
    w.PlainPaths := by
  intro path shown
  obtain ⟨contents, included⟩ := Option.isSome_iff_exists.mp shown
  obtain ⟨data, got, rfl⟩ := includedContents_file included
  exact names _ ((mem_collectFiles w.distinct).mpr ⟨path, rfl, got, included⟩)

end Workspace

/-- Two workspaces whose included paths are plain feed the hash the same stream
exactly when their included paths and contents are the same, wherever they lie and
in whatever order their directories list. Unless the two streams collide, that
holds of the revisions too. -/
theorem revision_stream_canonical {w v : Workspace} (plainW : w.PlainPaths) (plainV : v.PlainPaths)
    (rootW rootV : Path) :
    (revisionStream rootW w.tree = revisionStream rootV v.tree ↔
      includedContents w.tree = includedContents v.tree) ∧
    ∀ hash : RevisionHash,
      (hash.sha256 (revisionStream rootW w.tree) = hash.sha256 (revisionStream rootV v.tree) →
        revisionStream rootW w.tree = revisionStream rootV v.tree) →
      ((capture hash rootW w.tree).snapshot.revision =
          (capture hash rootV v.tree).snapshot.revision ↔
        includedContents w.tree = includedContents v.tree) := by
  have streams := (Workspace.revisionStream_eq_iff w v rootW rootV).trans
    (Workspace.framedFields_eq_iff plainW plainV rootW rootV)
  refine ⟨streams, fun hash collisionFree => ?_⟩
  constructor
  · intro same
    have digests := hexEncode_injective (String.append_right_inj _ |>.mp same)
    exact streams.mp (collisionFree digests)
  · intro same
    simp only [capture, streams.mpr same]

/-- A build file and a source, listed in one order and in the other. -/
def listedForwards : Workspace where
  tree := .cons (.ofText "pom.xml") (.file ⟨[1], 0⟩)
    (.cons .src (.dir (.cons (.ofText "A.kt") (.file ⟨[2], 0⟩) .nil)) .nil)
  distinct := by decide
  addressable := by decide +kernel

def listedBackwards : Workspace where
  tree := .cons .src (.dir (.cons (.ofText "A.kt") (.file ⟨[2], 5⟩) .nil))
    (.cons (.ofText "pom.xml") (.file ⟨[1], 7⟩) .nil)
  distinct := by decide
  addressable := by decide +kernel

theorem revision_stream_canonical_demo :
    includedContents listedForwards.tree = includedContents listedBackwards.tree :=
  (revision_stream_canonical
    (Workspace.plainPaths_of_collected (w := listedForwards) (by decide +kernel))
    (Workspace.plainPaths_of_collected (w := listedBackwards) (by decide +kernel))
    [.ofText "home"] []).1.mp (by decide +kernel)

end Walaru
