import Walaru.Source.Daemon.OverlayAcceptance

/-!
# The documents of one request

A request's documents are checked against each other by their texts and written where
the texts lead. A text may have a dot between its slashes, which leads nowhere, so two
texts that pass the check can lead to one file. Where dots make no two paths meet, the
documents stand apart and their order is of no consequence.
-/
namespace Walaru.Overlay
open Lib.Text Lib.FileTree Lib.StateResult

/-- On directory trees the computation leaves a directory tree and changes nothing else. -/
def Keeps {α : Type} (x : PrepareM α) : Prop :=
  ∀ (s : SessionDirectory) (mirror : Tree) a t, mirror.distinct = true →
    Settles x (s.holding mirror) a t → ∃ after : Tree, after.distinct = true ∧ t = s.holding after

section Keeps
variable {α β : Type} {x : PrepareM α}

theorem Keeps.bind {f : α → PrepareM β} (first : Keeps x) (later : ∀ a, Keeps (f a)) :
    Keeps (x >>= f) := by
  rintro s mirror b t distinct ⟨n, k, run⟩
  obtain ⟨a, ⟨u, m⟩, here, rest⟩ := bind_ok.mp run
  obtain ⟨between, good, rfl⟩ := first s mirror a u distinct ⟨n, m, here⟩
  exact later a s between b t good ⟨m, k, rest⟩

theorem Keeps.pure (a : α) : Keeps (pure a) := by
  intro s mirror b t distinct run
  exact ⟨mirror, distinct, (settles_pure.mp run).2.symm⟩

theorem Keeps.foldlM {f : β → α → PrepareM β} (each : ∀ b a, Keeps (f b a)) (items : List α) (b : β) :
    Keeps (items.foldlM f b) := by
  induction items generalizing b with
  | nil => exact Keeps.pure b
  | cons a items ih => exact (each b a).bind ih

theorem Turns.keeps {answer : α} {act : Tree → Option Tree}
    (turns : ∀ mirror, Turns x mirror answer (act mirror))
    (good : ∀ mirror after, mirror.distinct = true → act mirror = some after →
      after.distinct = true) : Keeps x := by
  intro s mirror a t distinct run
  obtain ⟨-, after, acted, rfl⟩ := ((turns mirror).settles s a t).mp run
  exact ⟨after, good mirror after distinct acted, rfl⟩

theorem Keeps.inMirror (env : PrepareEnv) {act : Tree → Option Tree}
    (good : ∀ mirror after, mirror.distinct = true → act mirror = some after →
      after.distinct = true) : Keeps (inMirror env act) :=
  Turns.keeps (Turns.inMirror env act) good

end Keeps

section Parts
variable {env : PrepareEnv}

theorem distinct_ensureDirectory {path : Path} (mirror after : Tree) (distinct : mirror.distinct = true)
    (success : ensureDirectory path mirror = some after) : after.distinct = true := by
  unfold ensureDirectory at success
  split at success
  · exact Option.some.inj success ▸ distinct
  · obtain ⟨cleared, gone, made⟩ := Option.bind_eq_some_iff.mp success
    exact Entries.distinct_makeDirs (Entries.distinct_discard distinct gone) made
  · exact Entries.distinct_makeDirs distinct success

theorem distinct_mirroredFile {source : FileData} {destination : Path} {relative : String}
    {previous : MirrorManifest} (mirror after : Tree) (distinct : mirror.distinct = true)
    (success : mirroredFile env source destination relative previous mirror = some after) :
    after.distinct = true := by
  unfold mirroredFile at success
  split at success
  · exact Option.some.inj success ▸ distinct
  · exact Entries.distinct_place distinct success

theorem keeps_mirrorFile (source : FileData) (destination : Path) (relative : String)
    (previous current : MirrorManifest) :
    Keeps (mirrorFile env source destination relative previous current) :=
  Turns.keeps (turns_mirrorFile env source destination relative previous current) distinct_mirroredFile

theorem mirrorVisit_steady (previous current : MirrorManifest) (visit : Visit FileName FileData) :
    Metered (mirrorVisit env previous current visit) ∧ Keeps (mirrorVisit env previous current visit) := by
  cases visit with
  | directory path =>
    constructor
    · exact (Metered.inMirror env _).bind fun _ => Metered.pure current
    · exact (Keeps.inMirror env distinct_ensureDirectory).bind fun _ => Keeps.pure current
  | file path source =>
    constructor
    · exact (turns_mirrorFile env source path _ previous current .nil).metered
    · exact keeps_mirrorFile source path _ previous current

theorem distinct_placeListed {tree : Tree} {previous : MirrorManifest} {bytes : List UInt8}
    (mirror after : Tree) (distinct : mirror.distinct = true)
    (success : placeListed env tree previous bytes mirror = some after) : after.distinct = true := by
  unfold placeListed at success
  split at success
  · cases success
  · split at success
    · exact distinct_mirroredFile mirror after distinct success
    · exact Option.some.inj success ▸ distinct

theorem distinct_placeAll {tree : Tree} {listed : Except String CommandOutput}
    {previous : MirrorManifest} (mirror after : Tree) (distinct : mirror.distinct = true)
    (success : placeAll env tree listed previous mirror = some after) : after.distinct = true := by
  obtain ⟨fields, -, folded⟩ := Option.bind_eq_some_iff.mp success
  exact Lib.Trace.foldlM_invariant (P := fun mirror : Tree => mirror.distinct = true)
    (fun mirror bytes _ after good step => distinct_placeListed mirror after good step) folded distinct

/-- The files of either kind of source are mirrored by steps of the mirror alone. -/
theorem mirrorSource_steady (source : MirrorSource) (previous : MirrorManifest) :
    Metered (mirrorSource env source previous) ∧ Keeps (mirrorSource env source previous) := by
  cases source with
  | directory tree =>
    constructor
    · exact Metered.foldlM (fun current visit => (mirrorVisit_steady previous current visit).1) _ _
    · exact Keeps.foldlM (fun current visit => (mirrorVisit_steady previous current visit).2) _ _
  | repository tree rel listed =>
    constructor
    · exact (turns_mirrorRepository env tree listed previous .nil).metered
    · exact Turns.keeps (turns_mirrorRepository env tree listed previous) distinct_placeAll

end Parts

section Order
variable {env : PrepareEnv} {source : MirrorSource} {rel : Path} {previous mirrored : MirrorManifest}

/-- A synchronisation up to the workspace's own files. -/
def gather (env : PrepareEnv) (source : MirrorSource) (previous : MirrorManifest) :
    PrepareM MirrorManifest := do
  inMirror env (Entries.makeDirs source.workspaceRelative)
  mirrorSource env source previous

theorem gather_steady (env : PrepareEnv) (source : MirrorSource) (previous : MirrorManifest) :
    Metered (gather env source previous) ∧ Keeps (gather env source previous) := by
  constructor
  · exact (Metered.inMirror env _).bind fun _ => (mirrorSource_steady source previous).1
  · exact (Keeps.inMirror env fun _ _ => Entries.distinct_makeDirs).bind fun _ =>
      (mirrorSource_steady source previous).2

/-- The removals and the documents, with the manifest that names them. -/
def finish (env : PrepareEnv) (rel : Path) (documents : List OverlayDocument)
    (previous mirrored : MirrorManifest) : PrepareM Unit := do
  (stalePaths previous (addDocuments rel documents mirrored)).forM (removeStale env)
  documents.forM (writeDocument env rel)
  writeMirrorManifest env (addDocuments rel documents mirrored)

theorem synchronize_gather (env : PrepareEnv) (source : MirrorSource) (overlay : OverlayRequest)
    (previous : MirrorManifest) :
    synchronize env source overlay previous = (do
      onMirror env fun mirror => some (some (mirror.getD .nil))
      let mirrored ← gather env source previous
      finish env source.workspaceRelative overlay.documents previous mirrored) := by
  simp only [synchronize, gather, finish, bind_assoc]

/-- The mirror after the removals and the documents. -/
def finished (env : PrepareEnv) (rel : Path) (documents : List OverlayDocument)
    (previous mirrored : MirrorManifest) (mirror : Tree) : Option Tree :=
  ((stalePaths previous (addDocuments rel documents mirrored)).foldlM
    (fun mirror removed => withoutStale removed mirror) mirror).bind fun mirror =>
      documents.foldlM (fun mirror document => withDocument env rel document mirror) mirror

theorem metered_finish (documents : List OverlayDocument) :
    Metered (finish env rel documents previous mirrored) := by
  refine (Turns.forM (turns_removeStale env) _ .nil).metered.bind fun _ => ?_
  refine (Turns.forM (turns_writeDocument env rel) documents .nil).metered.bind fun _ => ?_
  exact metered_writeMirrorManifest env _

theorem settles_finish {documents : List OverlayDocument} {s t : SessionDirectory} {mirror : Tree}
    {a : Unit} :
    Settles (finish env rel documents previous mirrored) (s.holding mirror) a t ↔
      ∃ after, finished env rel documents previous mirrored mirror = some after ∧
        env.encodedLength (addDocuments rel documents mirrored) ≤ maxMirrorManifestBytes ∧
        t = { s.holding after with
          manifest := some ⟨env.encodedLength (addDocuments rel documents mirrored),
            .manifest (addDocuments rel documents mirrored)⟩
          temporary := none } := by
  have stale := Turns.forM (turns_removeStale env)
    (stalePaths previous (addDocuments rel documents mirrored))
  have writing := Turns.forM (turns_writeDocument env rel) documents
  have both := (stale mirror).bind (fun _ => (writing .nil).metered) fun kept _ => writing kept
  have whole : finish env rel documents previous mirrored =
      ((stalePaths previous (addDocuments rel documents mirrored)).forM (removeStale env) >>= fun _ =>
        documents.forM (writeDocument env rel)) >>= fun _ =>
          writeMirrorManifest env (addDocuments rel documents mirrored) := by
    rw [finish, bind_assoc]
  rw [whole, settles_bind both.metered fun _ => metered_writeMirrorManifest env _]
  constructor
  · rintro ⟨_, u, turned, written⟩
    obtain ⟨-, after, same, rfl⟩ := (both.settles s _ u).mp turned
    obtain ⟨short, rfl⟩ := (settles_writeMirrorManifest env).mp written
    exact ⟨after, same, short, rfl⟩
  · rintro ⟨after, same, short, rfl⟩
    exact ⟨(), s.holding after, (both.settles s _ _).mpr ⟨rfl, after, same, rfl⟩,
      (settles_writeMirrorManifest env).mpr ⟨short, rfl⟩⟩

theorem metered_synchronize_source (env : PrepareEnv) (source : MirrorSource)
    (overlay : OverlayRequest) (previous : MirrorManifest) :
    Metered (synchronize env source overlay previous) := by
  rw [synchronize_gather]
  refine (Metered.onMirror env _).bind fun _ => ?_
  exact (gather_steady env source previous).1.bind fun _ => metered_finish overlay.documents

theorem settles_synchronize_source {overlay : OverlayRequest} {s t : SessionDirectory}
    (distinct : s.tree.distinct = true) :
    Settles (synchronize env source overlay previous) s () t ↔
      ∃ mirrored mirror, mirror.distinct = true ∧
        Settles (gather env source previous) (s.holding s.tree) mirrored (s.holding mirror) ∧
        Settles (finish env source.workspaceRelative overlay.documents previous mirrored)
          (s.holding mirror) () t := by
  obtain ⟨metered, keeps⟩ := gather_steady env source previous
  rw [synchronize_gather, settles_bind (Metered.onMirror env _) fun _ =>
    metered.bind fun _ => metered_finish overlay.documents]
  constructor
  · rintro ⟨_, u, made, rest⟩
    obtain ⟨mirror, same, rfl⟩ := settles_onMirror.mp made
    cases same
    obtain ⟨mirrored, v, gathered, finishing⟩ :=
      (settles_bind metered fun _ => metered_finish overlay.documents).mp rest
    obtain ⟨after, good, rfl⟩ := keeps s s.tree mirrored v distinct gathered
    exact ⟨mirrored, after, good, gathered, finishing⟩
  · rintro ⟨mirrored, mirror, -, gathered, finishing⟩
    refine ⟨(), s.holding s.tree, settles_onMirror.mpr ⟨_, rfl, rfl⟩, ?_⟩
    exact (settles_bind metered fun _ => metered_finish overlay.documents).mpr
      ⟨mirrored, _, gathered, finishing⟩

theorem addDocuments_perm {documents other : List OverlayDocument} (perm : documents.Perm other)
    (manifest : MirrorManifest) :
    addDocuments rel documents manifest = addDocuments rel other manifest := by
  refine perm.foldl_eq' (fun first _ second _ manifest => ?_) manifest
  have swap : ∀ (set : BTreeSet String) (a b : String),
      (set.insert a).insert b = (set.insert b).insert a := by
    intro set a b
    apply Std.ExtTreeSet.ext_mem
    intro text
    simp only [Std.ExtTreeSet.mem_insert]
    exact or_left_comm
  simp [swap _ (documentKey rel first) (documentKey rel second)]

theorem withDocument_same {document : OverlayDocument} {mirror other after : Tree}
    (same : Entries.Same mirror other)
    (success : withDocument env rel document mirror = some after) :
    ∃ after', withDocument env rel document other = some after' ∧ Entries.Same after after' := by
  unfold withDocument at success ⊢
  split at success
  · cases success
  · rename_i ending
    rw [if_neg ending]
    exact same.place success

theorem withDocument_swap {first second : OverlayDocument} {mirror after : Tree}
    (distinct : mirror.distinct = true)
    (apart : Entries.Apart (documentTarget rel first) (documentTarget rel second))
    (success : (withDocument env rel first mirror).bind (withDocument env rel second) = some after) :
    ∃ after', (withDocument env rel second mirror).bind (withDocument env rel first) = some after' ∧
      Entries.Same after after' := by
  obtain ⟨between, one, two⟩ := Option.bind_eq_some_iff.mp success
  unfold withDocument at one two
  split at one
  · cases one
  · rename_i firstEnds
    split at two
    · cases two
    · rename_i secondEnds
      obtain ⟨after', swapped, same⟩ := Entries.place_swap distinct apart
        (Option.bind_eq_some_iff.mpr ⟨between, one, two⟩)
      obtain ⟨between', one', two'⟩ := Option.bind_eq_some_iff.mp swapped
      refine ⟨after', Option.bind_eq_some_iff.mpr ⟨between', ?_, ?_⟩, same⟩
      · rw [withDocument, if_neg secondEnds, one']
      · rw [withDocument, if_neg firstEnds, two']

/-- Removing what is stale keeps a directory tree one. -/
theorem distinct_removed (removed : List String) {mirror after : Tree}
    (distinct : mirror.distinct = true)
    (success : removed.foldlM (fun mirror text => withoutStale text mirror) mirror = some after) :
    after.distinct = true := by
  refine Lib.Trace.foldlM_invariant (P := fun mirror : Tree => mirror.distinct = true)
    (fun mirror text _ next good step => ?_) success distinct
  unfold withoutStale at step
  split at step
  · split at step
    · exact Entries.distinct_discard good step
    · exact Option.some.inj step ▸ good
  · exact Option.some.inj step ▸ good

/-- Documents that stand apart can be written in any order. -/
theorem finished_perm {documents other : List OverlayDocument} (perm : documents.Perm other)
    (apart : documents.Pairwise fun a b => Entries.Apart (documentTarget rel a) (documentTarget rel b))
    {mirror after : Tree} (distinct : mirror.distinct = true)
    (success : finished env rel documents previous mirrored mirror = some after) :
    ∃ after', finished env rel other previous mirrored mirror = some after' ∧
      Entries.Same after after' := by
  obtain ⟨kept, removed, written⟩ := Option.bind_eq_some_iff.mp success
  obtain ⟨after', written', same⟩ := @foldlM_perm _ _
    (fun mirror document => withDocument env rel document mirror) Entries.Same
    (fun a b => Entries.Apart (documentTarget rel a) (documentTarget rel b))
    Entries.Same.symm Entries.Same.trans And.symm withDocument_same
    (fun same => withDocument_swap same.distinct) _ _ perm apart
    _ _ _ (Entries.Same.refl (distinct_removed _ distinct removed)) written
  refine ⟨after', Option.bind_eq_some_iff.mpr ⟨kept, ?_, written'⟩, same⟩
  rw [← addDocuments_perm perm]
  exact removed

end Order

/-- Two session directories that differ at most in the order in which directories list
their entries. -/
structure SameSession (s t : SessionDirectory) : Prop where
  tree : ∀ path, s.tree.look path = t.tree.look path
  manifest : s.manifest = t.manifest
  temporary : s.temporary = t.temporary
  preparing : s.preparing = t.preparing

/-- The documents lead to files strictly inside the workspace, none the same as or above
another, and their order decides neither the acceptance nor the mirror. -/
structure DistinctFiles (overlay : OverlayRequest) : Prop where
  inside : ∀ document ∈ overlay.documents, pathFromSlashes document.path ≠ [] ∧
    ∀ name ∈ pathFromSlashes document.path, canonicalName name = true
  apart : overlay.documents.Pairwise fun a b =>
    Entries.Apart (pathFromSlashes a.path) (pathFromSlashes b.path)
  accepted : ∀ documents, overlay.documents.Perm documents →
    validate ⟨overlay.sessionId, documents⟩ = .ok ()
  mirrored : ∀ documents, overlay.documents.Perm documents → ∀ env source s t,
    s.tree.distinct = true → Settles (prepare env source overlay) s () t →
      ∃ t', Settles (prepare env source ⟨overlay.sessionId, documents⟩) s () t' ∧ SameSession t t'

/-- Dots make no two paths meet: where one of two texts has a dot, the texts without their
dots are different and none continues the other. -/
def DotsApart (documents : List OverlayDocument) : Prop :=
  documents.Pairwise fun a b => "." ∈ splitChar '/' a.path ∨ "." ∈ splitChar '/' b.path →
    Entries.Apart (undotted a.path) (undotted b.path)

theorem kept_distinct {s : SessionDirectory} (distinct : s.tree.distinct = true) :
    s.kept.tree.distinct = true := by
  unfold SessionDirectory.kept
  split
  · rfl
  · exact distinct

theorem apart_documentTarget {rel : Path} {a b : OverlayDocument}
    (apart : Entries.Apart (pathFromSlashes a.path) (pathFromSlashes b.path)) :
    Entries.Apart (documentTarget rel a) (documentTarget rel b) := by
  unfold Entries.Apart documentTarget
  rw [List.prefix_append_right_inj, List.prefix_append_right_inj]
  exact apart

/-- A preparation whose documents stand apart leaves the same mirror in any order. -/
theorem prepare_perm {sessionId : String} {documents other : List OverlayDocument}
    (perm : documents.Perm other)
    (apart : documents.Pairwise fun a b =>
      Entries.Apart (pathFromSlashes a.path) (pathFromSlashes b.path))
    {env : PrepareEnv} {source : MirrorSource} {s t : SessionDirectory}
    (distinct : s.tree.distinct = true)
    (settled : Settles (prepare env source ⟨sessionId, documents⟩) s () t) :
    ∃ t', Settles (prepare env source ⟨sessionId, other⟩) s () t' ∧ SameSession t t' := by
  obtain ⟨valid, u, synchronized, rfl⟩ :=
    (settles_prepare_iff env _ (metered_synchronize_source env source _ _)).mp settled
  have good : ({ s.kept with preparing := true } : SessionDirectory).tree.distinct = true :=
    kept_distinct distinct
  obtain ⟨mirrored, mirror, goodMirror, gathered, finishing⟩ :=
    (settles_synchronize_source good).mp synchronized
  obtain ⟨after, written, short, rfl⟩ := settles_finish.mp finishing
  obtain ⟨after', written', same⟩ :=
    finished_perm perm (apart.imp apart_documentTarget) goodMirror written
  have finishing' := (settles_finish (s := { s.kept with preparing := true }) (a := ())).mpr
    ⟨after', written', addDocuments_perm perm mirrored ▸ short, rfl⟩
  refine ⟨_, (settles_prepare_iff env _ (metered_synchronize_source env source _ _)).mpr
    ⟨validate_perm perm valid, _, (settles_synchronize_source good).mpr
      ⟨mirrored, mirror, goodMirror, gathered, finishing'⟩, rfl⟩, ?_⟩
  exact ⟨same.look, by rw [addDocuments_perm perm mirrored], rfl, rfl⟩

/-- The documents of an accepted request are distinct files, whatever their order, exactly
when dots make no two of them meet. -/
theorem distinctFiles_iff (overlay : OverlayRequest) (valid : validate overlay = .ok ()) :
    DistinctFiles overlay ↔ DotsApart overlay.documents := by
  obtain ⟨-, -, each, pairs, -⟩ := validate_iff.mp valid
  have texts : ∀ document ∈ overlay.documents, validateRelativePath document.path = .ok () :=
    fun document member => (each document member).1
  constructor
  · intro distinct
    refine distinct.apart.imp_of_mem fun {a b} memberA memberB apart _ => ?_
    exact (apart_pathFromSlashes (texts a memberA) (texts b memberB)).mp apart
  · intro dots
    have apart : overlay.documents.Pairwise fun a b =>
        Entries.Apart (pathFromSlashes a.path) (pathFromSlashes b.path) := by
      refine (dots.and pairs).imp_of_mem fun {a b} memberA memberB both => ?_
      rw [apart_pathFromSlashes (texts a memberA) (texts b memberB)]
      by_cases dotted : "." ∈ splitChar '/' a.path ∨ "." ∈ splitChar '/' b.path
      · exact both.1 dotted
      · rw [not_or] at dotted
        rw [undotted_of_not_mem dotted.1, undotted_of_not_mem dotted.2]
        exact textsApart_iff.mp both.2
    refine ⟨fun document member => ?_, apart, fun documents perm => validate_perm perm valid, ?_⟩
    · exact ⟨pathFromSlashes_ne_nil (texts document member),
        (pathFromSlashes_names (texts document member)).2⟩
    · exact fun documents perm env source s t distinct settled =>
        prepare_perm perm apart distinct settled

def twoDocuments (first second : String) : OverlayRequest :=
  ⟨"session", [⟨first, 1, "class A {}"⟩, ⟨second, 1, "class B {}"⟩]⟩

theorem distinctFiles_iff_demo : DistinctFiles (twoDocuments "src/A.java" "src/B.java") := by
  apply (distinctFiles_iff (twoDocuments "src/A.java" "src/B.java") (by decide +kernel)).mpr
  unfold DotsApart twoDocuments
  have undottedTexts : "." ∉ splitChar '/' "src/A.java" ∧ "." ∉ splitChar '/' "src/B.java" := by
    decide +kernel
  refine List.pairwise_pair.mpr fun dotted => ?_
  exact absurd dotted (not_or.mpr undottedTexts)

/-- An accepted request with one file under two texts. -/
theorem one_file_twice :
    validate (twoDocuments "src/A.java" "src/./A.java") = .ok () ∧
      ¬ DistinctFiles (twoDocuments "src/A.java" "src/./A.java") := by
  refine ⟨by decide +kernel, fun distinct => ?_⟩
  have same : pathFromSlashes "src/A.java" = pathFromSlashes "src/./A.java" := by decide +kernel
  have apart := List.pairwise_pair.mp distinct.apart
  exact apart.1 (same ▸ List.prefix_refl _)

end Walaru.Overlay
