import Walaru.Source.Daemon.OverlayFiles

/-!
# Files that become directories

The preparations of one session over a git workspace that changes between them. Before a
listed file is copied, the directories above it are made, and a file that an earlier
preparation mirrored there stands in the way until the stale files are removed, which
comes later. Where no recorded path lies above one that is needed now, no preparation
fails that would succeed in an empty session directory.
-/
namespace Walaru.Overlay
open Lib.Text Lib.FileTree Lib.StateResult Lib.Trace

/-- One preparation: the workspace it meets, its request, and after how many operations
it is stopped. -/
structure PrepareStep where
  env : PrepareEnv
  tree : Tree
  workspaceRelative : Path
  listed : Except String CommandOutput
  overlay : OverlayRequest
  operations : Nat

namespace PrepareStep

def prepare (step : PrepareStep) : PrepareM Unit :=
  Overlay.prepare step.env (.repository step.tree step.workspaceRelative step.listed) step.overlay

/-- What the preparation leaves, however it ends. -/
def leaves (step : PrepareStep) (session : SessionDirectory) : SessionDirectory :=
  (storeOf (step.prepare ⟨session, step.operations⟩)).session

/-- Unless it is stopped, the preparation succeeds. -/
def Succeeds (step : PrepareStep) (session : SessionDirectory) : Prop :=
  ∃ after, Settles step.prepare session () after

end PrepareStep

/-- The preparations of a session, one after the other. -/
def prepareStep (session : SessionDirectory) (step : PrepareStep) : Option SessionDirectory :=
  some (step.leaves session)

/-- What earlier preparations left does not make this one fail. -/
def NotBlocked (session : SessionDirectory) (step : PrepareStep) : Prop :=
  step.Succeeds .new → step.Succeeds session

/-- The manifest that the preparation starts from, if there is one. -/
def SessionDirectory.recorded (session : SessionDirectory) : MirrorManifest :=
  session.previous.getD .new

/-- No recorded path lies in the way: none at or above the workspace's directory, none
above a file that is listed now, and none of a document that is asked for again above
another document. If there are documents, the directories from the repository to the
workspace have names that their texts stand for. -/
structure Unobstructed (session : SessionDirectory) (step : PrepareStep) : Prop where
  names : step.overlay.documents ≠ [] → ∀ name ∈ step.workspaceRelative, canonicalName name = true
  workspace : ∀ text ∈ session.recorded.paths, ¬ pathFromSlashes text <+: step.workspaceRelative
  files : ∀ text ∈ session.recorded.paths, ∀ path, ListedFile step.tree step.listed path →
    pathFromSlashes text <+: path → pathFromSlashes text = path
  documents : ∀ document ∈ step.overlay.documents,
    documentKey step.workspaceRelative document ∈ session.recorded.paths →
    ∀ other ∈ step.overlay.documents,
      documentTarget step.workspaceRelative document <+: documentTarget step.workspaceRelative other →
        documentTarget step.workspaceRelative document = documentTarget step.workspaceRelative other

/-- Each file of the mirror has a recorded text that leads to it. -/
def Recorded (mirror : Tree) (paths : BTreeSet String) : Prop :=
  ∀ path, mirror.Solid path → ∃ text ∈ paths, Leads text path

/-- While there is a manifest, the mirror holds nothing but what it records. -/
structure Sound (session : SessionDirectory) : Prop where
  plain : session.previous ≠ none → session.tree.Plain
  recorded : session.previous ≠ none → Recorded session.tree session.recorded.paths

theorem Sound.new : Sound .new where
  plain known := absurd rfl known
  recorded known := absurd rfl known

theorem Sound.of_lost {session : SessionDirectory} (lost : session.previous = none) :
    Sound session where
  plain known := absurd lost known
  recorded known := absurd lost known

theorem recorded_nil (paths : BTreeSet String) : Recorded .nil paths :=
  fun path solid => absurd solid (Entries.not_solid_nil path)

/-- What a preparation keeps of a sound session. -/
theorem Sound.kept {session : SessionDirectory} (sound : Sound session) :
    session.kept.tree.Plain ∧ Recorded session.kept.tree session.recorded.paths := by
  by_cases lost : session.previous = none
  · rw [SessionDirectory.kept, if_pos lost]
    exact ⟨Entries.Plain.nil, recorded_nil _⟩
  · rw [SessionDirectory.kept, if_neg lost]
    exact ⟨sound.plain lost, sound.recorded lost⟩

section Synchronized
variable {env : PrepareEnv} {tree : Tree} {rel : Path} {listed : Except String CommandOutput}
  {overlay : OverlayRequest} {previous : MirrorManifest} {mirror after : Tree}

/-- The four parts of a synchronisation. -/
theorem synchronizedMirror_parts :
    synchronizedMirror env tree rel listed overlay previous mirror = some after ↔
    ∃ made placed kept, mirror.makeDirs rel = some made ∧
      placeAll env tree listed previous made = some placed ∧
      (stalePaths previous (currentManifest env tree rel listed overlay)).foldlM
        (fun mirror removed => withoutStale removed mirror) placed = some kept ∧
      overlay.documents.foldlM (fun mirror document => withDocument env rel document mirror) kept =
        some after := by
  constructor
  · intro success
    obtain ⟨made, first, rest⟩ := Option.bind_eq_some_iff.mp success
    obtain ⟨placed, second, rest⟩ := Option.bind_eq_some_iff.mp rest
    obtain ⟨kept, third, fourth⟩ := Option.bind_eq_some_iff.mp rest
    exact ⟨made, placed, kept, first, second, third, fourth⟩
  · rintro ⟨made, placed, kept, first, second, third, fourth⟩
    rw [synchronizedMirror, first, Option.bind_some, second, Option.bind_some, third,
      Option.bind_some, fourth]

/-- A text that the new manifest lacks is removed if the old one had it, so what is left
of the old files is recorded anew. -/
theorem leads_current {placed kept : Tree} {path : Path} (plain : placed.Plain)
    (removed : (stalePaths previous (currentManifest env tree rel listed overlay)).foldlM
      (fun mirror removed => withoutStale removed mirror) placed = some kept)
    (solid : kept.Solid path) {text : String} (old : text ∈ previous.paths) (leads : Leads text path) :
    text ∈ (currentManifest env tree rel listed overlay).paths := by
  by_contra absent
  exact ((removeAll_effect plain removed).2 path solid).2 text (mem_stalePaths.mpr ⟨old, absent⟩) leads

theorem listedFile_leads (success : placeAll env tree listed previous mirror = some after)
    {path : Path} (file : ListedFile tree listed path) :
    ∃ text ∈ (currentManifest env tree rel listed overlay).paths, Leads text path := by
  obtain ⟨bytes, member, names⟩ := file
  have leads := leads_of_valid (placeAll_valid success bytes member) names.regular.1
  rw [names.2] at leads
  exact ⟨gitPath bytes, mem_currentManifest.mpr (.inl ⟨bytes, member, ⟨path, names⟩, rfl⟩), leads⟩

/-- A synchronisation keeps every file recorded. -/
theorem synchronizedMirror_recorded (plain : mirror.Plain) (recorded : Recorded mirror previous.paths)
    (names : overlay.documents ≠ [] → ∀ name ∈ rel, canonicalName name = true)
    (valid : validate overlay = .ok ())
    (success : synchronizedMirror env tree rel listed overlay previous mirror = some after) :
    after.Plain ∧ Recorded after (currentManifest env tree rel listed overlay).paths := by
  obtain ⟨made, placed, kept, first, second, third, fourth⟩ := synchronizedMirror_parts.mp success
  obtain ⟨plainPlaced, appear, -⟩ := placeAll_effect (plain.makeDirs first) second
  obtain ⟨plainKept, stay⟩ := removeAll_effect plainPlaced third
  obtain ⟨plainAfter, endings, written⟩ := writeAll_effect plainKept fourth
  refine ⟨plainAfter, fun path solid => ?_⟩
  rcases written path solid with before | ⟨document, member, rfl⟩
  · rcases appear path (stay path before).1 with old | file
    · obtain ⟨text, known, leads⟩ :=
        recorded path ((Entries.solid_makeDirs plain.distinct first path).mp old)
      exact ⟨text, leads_current plainPlaced third before known leads, leads⟩
    · exact listedFile_leads second file
  · exact ⟨documentKey rel document, mem_currentManifest.mpr (.inr ⟨document, member, rfl⟩),
      leads_document (names (List.ne_nil_of_mem member)) (validate_documents valid document member)
        (endings document member)⟩

end Synchronized

theorem previous_preparedSession {env : PrepareEnv} {tree : Tree} {rel : Path}
    {listed : Except String CommandOutput} {overlay : OverlayRequest} {mirror : Tree}
    (short : env.encodedLength (currentManifest env tree rel listed overlay) ≤
      maxMirrorManifestBytes) :
    (preparedSession env tree rel listed overlay mirror).previous =
      some (currentManifest env tree rel listed overlay) := by
  simp [SessionDirectory.previous, preparedSession, readMirrorManifest, Nat.not_lt.mpr short,
    currentManifest_schemaVersion]

/-- However a preparation ends, the session stays sound. -/
theorem Sound.leaves {session : SessionDirectory} (sound : Sound session) (step : PrepareStep)
    (names : step.overlay.documents ≠ [] →
      ∀ name ∈ step.workspaceRelative, canonicalName name = true) :
    Sound (step.leaves session) := by
  unfold PrepareStep.leaves
  cases ran : step.prepare ⟨session, step.operations⟩ with
  | error e disk =>
    rcases prepare_stops ran with lost | same
    · exact Sound.of_lost lost
    · exact (show disk.session = session from same).symm ▸ sound
  | ok done disk =>
    obtain ⟨valid, short, mirror, success, same⟩ :=
      (settles_prepare step.env step.tree step.workspaceRelative step.listed step.overlay).mp
        ⟨step.operations, disk.operations, ran⟩
    obtain ⟨plain, recorded⟩ := sound.kept
    obtain ⟨plainAfter, recordedAfter⟩ :=
      synchronizedMirror_recorded plain recorded names valid success
    have shown : (storeOf (EStateM.Result.ok done disk : EStateM.Result OverlayError Disk Unit)).session =
        preparedSession step.env step.tree step.workspaceRelative step.listed step.overlay mirror :=
      same
    rw [shown]
    refine ⟨fun _ => plainAfter, fun _ => ?_⟩
    rw [SessionDirectory.recorded, previous_preparedSession short]
    exact recordedAfter

theorem not_recorded_new (text : String) : text ∉ SessionDirectory.new.recorded.paths :=
  Std.ExtTreeSet.not_mem_empty

/-- Nothing is stale in a new session. -/
theorem stalePaths_new (current : MirrorManifest) : stalePaths .new current = [] := by
  simp [stalePaths, MirrorManifest.new]

section Blocked
variable {session : SessionDirectory} {step : PrepareStep}

/-- A file left by an earlier preparation stands above no listed file. -/
theorem Unobstructed.open_files (clear : Unobstructed session step) {mirror : Tree}
    (recorded : Recorded mirror session.recorded.paths) {path : Path} (solid : mirror.Solid path) :
    ∀ file, ListedFile step.tree step.listed file → path <+: file → path = file := by
  intro file listed above
  obtain ⟨text, known, leads⟩ := recorded path solid
  rw [← leads.target] at above ⊢
  exact clear.files text known file listed above

theorem Unobstructed.open_workspace (clear : Unobstructed session step) {mirror : Tree}
    (recorded : Recorded mirror session.recorded.paths) :
    (mirror.makeDirs step.workspaceRelative).isSome = true := by
  rw [Entries.makeDirs_isSome]
  intro path above solid
  obtain ⟨text, known, leads⟩ := recorded path solid
  rw [← leads.target] at above
  exact clear.workspace text known above

/-- A file that the removals leave in place, and that is not listed, stands above no
document. -/
theorem Unobstructed.open_documents (clear : Unobstructed session step)
    (valid : validate step.overlay = .ok ())
    (endings : ∀ document ∈ step.overlay.documents, endsInDot document.path = false) {path : Path}
    (unlisted : ¬ ListedFile step.tree step.listed path) {text : String}
    (old : text ∈ session.recorded.paths) (leads : Leads text path)
    (current : text ∈ (currentManifest step.env step.tree step.workspaceRelative step.listed
      step.overlay).paths) :
    ∀ document ∈ step.overlay.documents,
      path <+: documentTarget step.workspaceRelative document →
        path = documentTarget step.workspaceRelative document := by
  intro document member above
  rcases mem_currentManifest.mp current with ⟨bytes, inside, ⟨file, names⟩, rfl⟩ | ⟨own, inside, rfl⟩
  · have same : file = path := names.2.symm.trans leads.target
    exact absurd ⟨bytes, inside, same ▸ names⟩ unlisted
  · have target := (leads_document (clear.names (List.ne_nil_of_mem inside))
      (validate_documents valid own inside) (endings own inside)).target
    rw [leads.target] at target
    subst target
    exact clear.documents own inside old document member above

/-- A file of the mirror at or above the workspace's directory, or above a file that is
listed now, makes the preparation fail. -/
theorem not_succeeds_of_solid (sound : Sound session) {path : Path}
    (solid : session.kept.tree.Solid path)
    (obstructs : path <+: step.workspaceRelative ∨
      ∃ file, ListedFile step.tree step.listed file ∧ path <+: file ∧ path ≠ file) :
    ¬ step.Succeeds session := by
  rintro ⟨after, settled⟩
  obtain ⟨-, -, mirror, success, -⟩ := (settles_prepare step.env step.tree step.workspaceRelative
    step.listed step.overlay).mp settled
  obtain ⟨made, placed, kept, first, second, -⟩ := synchronizedMirror_parts.mp success
  have plain := sound.kept.1
  rcases obstructs with above | ⟨file, listed, above, different⟩
  · exact Entries.makeDirs_isSome.mp (Option.isSome_of_mem first) path above solid
  · have still := (Entries.solid_makeDirs plain.distinct first path).mpr solid
    exact different (placeAll_open (plain.makeDirs first) second still listed above)

/-- In an unobstructed session a preparation succeeds if it would in a new one. -/
theorem Unobstructed.notBlocked (clear : Unobstructed session step) (sound : Sound session) :
    NotBlocked session step := by
  rintro ⟨_, fresh⟩
  obtain ⟨valid, short, last, success, -⟩ := (settles_prepare step.env step.tree
    step.workspaceRelative step.listed step.overlay).mp fresh
  obtain ⟨made', placed', kept', first', second', third', fourth'⟩ :=
    synchronizedMirror_parts.mp success
  obtain ⟨plainPlaced', -, covers⟩ := placeAll_effect (Entries.Plain.nil.makeDirs first') second'
  have unstale : kept' = placed' := by
    have nothing := third'
    rw [show SessionDirectory.new.previous.getD .new = .new from rfl, stalePaths_new] at nothing
    exact (Option.some.inj nothing).symm
  subst unstale
  obtain ⟨-, endings, -⟩ := writeAll_effect plainPlaced' fourth'
  obtain ⟨plain, recorded⟩ := sound.kept
  -- The directories, the listed files and the removals.
  obtain ⟨made, first⟩ := Option.isSome_iff_exists.mp (clear.open_workspace recorded)
  have plainMade := plain.makeDirs first
  have solidMade := Entries.solid_makeDirs plain.distinct first
  have listing : (placeAll step.env step.tree step.listed session.recorded made).isSome = true := by
    refine placeAll_isSome (Option.isSome_of_mem second') plainMade fun path solid => ?_
    exact clear.open_files recorded ((solidMade path).mp solid)
  obtain ⟨placed, second⟩ := Option.isSome_iff_exists.mp listing
  obtain ⟨plainPlaced, appear, -⟩ := placeAll_effect plainMade second
  obtain ⟨kept, third⟩ := Option.isSome_iff_exists.mp (removeAll_isSome (stalePaths session.recorded
    (currentManifest step.env step.tree step.workspaceRelative step.listed step.overlay)) placed)
  obtain ⟨plainKept, stay⟩ := removeAll_effect plainPlaced third
  -- The documents: what stands above one would also stand there in a new session.
  have writing : (step.overlay.documents.foldlM (fun mirror document =>
      withDocument step.env step.workspaceRelative document mirror) kept).isSome = true := by
    refine writeAll_isSome plainPlaced' plainKept (Option.isSome_of_mem fourth') fun path solid => ?_
    by_cases listed : ListedFile step.tree step.listed path
    · exact .inl (covers path (.inr listed))
    · rcases appear path (stay path solid).1 with old | file
      · obtain ⟨text, known, leads⟩ := recorded path ((solidMade path).mp old)
        exact .inr (clear.open_documents valid endings listed known leads
          (leads_current plainPlaced third solid known leads))
      · exact absurd file listed
  obtain ⟨after, fourth⟩ := Option.isSome_iff_exists.mp writing
  have synchronized := synchronizedMirror_parts.mpr ⟨made, placed, kept, first, second, third, fourth⟩
  exact ⟨_, (settles_prepare step.env step.tree step.workspaceRelative step.listed
    step.overlay).mpr ⟨valid, short, after, synchronized, rfl⟩⟩

end Blocked

/-- Where every preparation of a run is unobstructed, none is blocked by what an earlier
one left in the mirror. -/
theorem prepares_not_blocked (steps : List PrepareStep)
    (met : Along prepareStep Unobstructed .new steps) : Along prepareStep NotBlocked .new steps := by
  refine along_of_invariant prepareStep Sound.new ?_ ?_ met
  · rintro session step after sound clear stepped
    cases stepped
    exact sound.leaves step clear.names
  · exact fun session step sound clear => clear.notBlocked sound

def plainEnv : PrepareEnv where
  sha256 := id
  encodedLength _ := 2
  clock _ := 0
  setsTimes _ := true
  torn := id

/-- A repository with these files, and what git lists of it. -/
def listing (tree : Tree) (paths : String) : PrepareStep :=
  ⟨plainEnv, tree, [], .ok ⟨true, utf8 paths⟩, ⟨"session", []⟩, 64⟩

/-- `a` is a file. -/
def fileListed : PrepareStep := listing (.cons (.ofText "a") (.file ⟨[1], 0⟩) .nil) "a\x00"

/-- `a` is a directory with a file in it. -/
def directoryListed : PrepareStep :=
  listing (.cons (.ofText "a") (.dir (.cons (.ofText "b") (.file ⟨[1], 0⟩) .nil)) .nil) "a/b\x00"

theorem directory_succeeds : directoryListed.Succeeds .new := by
  have success : (synchronizedMirror plainEnv directoryListed.tree [] directoryListed.listed
      directoryListed.overlay .new .nil).isSome = true := by decide +kernel
  obtain ⟨after, synchronized⟩ := Option.isSome_iff_exists.mp success
  exact ⟨_, (settles_prepare plainEnv directoryListed.tree [] directoryListed.listed
    directoryListed.overlay).mpr ⟨by decide +kernel, by decide, after, synchronized, rfl⟩⟩

theorem directory_listed : ListedFile directoryListed.tree directoryListed.listed
    [.ofText "a", .ofText "b"] :=
  ⟨utf8 "a/b", by decide +kernel, ⟨⟨[1], 0⟩, by decide +kernel⟩, by decide +kernel⟩

theorem file_left : (fileListed.leaves .new).kept.tree.Solid [.ofText "a"] :=
  ⟨.file ⟨[1], 0⟩, by decide +kernel, by simp⟩

/-- The file that the first preparation mirrored stands where the second one makes a
directory, which it would do without trouble in an empty session directory. -/
theorem directory_after_file_blocked :
    ¬ ∀ steps : List PrepareStep, Along prepareStep NotBlocked .new steps := by
  intro claim
  obtain ⟨-, second⟩ := claim [fileListed, directoryListed]
  have sound : Sound (fileListed.leaves .new) :=
    Sound.new.leaves fileListed (absurd rfl)
  have above : ([.ofText "a"] : Path) <+: [.ofText "a", .ofText "b"] := ⟨[.ofText "b"], rfl⟩
  exact not_succeeds_of_solid sound file_left (.inr ⟨_, directory_listed, above, by simp⟩)
    ((second _ rfl).1 directory_succeeds)

theorem directory_unobstructed : Unobstructed .new directoryListed where
  names some := absurd rfl some
  workspace text known := absurd known (not_recorded_new text)
  files text known := absurd known (not_recorded_new text)
  documents document member := by cases member

theorem file_unobstructed : Unobstructed (directoryListed.leaves .new) fileListed := by
  have recorded : (directoryListed.leaves .new).recorded.paths.toList = ["a/b"] := by decide +kernel
  have only : ∀ text ∈ (directoryListed.leaves .new).recorded.paths,
      pathFromSlashes text = [.ofText "a", .ofText "b"] := by
    intro text known
    rw [← Std.ExtTreeSet.mem_toList, recorded, List.mem_singleton] at known
    subst known
    decide +kernel
  refine ⟨absurd rfl, ?_, ?_, by simp [fileListed, listing]⟩
  · intro text known above
    rw [only text known] at above
    simp [fileListed, listing] at above
  · rintro text known path ⟨bytes, member, -, rfl⟩ above
    have listed : (listedFields fileListed.listed).getD [] = [utf8 "a"] := by decide +kernel
    rw [listed, List.mem_singleton] at member
    subst member
    have short : pathFromSlashes (gitPath (utf8 "a")) = [.ofText "a"] := by decide +kernel
    rw [only text known, short] at above
    exact absurd above.length_le (by decide)

/-- The other way round the directory is cleared before the file is copied. -/
theorem prepares_not_blocked_demo :
    Along prepareStep NotBlocked .new [directoryListed, fileListed] := by
  apply prepares_not_blocked
  refine ⟨directory_unobstructed, fun session first => ?_⟩
  obtain rfl : directoryListed.leaves .new = session := Option.some.inj first
  exact ⟨file_unobstructed, fun _ _ => trivial⟩

end Walaru.Overlay
