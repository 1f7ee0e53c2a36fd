import Walaru.Source.Daemon.OverlayPaths

/-!
# What a preparation does to the mirror

With enough operations a preparation either fails or leaves one session directory. Each
part of it acts on the mirror as a function of the mirror alone, so that the whole
preparation comes down to one such function and a few checks of its inputs.
-/
namespace Walaru.Overlay
open Lib.Text Lib.FileTree Lib.StateResult

section Settles
variable {α β : Type} {x : PrepareM α} {s t u : SessionDirectory}

/-- With enough operations the computation answers `a` and leaves `t`. -/
def Settles (x : PrepareM α) (s : SessionDirectory) (a : α) (t : SessionDirectory) : Prop :=
  ∃ n k, x ⟨s, n⟩ = .ok a ⟨t, k⟩

/-- Operations that are left over change nothing. -/
def Metered (x : PrepareM α) : Prop :=
  ∀ s n a t k, x ⟨s, n⟩ = .ok a ⟨t, k⟩ → ∀ extra, x ⟨s, n + extra⟩ = .ok a ⟨t, k + extra⟩

theorem Metered.pure (a : α) : Metered (pure a) := by
  intro s n b t k run extra
  obtain ⟨rfl, same⟩ := pure_ok.mp run
  cases same
  rfl

theorem Metered.throw (e : OverlayError) : Metered (throw e : PrepareM α) := by
  intro s n b t k run
  exact absurd run (by simp)

theorem Metered.answer (r : Except OverlayError α) : Metered (answer r) := by
  cases r with
  | ok a => exact Metered.pure a
  | error e => exact Metered.throw e

theorem Metered.mirrorTree : Metered mirrorTree := by
  intro s n b t k run extra
  cases run
  rfl

theorem Metered.onSession (act : SessionDirectory → SessionDirectory) : Metered (onSession act) := by
  intro s n a t k run extra
  cases n with
  | zero => cases run
  | succ n =>
    cases run
    rw [Nat.succ_add]
    rfl

theorem Metered.onMirror (env : PrepareEnv) (act : Option Tree → Option (Option Tree)) :
    Metered (onMirror env act) := by
  intro s n a t k run extra
  unfold Overlay.onMirror at run ⊢
  cases acted : act s.mirror with
  | none => cases n <;> simp [acted] at run
  | some mirror =>
    cases n with
    | zero => simp at run
    | succ n =>
      simp only [acted, EStateM.Result.ok.injEq, Disk.mk.injEq, true_and] at run
      obtain ⟨rfl, rfl⟩ := run
      rw [Nat.succ_add]

theorem Metered.inMirror (env : PrepareEnv) (act : Tree → Option Tree) : Metered (inMirror env act) :=
  Metered.onMirror env _

theorem Metered.bind {f : α → PrepareM β} (first : Metered x) (later : ∀ a, Metered (f a)) :
    Metered (x >>= f) := by
  intro s n b t k run extra
  obtain ⟨a, ⟨u, m⟩, here, rest⟩ := bind_ok.mp run
  refine bind_ok.mpr ⟨a, ⟨u, m + extra⟩, ?_, ?_⟩
  · exact first s n a u m here extra
  · exact later a u m b t k rest extra

theorem Metered.foldlM {f : β → α → PrepareM β} (each : ∀ b a, Metered (f b a)) (items : List α)
    (b : β) : Metered (items.foldlM f b) := by
  induction items generalizing b with
  | nil => exact Metered.pure b
  | cons a items ih =>
    rw [List.foldlM_cons]
    exact (each b a).bind fun b' => ih b'

theorem Metered.forM {f : α → PrepareM PUnit} (each : ∀ a, Metered (f a)) (items : List α) :
    Metered (items.forM f) := by
  induction items with
  | nil => exact Metered.pure _
  | cons a items ih => exact (each a).bind fun _ => ih

theorem settles_bind {f : α → PrepareM β} {b : β} (first : Metered x) (later : ∀ a, Metered (f a)) :
    Settles (x >>= f) s b t ↔ ∃ a u, Settles x s a u ∧ Settles (f a) u b t := by
  constructor
  · rintro ⟨n, k, run⟩
    obtain ⟨a, ⟨u, m⟩, here, rest⟩ := bind_ok.mp run
    exact ⟨a, u, ⟨n, m, here⟩, ⟨m, k, rest⟩⟩
  · rintro ⟨a, u, ⟨n, m, here⟩, ⟨n', k, rest⟩⟩
    refine ⟨n + n', m + k, bind_ok.mpr ⟨a, ⟨u, m + n'⟩, first s n a u m here n', ?_⟩⟩
    have more := later a u n' b t k rest m
    rwa [Nat.add_comm m n', Nat.add_comm m k]

@[simp] theorem settles_pure {a b : α} : Settles (pure a) s b t ↔ a = b ∧ s = t := by
  constructor
  · rintro ⟨n, k, run⟩
    obtain ⟨rfl, same⟩ := pure_ok.mp run
    cases same
    exact ⟨rfl, rfl⟩
  · rintro ⟨rfl, rfl⟩
    exact ⟨0, 0, rfl⟩

@[simp] theorem settles_throw {e : OverlayError} {a : α} :
    Settles (throw e : PrepareM α) s a t ↔ False := by
  simp [Settles]

@[simp] theorem settles_mirrorTree {tree : Tree} :
    Settles mirrorTree s tree t ↔ tree = s.tree ∧ s = t := by
  constructor
  · rintro ⟨n, k, run⟩
    cases run
    exact ⟨rfl, rfl⟩
  · rintro ⟨rfl, rfl⟩
    exact ⟨0, 0, rfl⟩

@[simp] theorem settles_onSession {act : SessionDirectory → SessionDirectory} {a : Unit} :
    Settles (onSession act) s a t ↔ t = act s := by
  constructor
  · rintro ⟨n, k, run⟩
    cases n with
    | zero => cases run
    | succ n =>
      cases run
      rfl
  · rintro rfl
    exact ⟨1, 0, rfl⟩

@[simp] theorem settles_onMirror {env : PrepareEnv} {act : Option Tree → Option (Option Tree)}
    {a : Unit} : Settles (onMirror env act) s a t ↔
      ∃ mirror, act s.mirror = some mirror ∧ t = { s with mirror := mirror } := by
  constructor
  · rintro ⟨n, k, run⟩
    unfold onMirror at run
    cases acted : act s.mirror with
    | none => cases n <;> simp [acted] at run
    | some mirror =>
      cases n with
      | zero => simp at run
      | succ n =>
        simp only [acted, EStateM.Result.ok.injEq, Disk.mk.injEq] at run
        exact ⟨mirror, rfl, run.2.1.symm⟩
  · rintro ⟨mirror, acted, rfl⟩
    refine ⟨1, 0, ?_⟩
    simp only [onMirror, acted]

end Settles

/-- The session with this mirror. -/
def SessionDirectory.holding (session : SessionDirectory) (mirror : Tree) : SessionDirectory :=
  { session with mirror := some mirror }

@[simp] theorem SessionDirectory.holding_holding (session : SessionDirectory) (first second : Tree) :
    (session.holding first).holding second = session.holding second := rfl

/-- On this mirror the computation answers `a` and turns the mirror into the result, or
fails if there is none; it touches nothing else. -/
structure Turns {α : Type} (x : PrepareM α) (mirror : Tree) (a : α) (result : Option Tree) : Prop where
  metered : Metered x
  settles : ∀ (s : SessionDirectory) b t, Settles x (s.holding mirror) b t ↔
    b = a ∧ ∃ after, result = some after ∧ t = s.holding after

section Turns
variable {α β : Type} {x : PrepareM α} {mirror : Tree} {a : α} {result : Option Tree}

theorem Turns.pure (mirror : Tree) (a : α) : Turns (pure a) mirror a (some mirror) where
  metered := Metered.pure a
  settles s b t := by
    rw [settles_pure]
    constructor
    · rintro ⟨rfl, rfl⟩
      exact ⟨rfl, mirror, rfl, rfl⟩
    · rintro ⟨rfl, after, same, rfl⟩
      cases same
      exact ⟨rfl, rfl⟩

/-- A computation that fails answers anything. -/
theorem Turns.fail {x : PrepareM α} (metered : Metered x) (fails : ∀ s b t, ¬ Settles x s b t)
    (mirror : Tree) (a : α) : Turns x mirror a none where
  metered := metered
  settles s b t := by
    constructor
    · exact fun run => absurd run (fails _ b t)
    · rintro ⟨-, after, none_, -⟩
      cases none_

theorem Turns.inMirror (env : PrepareEnv) (act : Tree → Option Tree) (mirror : Tree) :
    Turns (inMirror env act) mirror () (act mirror) where
  metered := Metered.inMirror env act
  settles s b t := by
    unfold Overlay.inMirror
    rw [settles_onMirror]
    cases acted : act mirror with
    | none => simp [SessionDirectory.holding, acted]
    | some after => simp [SessionDirectory.holding, acted]

theorem Turns.bind {f : α → PrepareM β} {b : β} {next : Tree → Option Tree}
    (first : Turns x mirror a result) (later : ∀ a, Metered (f a))
    (step : ∀ after, result = some after → Turns (f a) after b (next after)) :
    Turns (x >>= f) mirror b (result.bind next) where
  metered := first.metered.bind later
  settles s c t := by
    rw [settles_bind first.metered later]
    constructor
    · rintro ⟨a', u, here, rest⟩
      obtain ⟨rfl, after, made, rfl⟩ := (first.settles s a' u).mp here
      obtain ⟨rfl, last, turned, rfl⟩ := ((step after made).settles s c t).mp rest
      exact ⟨rfl, last, by rw [made, Option.bind_some, turned], rfl⟩
    · rintro ⟨rfl, last, turned, rfl⟩
      obtain ⟨after, made, turned⟩ := Option.bind_eq_some_iff.mp turned
      refine ⟨a, s.holding after, (first.settles s a _).mpr ⟨rfl, after, made, rfl⟩, ?_⟩
      exact ((step after made).settles s c _).mpr ⟨rfl, last, turned, rfl⟩

/-- Reading the mirror first changes nothing. -/
theorem Turns.reading {f : Tree → PrepareM β} {b : β} (later : ∀ tree, Metered (f tree))
    (step : Turns (f mirror) mirror b result) : Turns (mirrorTree >>= f) mirror b result where
  metered := Metered.mirrorTree.bind later
  settles s c t := by
    rw [settles_bind Metered.mirrorTree later]
    constructor
    · rintro ⟨tree, u, here, rest⟩
      obtain ⟨rfl, rfl⟩ := settles_mirrorTree.mp here
      exact (step.settles s c t).mp rest
    · intro turned
      refine ⟨mirror, s.holding mirror, settles_mirrorTree.mpr ⟨rfl, rfl⟩, ?_⟩
      exact (step.settles s c t).mpr turned

/-- A fold whose steps answer what does not depend on the mirror. -/
theorem Turns.foldlM {f : β → α → PrepareM β} {answer : β → α → β} {act : α → Tree → Option Tree}
    (each : ∀ b a mirror, Turns (f b a) mirror (answer b a) (act a mirror)) (items : List α) (b : β)
    (mirror : Tree) :
    Turns (items.foldlM f b) mirror (items.foldl answer b)
      (items.foldlM (fun mirror a => act a mirror) mirror) := by
  induction items generalizing b mirror with
  | nil => exact Turns.pure mirror b
  | cons a items ih =>
    rw [List.foldlM_cons, List.foldl_cons, List.foldlM_cons]
    refine (each b a mirror).bind (fun b' => ?_) fun after _ => ih (answer b a) after
    exact Metered.foldlM (fun b a => (each b a mirror).metered) items b'

theorem Turns.forM {f : α → PrepareM PUnit} {act : α → Tree → Option Tree}
    (each : ∀ a mirror, Turns (f a) mirror () (act a mirror)) (items : List α) (mirror : Tree) :
    Turns (items.forM f) mirror () (items.foldlM (fun mirror a => act a mirror) mirror) := by
  induction items generalizing mirror with
  | nil => exact Turns.pure mirror ()
  | cons a items ih =>
    rw [List.foldlM_cons]
    refine (each a mirror).bind (fun _ => ?_) fun after _ => ih after
    exact Metered.forM (fun a => (each a mirror).metered) items

end Turns

section Parts
variable (env : PrepareEnv)

def mirroredFile (source : FileData) (destination : Path) (relative : String)
    (previous : MirrorManifest) (mirror : Tree) : Option Tree :=
  if reusable env previous source relative (mirror.look destination) = true then some mirror
  else
    mirror.place destination
      ⟨source.contents, if env.setsTimes destination then source.modified else env.clock destination⟩

def recordFile (source : FileData) (relative : String) (current : MirrorManifest) : MirrorManifest :=
  { current with
    paths := current.paths.insert relative
    digests := current.digests.insert relative (fileDigest env source.contents) }

theorem turns_copyInput (destination : Path) (source : FileData) (mirror : Tree) :
    Turns (copyInput env destination source) mirror ()
      ((mirror.discard destination).bind (Entries.write destination
        ⟨source.contents, if env.setsTimes destination then source.modified else env.clock destination⟩)) := by
  unfold copyInput
  exact (Turns.inMirror env _ mirror).bind (fun _ => Metered.inMirror env _)
    fun after _ => Turns.inMirror env _ after

theorem turns_mirrorFile (source : FileData) (destination : Path) (relative : String)
    (previous current : MirrorManifest) (mirror : Tree) :
    Turns (mirrorFile env source destination relative previous current) mirror
      (recordFile env source relative current)
      (mirroredFile env source destination relative previous mirror) := by
  have copied : Turns (do
      inMirror env (Entries.makeDirs destination.dropLast)
      copyInput env destination source
      return recordFile env source relative current) mirror (recordFile env source relative current)
      (mirror.place destination ⟨source.contents,
        if env.setsTimes destination then source.modified else env.clock destination⟩) := by
    have made := (Turns.inMirror env (Entries.makeDirs destination.dropLast) mirror).bind
      (fun _ => (turns_copyInput env destination source mirror).metered.bind fun _ =>
        Metered.pure (recordFile env source relative current))
      fun after _ => (turns_copyInput env destination source after).bind (fun _ => Metered.pure _)
        fun last _ => Turns.pure last (recordFile env source relative current)
    simpa [Entries.place, Option.bind_assoc] using made
  unfold mirrorFile mirroredFile
  refine Turns.reading (fun tree => ?_) ?_
  · split
    · exact copied.metered
    · exact Metered.pure _
  · by_cases reuse : reusable env previous source relative (mirror.look destination) = true
    · rw [if_pos reuse, if_neg (by simp [reuse])]
      exact Turns.pure mirror _
    · rw [if_neg reuse, if_pos (by simpa using reuse)]
      exact copied

/-- A listed path that names a regular file is mirrored; one that is no path text ends it all. -/
def placeListed (tree : Tree) (previous : MirrorManifest) (bytes : List UInt8) (mirror : Tree) :
    Option Tree :=
  match validateRelativePath (gitPath bytes) with
  | .error _ => none
  | .ok () =>
    match regularAt tree (gitPath bytes) with
    | some source =>
      mirroredFile env source (pathFromSlashes (gitPath bytes)) (gitPath bytes) previous mirror
    | none => some mirror

def recordListed (tree : Tree) (current : MirrorManifest) (bytes : List UInt8) : MirrorManifest :=
  match regularAt tree (gitPath bytes) with
  | some source => recordFile env source (gitPath bytes) current
  | none => current

theorem turns_mirrorListed (tree : Tree) (previous current : MirrorManifest) (bytes : List UInt8)
    (mirror : Tree) :
    Turns (mirrorListed env tree previous current bytes) mirror (recordListed env tree current bytes)
      (placeListed env tree previous bytes mirror) := by
  unfold mirrorListed placeListed recordListed
  cases validateRelativePath (gitPath bytes) with
  | error e =>
    refine Turns.fail ?_ ?_ mirror _
    · refine (Metered.answer _).bind fun _ => ?_
      split
      · exact (turns_mirrorFile env _ _ _ previous current mirror).metered
      · exact Metered.pure _
    · rintro s b t ⟨n, k, run⟩
      obtain ⟨a, u, answered, -⟩ := bind_ok.mp run
      cases (answer_ok.mp answered).1
  | ok done =>
    cases regularAt tree (gitPath bytes) with
    | some source => exact turns_mirrorFile env source _ _ previous current mirror
    | none => exact Turns.pure mirror current

/-- The paths that a finished `git ls-files` lists. -/
def listedFields : Except String CommandOutput → Option (List (List UInt8))
  | .error _ => none
  | .ok output => if output.success = false then none else some (nulFields output.stdout)

def placeAll (tree : Tree) (listed : Except String CommandOutput) (previous : MirrorManifest)
    (mirror : Tree) : Option Tree :=
  (listedFields listed).bind fun fields =>
    fields.foldlM (fun mirror bytes => placeListed env tree previous bytes mirror) mirror

def recordAll (tree : Tree) (listed : Except String CommandOutput) : MirrorManifest :=
  ((listedFields listed).getD []).foldl (recordListed env tree) .new

theorem turns_mirrorRepository (tree : Tree) (listed : Except String CommandOutput)
    (previous : MirrorManifest) (mirror : Tree) :
    Turns (mirrorRepository env tree listed previous) mirror (recordAll env tree listed)
      (placeAll env tree listed previous mirror) := by
  have fails : Turns (throw .io : PrepareM MirrorManifest) mirror (recordAll env tree listed) none :=
    Turns.fail (Metered.throw _) (fun s b t => by simp) mirror _
  unfold mirrorRepository placeAll
  cases listed with
  | error message => exact fails
  | ok output =>
    cases finished : output.success with
    | false => simpa [listedFields, finished] using fails
    | true =>
      have folded := Turns.foldlM (turns_mirrorListed env tree previous) (nulFields output.stdout) .new
        mirror
      simpa [listedFields, recordAll, finished] using folded

def withoutStale (removed : String) (mirror : Tree) : Option Tree :=
  match staleTarget mirror removed with
  | some target => if mirror.isLeaf target then mirror.discard target else some mirror
  | none => some mirror

theorem turns_removeStale (removed : String) (mirror : Tree) :
    Turns (removeStale env removed) mirror () (withoutStale removed mirror) := by
  unfold removeStale withoutStale
  refine Turns.reading (fun tree => ?_) ?_
  · cases staleTarget tree removed with
    | none => exact Metered.pure _
    | some target =>
      simp only
      split
      · exact Metered.inMirror env _
      · exact Metered.pure _
  · cases staleTarget mirror removed with
    | none => exact Turns.pure mirror _
    | some target =>
      simp only
      split
      · exact Turns.inMirror env _ mirror
      · exact Turns.pure mirror _

def withDocument (workspaceRelative : Path) (document : OverlayDocument) (mirror : Tree) :
    Option Tree :=
  if endsInDot document.path then none
  else
    mirror.place (documentTarget workspaceRelative document)
      ⟨utf8 document.content, env.clock (documentTarget workspaceRelative document)⟩

theorem turns_writeDocument (workspaceRelative : Path) (document : OverlayDocument) (mirror : Tree) :
    Turns (writeDocument env workspaceRelative document) mirror ()
      (withDocument env workspaceRelative document mirror) := by
  have written := (Turns.inMirror env
      (Entries.makeDirs (documentTarget workspaceRelative document).dropLast) mirror).bind
    (fun _ => (Metered.inMirror env _).bind fun _ => Metered.inMirror env _)
    fun made _ => (Turns.inMirror env
      (Entries.discard (documentTarget workspaceRelative document)) made).bind
      (fun _ => Metered.inMirror env _)
      fun cleared _ => Turns.inMirror env (fun mirror =>
        if endsInDot document.path then none
        else mirror.write (documentTarget workspaceRelative document)
          ⟨utf8 document.content, env.clock (documentTarget workspaceRelative document)⟩) cleared
  unfold withDocument
  by_cases dotted : endsInDot document.path = true
  · simpa [writeDocument, dotted] using written
  · simpa [writeDocument, dotted, Entries.place, Option.bind_assoc] using written

end Parts

section Prepare
variable (env : PrepareEnv) (tree : Tree) (workspaceRelative : Path)
  (listed : Except String CommandOutput) (overlay : OverlayRequest)

/-- The manifest that a preparation writes. -/
def currentManifest : MirrorManifest :=
  addDocuments workspaceRelative overlay.documents (recordAll env tree listed)

/-- The mirror after its directory, the listed files, the removals and the documents. -/
def synchronizedMirror (previous : MirrorManifest) (mirror : Tree) : Option Tree :=
  (mirror.makeDirs workspaceRelative).bind fun mirror =>
    (placeAll env tree listed previous mirror).bind fun mirror =>
      ((stalePaths previous (currentManifest env tree workspaceRelative listed overlay)).foldlM
        (fun mirror removed => withoutStale removed mirror) mirror).bind fun mirror =>
          overlay.documents.foldlM
            (fun mirror document => withDocument env workspaceRelative document mirror) mirror

/-- `synchronize` between the making of the mirror and the writing of the manifest. -/
def mirrorParts (previous : MirrorManifest) : PrepareM MirrorManifest := do
  inMirror env (Entries.makeDirs workspaceRelative)
  let mirrored ← mirrorRepository env tree listed previous
  let current := addDocuments workspaceRelative overlay.documents mirrored
  (stalePaths previous current).forM (removeStale env)
  overlay.documents.forM (writeDocument env workspaceRelative)
  return current

theorem synchronize_eq (previous : MirrorManifest) :
    synchronize env (.repository tree workspaceRelative listed) overlay previous = (do
      onMirror env fun mirror => some (some (mirror.getD .nil))
      let current ← mirrorParts env tree workspaceRelative listed overlay previous
      writeMirrorManifest env current) := by
  simp only [synchronize, mirrorParts, mirrorSource, MirrorSource.workspaceRelative, bind_assoc,
    pure_bind]

theorem turns_mirrorParts (previous : MirrorManifest) (mirror : Tree) :
    Turns (mirrorParts env tree workspaceRelative listed overlay previous) mirror
      (currentManifest env tree workspaceRelative listed overlay)
      (synchronizedMirror env tree workspaceRelative listed overlay previous mirror) := by
  have stale : ∀ current mirror, Turns ((stalePaths previous current).forM (removeStale env)) mirror
      () ((stalePaths previous current).foldlM (fun mirror removed => withoutStale removed mirror)
        mirror) :=
    fun current => Turns.forM (turns_removeStale env) _
  have documents : ∀ mirror, Turns (overlay.documents.forM (writeDocument env workspaceRelative))
      mirror () (overlay.documents.foldlM
        (fun mirror document => withDocument env workspaceRelative document mirror) mirror) :=
    Turns.forM (turns_writeDocument env workspaceRelative) overlay.documents
  have later : ∀ mirrored : MirrorManifest, Metered (do
      (stalePaths previous (addDocuments workspaceRelative overlay.documents mirrored)).forM
        (removeStale env)
      overlay.documents.forM (writeDocument env workspaceRelative)
      return addDocuments workspaceRelative overlay.documents mirrored) := by
    intro mirrored
    refine (stale _ mirror).metered.bind fun _ => ?_
    exact (documents mirror).metered.bind fun _ => Metered.pure _
  unfold mirrorParts synchronizedMirror
  refine (Turns.inMirror env _ mirror).bind (fun _ => ?_) fun made _ => ?_
  · exact (turns_mirrorRepository env tree listed previous mirror).metered.bind later
  · refine (turns_mirrorRepository env tree listed previous made).bind later fun placed _ => ?_
    refine (stale _ placed).bind (fun _ => (documents mirror).metered.bind fun _ => Metered.pure _)
      fun kept _ => ?_
    have written := (documents kept).bind (fun _ => Metered.pure _) fun after _ =>
      Turns.pure after (addDocuments workspaceRelative overlay.documents (recordAll env tree listed))
    simpa [currentManifest] using written

theorem settles_writeMirrorManifest {manifest : MirrorManifest} {s t : SessionDirectory} {a : Unit} :
    Settles (writeMirrorManifest env manifest) s a t ↔
      env.encodedLength manifest ≤ maxMirrorManifestBytes ∧
        t = { s with
          manifest := some ⟨env.encodedLength manifest, .manifest manifest⟩
          temporary := none } := by
  have metered := Metered.onSession
  unfold writeMirrorManifest
  by_cases long : maxMirrorManifestBytes < env.encodedLength manifest
  · rw [if_pos long]
    constructor
    · rintro ⟨n, k, run⟩
      obtain ⟨b, u, thrown, -⟩ := bind_ok.mp run
      exact absurd thrown (by simp)
    · exact fun both => absurd both.1 (by omega)
  · rw [if_neg long]
    simp only [settles_bind (metered _) fun _ => (metered _).bind fun _ => metered _,
      settles_bind (metered _) fun _ => metered _, settles_onSession]
    constructor
    · rintro ⟨_, u, rfl, _, v, rfl, rfl⟩
      exact ⟨by omega, rfl⟩
    · rintro ⟨-, rfl⟩
      exact ⟨(), _, rfl, (), _, rfl, rfl⟩

/-- What a preparation keeps of the session: nothing of a mirror without a manifest. -/
def SessionDirectory.kept (session : SessionDirectory) : SessionDirectory :=
  if session.previous = none then { session with mirror := none, manifest := none } else session

theorem metered_discardMirror (session : SessionDirectory) : Metered (discardMirror env session) := by
  unfold discardMirror
  split
  · split
    · exact (Metered.onMirror env _).bind fun _ => Metered.onSession _
    · exact Metered.onSession _
  · exact Metered.pure _

theorem settles_discardMirror {session t : SessionDirectory} {a : Unit} :
    Settles (discardMirror env session) session a t ↔ t = session.kept := by
  unfold discardMirror SessionDirectory.kept
  by_cases lost : session.previous = none
  · rw [if_pos lost, if_pos lost]
    cases shown : session.mirror with
    | none =>
      simp only [Option.isSome_none, Bool.false_eq_true, if_false]
      exact settles_onSession.trans (by rw [← shown])
    | some mirror =>
      simp only [Option.isSome_some, if_true]
      rw [settles_bind (Metered.onMirror env _) fun _ => Metered.onSession _]
      constructor
      · rintro ⟨_, u, removed, rest⟩
        obtain ⟨none_, same, rfl⟩ := settles_onMirror.mp removed
        cases same
        exact settles_onSession.mp rest
      · rintro rfl
        exact ⟨(), _, settles_onMirror.mpr ⟨none, rfl, rfl⟩, settles_onSession.mpr rfl⟩
  · rw [if_neg lost, if_neg lost]
    exact settles_pure.trans (by simp [eq_comm])

theorem settles_markPreparing {s t : SessionDirectory} {a : Unit} :
    Settles markPreparing s a t ↔ t = { s with preparing := true } := by
  unfold markPreparing
  simp only [settles_bind (Metered.onSession _) fun _ => Metered.onSession _, settles_onSession]
  constructor
  · rintro ⟨_, u, rfl, rfl⟩
    rfl
  · rintro rfl
    exact ⟨(), _, rfl, rfl⟩

theorem metered_markPreparing : Metered markPreparing :=
  (Metered.onSession _).bind fun _ => Metered.onSession _

theorem metered_writeMirrorManifest (manifest : MirrorManifest) :
    Metered (writeMirrorManifest env manifest) := by
  have written : Metered (do
      onSession fun session => { session with temporary := none }
      onSession fun session =>
        { session with temporary := some ⟨env.encodedLength manifest, .manifest manifest⟩ }
      onSession fun session => { session with manifest := session.temporary, temporary := none }) :=
    (Metered.onSession _).bind fun _ => (Metered.onSession _).bind fun _ => Metered.onSession _
  unfold writeMirrorManifest
  split
  · exact (Metered.throw _).bind fun _ => written
  · exact written

theorem metered_synchronize (previous : MirrorManifest) :
    Metered (synchronize env (.repository tree workspaceRelative listed) overlay previous) := by
  rw [synchronize_eq]
  refine (Metered.onMirror env _).bind fun _ => ?_
  refine (turns_mirrorParts env tree workspaceRelative listed overlay previous .nil).metered.bind ?_
  exact fun _ => metered_writeMirrorManifest env _

/-- The session directory that a successful preparation leaves. -/
def preparedSession (mirror : Tree) : SessionDirectory where
  mirror := some mirror
  manifest := some ⟨env.encodedLength (currentManifest env tree workspaceRelative listed overlay),
    .manifest (currentManifest env tree workspaceRelative listed overlay)⟩
  temporary := none
  preparing := false

theorem settles_synchronize {previous : MirrorManifest} {s t : SessionDirectory} {a : Unit} :
    Settles (synchronize env (.repository tree workspaceRelative listed) overlay previous) s a t ↔
      env.encodedLength (currentManifest env tree workspaceRelative listed overlay) ≤
          maxMirrorManifestBytes ∧
        ∃ after, synchronizedMirror env tree workspaceRelative listed overlay previous s.tree =
            some after ∧
          t = { preparedSession env tree workspaceRelative listed overlay after with
            preparing := s.preparing } := by
  have turns := turns_mirrorParts env tree workspaceRelative listed overlay previous
  rw [synchronize_eq, settles_bind (Metered.onMirror env _) fun _ => (turns .nil).metered.bind
    fun _ => metered_writeMirrorManifest env _]
  constructor
  · rintro ⟨_, u, made, rest⟩
    obtain ⟨mirror, same, rfl⟩ := settles_onMirror.mp made
    cases same
    obtain ⟨current, v, parts, written⟩ :=
      (settles_bind (turns .nil).metered fun _ => metered_writeMirrorManifest env _).mp rest
    obtain ⟨rfl, after, turned, rfl⟩ := ((turns s.tree).settles s current v).mp parts
    obtain ⟨short, rfl⟩ := (settles_writeMirrorManifest env).mp written
    exact ⟨short, after, turned, rfl⟩
  · rintro ⟨short, after, turned, rfl⟩
    refine ⟨(), s.holding s.tree, settles_onMirror.mpr ⟨_, rfl, rfl⟩, ?_⟩
    rw [settles_bind (turns .nil).metered fun _ => metered_writeMirrorManifest env _]
    exact ⟨_, s.holding after, ((turns s.tree).settles s _ _).mpr ⟨rfl, after, turned, rfl⟩,
      (settles_writeMirrorManifest env).mpr ⟨short, rfl⟩⟩

theorem settles_prepare_iff {source : MirrorSource} {s t : SessionDirectory} {a : Unit}
    (metered : Metered (synchronize env source overlay (s.previous.getD .new))) :
    Settles (prepare env source overlay) s a t ↔
      validate overlay = .ok () ∧
        ∃ u, Settles (synchronize env source overlay (s.previous.getD .new))
            { s.kept with preparing := true } () u ∧
          t = { u with preparing := false } := by
  have rest : Settles (prepare env source overlay) s a t ↔
      validate overlay = .ok () ∧ Settles (do
        discardMirror env s
        markPreparing
        synchronize env source overlay (s.previous.getD .new)
        onSession fun session => { session with preparing := false }) s a t := by
    unfold prepare Settles
    cases validate overlay with
    | error e => simp [bind_ok]
    | ok done =>
      constructor
      · exact fun run => ⟨rfl, run⟩
      · exact fun run => run.2
  rw [rest, settles_bind (metered_discardMirror env s) fun _ => metered_markPreparing.bind fun _ =>
    metered.bind fun _ => Metered.onSession _]
  refine and_congr_right fun _ => ?_
  constructor
  · rintro ⟨_, u, discarded, run⟩
    obtain rfl := (settles_discardMirror env).mp discarded
    obtain ⟨_, v, marked, run⟩ :=
      (settles_bind metered_markPreparing fun _ => metered.bind fun _ => Metered.onSession _).mp run
    obtain rfl := settles_markPreparing.mp marked
    obtain ⟨_, w, synchronized, last⟩ := (settles_bind metered fun _ => Metered.onSession _).mp run
    exact ⟨w, synchronized, settles_onSession.mp last⟩
  · rintro ⟨w, synchronized, rfl⟩
    refine ⟨(), s.kept, (settles_discardMirror env).mpr rfl, ?_⟩
    rw [settles_bind metered_markPreparing fun _ => metered.bind fun _ => Metered.onSession _]
    refine ⟨(), _, settles_markPreparing.mpr rfl, ?_⟩
    rw [settles_bind metered fun _ => Metered.onSession _]
    exact ⟨(), w, synchronized, settles_onSession.mpr rfl⟩

/-- A preparation succeeds when its request is valid, the manifest is short enough and the
mirror can be brought up to date; it leaves that mirror and its manifest. -/
theorem settles_prepare {s t : SessionDirectory} {a : Unit} :
    Settles (prepare env (.repository tree workspaceRelative listed) overlay) s a t ↔
      validate overlay = .ok () ∧
      env.encodedLength (currentManifest env tree workspaceRelative listed overlay) ≤
          maxMirrorManifestBytes ∧
        ∃ after, synchronizedMirror env tree workspaceRelative listed overlay
            (s.previous.getD .new) s.kept.tree = some after ∧
          t = preparedSession env tree workspaceRelative listed overlay after := by
  rw [settles_prepare_iff env overlay
    (metered_synchronize env tree workspaceRelative listed overlay (s.previous.getD .new))]
  refine and_congr_right fun _ => ?_
  constructor
  · rintro ⟨u, synchronized, rfl⟩
    obtain ⟨short, after, turned, rfl⟩ :=
      (settles_synchronize env tree workspaceRelative listed overlay).mp synchronized
    exact ⟨short, after, turned, rfl⟩
  · rintro ⟨short, after, turned, rfl⟩
    refine ⟨_, (settles_synchronize env tree workspaceRelative listed overlay).mpr
      ⟨short, after, turned, rfl⟩, ?_⟩
    rfl

end Prepare

section Stops
variable {env : PrepareEnv} {tree : Tree} {workspaceRelative : Path}
  {listed : Except String CommandOutput} {overlay : OverlayRequest} {P : SessionDirectory → Prop}

theorem preserves_onSession {act : SessionDirectory → SessionDirectory} (keeps : ∀ s, P s → P (act s)) :
    Preserves (fun disk : Disk => P disk.session) (onSession act) := by
  rintro ⟨session, operations⟩ holds
  cases operations with
  | zero => exact holds
  | succ operations => exact keeps session holds

theorem onSession_error {act : SessionDirectory → SessionDirectory} {u v : Disk} {e : OverlayError}
    (stopped : onSession act u = .error e v) : v = u := by
  unfold onSession at stopped
  split at stopped
  · cases stopped
    rfl
  · cases stopped

theorem preserves_onMirror {act : Option Tree → Option (Option Tree)}
    (keeps : ∀ s mirror, P s → P { s with mirror := mirror }) :
    Preserves (fun disk : Disk => P disk.session) (onMirror env act) := by
  rintro ⟨session, operations⟩ holds
  unfold onMirror
  cases act session.mirror with
  | none => cases operations <;> exact keeps session _ holds
  | some mirror => cases operations <;> exact keeps session _ holds

/-- The marker stays while the mirror is brought up to date, wherever that stops. -/
theorem synchronize_preparing (previous : MirrorManifest) :
    Preserves (fun disk : Disk => disk.session.preparing = true)
      (synchronize env (.repository tree workspaceRelative listed) overlay previous) := by
  have mirror : ∀ act, Preserves (fun disk : Disk => disk.session.preparing = true)
      (onMirror env act) :=
    fun act => preserves_onMirror (P := fun s => s.preparing = true) fun s mirror holds => holds
  have session : ∀ act : SessionDirectory → SessionDirectory, (∀ s, (act s).preparing = s.preparing) →
      Preserves (fun disk : Disk => disk.session.preparing = true) (onSession act) :=
    fun act same => preserves_onSession fun s holds => (same s).trans holds
  have reading : Preserves (fun disk : Disk => disk.session.preparing = true) mirrorTree :=
    fun _ holds => holds
  have file : ∀ source path relative current, Preserves (fun disk : Disk => disk.session.preparing = true)
      (mirrorFile env source path relative previous current) := by
    intro source path relative current
    unfold mirrorFile copyInput
    refine reading.bind fun found => ?_
    split
    · exact (mirror _).bind fun _ => ((mirror _).bind fun _ => mirror _).bind fun _ =>
        (ReadOnly.pure _).preserves
    · exact (ReadOnly.pure _).preserves
  have one : ∀ current bytes, Preserves (fun disk : Disk => disk.session.preparing = true)
      (mirrorListed env tree previous current bytes) := by
    intro current bytes
    unfold mirrorListed
    refine (ReadOnly.answer _).preserves.bind fun _ => ?_
    split
    · exact file _ _ _ _
    · exact (ReadOnly.pure _).preserves
  have repository : Preserves (fun disk : Disk => disk.session.preparing = true)
      (mirrorRepository env tree listed previous) := by
    unfold mirrorRepository
    split
    · exact (ReadOnly.throw _).preserves
    · split
      · exact (ReadOnly.throw _).preserves
      · exact Preserves.foldlM one _ _
  have stale : ∀ removed, Preserves (fun disk : Disk => disk.session.preparing = true)
      (removeStale env removed) := by
    intro removed
    unfold removeStale
    refine reading.bind fun found => ?_
    split
    · split
      · exact mirror _
      · exact (ReadOnly.pure _).preserves
    · exact (ReadOnly.pure _).preserves
  have document : ∀ document, Preserves (fun disk : Disk => disk.session.preparing = true)
      (writeDocument env workspaceRelative document) :=
    fun document => (mirror _).bind fun _ => (mirror _).bind fun _ => mirror _
  have manifest : ∀ current, Preserves (fun disk : Disk => disk.session.preparing = true)
      (writeMirrorManifest env current) := by
    intro current
    have written := (session (fun s => { s with temporary := none }) fun _ => rfl).bind fun _ =>
      (session (fun s => { s with
        temporary := some ⟨env.encodedLength current, .manifest current⟩ }) fun _ => rfl).bind fun _ =>
        session (fun s => { s with manifest := s.temporary, temporary := none }) fun _ => rfl
    unfold writeMirrorManifest
    split
    · exact (ReadOnly.throw _).preserves.bind fun _ => written
    · exact written
  unfold synchronize
  refine (mirror _).bind fun _ => (mirror _).bind fun _ => repository.bind fun mirrored => ?_
  exact (Preserves.forM stale _).bind fun _ => (Preserves.forM document _).bind fun _ => manifest _

theorem previous_of_preparing {s : SessionDirectory} (preparing : s.preparing = true) :
    s.previous = none := by
  rw [SessionDirectory.previous, preparing, if_pos rfl]

theorem preparing_of_previous {s : SessionDirectory} (known : s.previous ≠ none) :
    s.preparing = false := by
  by_contra marked
  exact known (previous_of_preparing (by simpa using marked))

theorem previous_of_manifest {s : SessionDirectory} (absent : s.manifest = none) :
    s.previous = none := by
  rw [SessionDirectory.previous, absent]
  split <;> rfl

/-- A preparation that stops leaves the session as it was, or nothing that the next one
relies on. -/
theorem prepare_stops {s : SessionDirectory} {n : Nat} {e : OverlayError} {disk : Disk}
    (run : prepare env (.repository tree workspaceRelative listed) overlay ⟨s, n⟩ = .error e disk) :
    disk.session.previous = none ∨ disk.session = s := by
  unfold prepare at run
  rcases bind_error.mp run with invalid | ⟨_, _, checked, run⟩
  · exact .inr (congrArg Disk.session (answer_error.mp invalid).2).symm
  obtain ⟨-, rfl⟩ := answer_ok.mp checked
  rcases bind_error.mp run with impossible | ⟨found, _, got, run⟩
  · cases impossible
  cases got
  have rest : ∀ {u : Disk} {d : Disk}, (synchronize env (.repository tree workspaceRelative listed)
      overlay (s.previous.getD .new) >>= fun _ =>
        onSession fun session => { session with preparing := false }) u = .error e d →
      u.session.preparing = true → d.session.previous = none := by
    intro u d stopped marked
    apply previous_of_preparing
    rcases bind_error.mp stopped with early | ⟨_, v, whole, last⟩
    · exact (synchronize_preparing _).error marked early
    · rw [onSession_error last]
      exact (synchronize_preparing _).ok marked whole
  by_cases lost : s.previous = none
  · have discards : Preserves (fun disk : Disk => disk.session.previous = none)
        (discardMirror env s) := by
      have second : Preserves (fun disk : Disk => disk.session.previous = none)
          (onSession fun session => { session with manifest := none }) :=
        preserves_onSession (P := fun s => s.previous = none) fun s _ => previous_of_manifest rfl
      have first : ∀ act, Preserves (fun disk : Disk => disk.session.previous = none)
          (onMirror env act) :=
        fun act => preserves_onMirror (P := fun s => s.previous = none) fun s mirror holds => holds
      unfold discardMirror
      rw [if_pos lost]
      split
      · exact (first _).bind fun _ => second
      · exact second
    have marks : Preserves (fun disk : Disk => disk.session.manifest = none) markPreparing := by
      refine Preserves.bind ?_ fun _ => ?_
      · exact preserves_onSession (P := fun s => s.manifest = none) fun s holds => holds
      · exact preserves_onSession (P := fun s => s.manifest = none) fun s holds => holds
    refine .inl ?_
    rcases bind_error.mp run with early | ⟨_, u, discarded, run⟩
    · exact discards.error lost early
    have gone : u.session.manifest = none := by
      have kept := (settles_discardMirror env).mp ⟨n, u.operations, discarded⟩
      rw [kept, SessionDirectory.kept, if_pos lost]
    rcases bind_error.mp run with early | ⟨_, v, marked, run⟩
    · exact previous_of_manifest (marks.error gone early)
    · have preparing := settles_markPreparing.mp ⟨u.operations, v.operations, marked⟩
      exact rest run (by rw [preparing])
  · have unmarked : ({ s with preparing := false } : SessionDirectory) = s := by
      rw [← preparing_of_previous lost]
    have kept : discardMirror env s = pure () := by
      rw [discardMirror, if_neg lost]
    rw [kept, pure_bind] at run
    rcases bind_error.mp run with early | ⟨_, v, marked, run⟩
    · rcases bind_error.mp early with first | ⟨_, w, cleared, second⟩
      · exact .inr (congrArg Disk.session (onSession_error first))
      · have same : w.session = s :=
          (settles_onSession.mp ⟨n, w.operations, cleared⟩).trans unmarked
        exact .inr ((congrArg Disk.session (onSession_error second)).trans same)
    · have preparing := settles_markPreparing.mp ⟨n, v.operations, marked⟩
      exact .inl (rest run (by rw [preparing]))

end Stops

end Walaru.Overlay
