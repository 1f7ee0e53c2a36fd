import Walaru.Guarantees.ImpactExact
import Walaru.Source.Daemon.GitImpactEffects

/-!
# Reading the records of a git diff

`git diff --name-status -z` writes two fields for most records and three for a renamed or
copied file, and the reader takes the fields in pairs. A record that is not a modification
stops it before the pairs go out of step, so a narrowed answer rests on modifications alone.
-/
namespace Walaru
open Lib.Text Lib.FileTree

inductive DiffStatus where
  | modified
  | added
  | deleted
  | typeChanged
  | unmerged
  deriving DecidableEq, Repr

def DiffStatus.letter : DiffStatus → String
  | modified => "M"
  | added => "A"
  | deleted => "D"
  | typeChanged => "T"
  | unmerged => "U"

inductive MoveStatus where
  | renamed
  | copied
  deriving DecidableEq, Repr

def MoveStatus.letter : MoveStatus → String
  | renamed => "R"
  | copied => "C"

inductive DiffRecord where
  | single (status : DiffStatus) (path : List UInt8)
  | moved (status : MoveStatus) (score : List UInt8) (old new : List UInt8)
  deriving DecidableEq

def DiffRecord.fields : DiffRecord → List (List UInt8)
  | single status path => [utf8 status.letter, path]
  | moved status score old new => [utf8 status.letter ++ score, old, new]

/-- Bytes that git can write as a field. -/
def Field (bytes : List UInt8) : Prop := bytes ≠ [] ∧ 0 ∉ bytes

instance (bytes : List UInt8) : Decidable (Field bytes) := inferInstanceAs (Decidable (_ ∧ _))

/-- Paths are not empty, and nothing holds a NUL. -/
def DiffRecord.WellFormed : DiffRecord → Prop
  | single _ path => Field path
  | moved _ score old new => 0 ∉ score ∧ Field old ∧ Field new

/-- Fields that each end with a NUL. -/
def joinFields (fields : List (List UInt8)) : List UInt8 := fields.flatMap fun field => field ++ [0]

def diffOutput (records : List DiffRecord) : List UInt8 := joinFields (records.flatMap DiffRecord.fields)

theorem nulFields_joinFields {fields : List (List UInt8)} (written : ∀ field ∈ fields, Field field) :
    nulFields (joinFields fields) = fields := by
  have pieces : (joinFields fields).splitOn 0 = fields ++ [[]] := by
    induction fields with
    | nil => rfl
    | cons field rest ih =>
      rw [List.forall_mem_cons] at written
      have split : joinFields (field :: rest) = field ++ 0 :: joinFields rest := by
        simp [joinFields]
      rw [split, List.splitOn_append_cons_self_of_not_mem written.1.2, ih written.2,
        List.cons_append]
  rw [nulFields, pieces, List.filter_append, List.filter_eq_self.mpr]
  · simp
  · intro field member
    simpa using (written field member).1

theorem DiffRecord.WellFormed.fields {record : DiffRecord} (good : record.WellFormed) :
    ∀ field ∈ record.fields, Field field := by
  cases record with
  | single status path =>
    have letter : Field (utf8 status.letter) := by cases status <;> decide
    have named : Field path := good
    simpa [DiffRecord.fields] using And.intro letter named
  | moved status score old new =>
    obtain ⟨clean, first, second⟩ := good
    have letter : Field (utf8 status.letter) := by cases status <;> decide
    have scored : Field (utf8 status.letter ++ score) := by
      refine ⟨fun empty => letter.1 (List.append_eq_nil_iff.mp empty).1, fun member => ?_⟩
      rcases List.mem_append.mp member with inside | inside
      · exact letter.2 inside
      · exact clean inside
    simpa [DiffRecord.fields] using And.intro scored (And.intro first second)

theorem nulFields_diffOutput {records : List DiffRecord} (good : ∀ record ∈ records, record.WellFormed) :
    nulFields (diffOutput records) = records.flatMap DiffRecord.fields := by
  apply nulFields_joinFields
  intro field member
  obtain ⟨record, listed, inside⟩ := List.mem_flatMap.mp member
  exact (good record listed).fields field inside

theorem status_modified {status : DiffStatus}
    (read : Lib.Utf8.decodeLossy (utf8 status.letter) = "M") : status = .modified := by
  rw [utf8, Lib.Utf8.decodeLossy_encode] at read
  cases status <;> first | rfl | simp [DiffStatus.letter] at read

/-- The field of a renamed or copied file is never read as a modification. -/
theorem moved_not_modified (status : MoveStatus) (score : List UInt8) :
    Lib.Utf8.decodeLossy (utf8 status.letter ++ score) ≠ "M" := by
  intro read
  have chars := congrArg String.toList read
  cases status <;>
    simp [MoveStatus.letter, utf8, Lib.Utf8.decodeLossy, Lib.Utf8.decodeGo_encodeChar] at chars

/-- Pairs that are all modifications are the records themselves. -/
theorem aligned_of_modified {records : List DiffRecord} {pairs : List (List UInt8 × List UInt8)}
    (chunked : chunkPairs (records.flatMap DiffRecord.fields) = some pairs)
    (modified : ∀ pair ∈ pairs, Lib.Utf8.decodeLossy pair.1 = "M") :
    ∃ paths : List (List UInt8), records = paths.map (DiffRecord.single .modified) ∧
      pairs = paths.map fun path => (utf8 "M", path) := by
  induction records generalizing pairs with
  | nil =>
    cases chunked
    exact ⟨[], rfl, rfl⟩
  | cons record rest ih =>
    cases record with
    | single status path =>
      simp only [List.flatMap_cons, DiffRecord.fields, List.cons_append, List.nil_append,
        chunkPairs, Option.map_eq_some_iff] at chunked
      obtain ⟨later, others, rfl⟩ := chunked
      rw [List.forall_mem_cons] at modified
      obtain rfl := status_modified modified.1
      obtain ⟨paths, rfl, rfl⟩ := ih others modified.2
      exact ⟨path :: paths, rfl, rfl⟩
    | moved status score old new =>
      -- the first pair is the status with the old path
      simp only [List.flatMap_cons, DiffRecord.fields, List.cons_append, chunkPairs,
        Option.map_eq_some_iff] at chunked
      obtain ⟨later, -, rfl⟩ := chunked
      rw [List.forall_mem_cons] at modified
      exact absurd modified.1 (moved_not_modified status score)

/-- An edited main source: its surface is that of the reference's blob, and tests are known. -/
structure SurfaceKept (env : GitImpactEnv) (s : EvidenceStore) (current : RevisionSnapshot)
    (reference path : String) : Prop where
  main : implementationSource path = true
  surface : ∃ surface old, current.surfaceDigests[path]? = some surface ∧
    (env.git reference).blob path = .ok old ∧ old.success = true ∧
    surfaceAt env path old.stdout = surface
  evidence : ∃ testId, DependsOn s testId path

variable {env : GitImpactEnv} {s : EvidenceStore} {current : RevisionSnapshot} {reference : String}

theorem Narrowable.surfaceKept {record : List UInt8 × List UInt8}
    (narrowable : Narrowable env s current reference record) :
    SurfaceKept env s current reference (gitPath record.2) := by
  obtain ⟨-, main, ⟨surface, old, found, read, success, same⟩, known⟩ := narrowable
  refine ⟨main, ⟨surface, old, ?_, read, success, same⟩, selectImpact_of_evidence.mp known⟩
  rwa [← Std.ExtTreeMap.get?_eq_getElem?]

/-- A path without a backslash is read as it is. -/
theorem gitPath_utf8 {text : String} (clean : '\\' ∉ text.toList) : gitPath (utf8 text) = text := by
  have same : text.toList.map (fun c => if c = '\\' then '/' else c) = text.toList := by
    refine (List.map_congr_left fun c inside => ?_).trans (List.map_id _)
    rw [if_neg]
    · rfl
    · rintro rfl
      exact clean inside
  rw [gitPath, utf8, Lib.Utf8.decodeLossy_encode, replaceChar, same, String.ofList_toList]

/-- Whatever records git writes, a narrowed answer means that each is a modification of a
main source whose surface is the reference's and that tests are known to depend on, that no
untracked input exists but the runtime artifacts, and that the answer is the union of the
evidence. A record's path is the text it is read as, its own where it has no backslash. -/
theorem git_diff_conservative (env : GitImpactEnv) (s : EvidenceStore) (current : RevisionSnapshot)
    (reference : String) (records : List DiffRecord) (tests : List String)
    (written : ∀ record ∈ records, record.WellFormed)
    (diff : (env.git reference).diff = .ok ⟨true, diffOutput records⟩)
    (answered : impactedTestsSinceGit env s current reference = .ok (some tests)) :
    (∀ record ∈ records, ∃ path, record = .single .modified path ∧
      SurfaceKept env s current reference (gitPath path)) ∧
    (∃ listing, (env.git reference).untracked = .ok listing ∧ listing.success = true ∧
      ∀ field ∈ nulFields listing.stdout, env.runtimeArtifact (gitPath field) = true ∨
        (sourceInput (gitPath field) = false ∧ buildInput (gitPath field) = false)) ∧
    (∀ testId, testId ∈ tests ↔
      ∃ path, .single .modified path ∈ records ∧ DependsOn s testId (gitPath path)) ∧
    ∀ text, '\\' ∉ text.toList → gitPath (utf8 text) = text := by
  obtain ⟨pairs, narrows, union⟩ := impactedTestsSinceGit_ok answered
  obtain ⟨output, answer, -, chunked⟩ := narrows.diff
  rw [diff] at answer
  cases answer
  rw [nulFields_diffOutput written] at chunked
  obtain ⟨paths, rfl, rfl⟩ :=
    aligned_of_modified chunked fun pair member => (narrows.narrowable pair member).modified
  refine ⟨?_, ?_, ?_, fun text => gitPath_utf8⟩
  · intro record member
    obtain ⟨path, listed, rfl⟩ := List.mem_map.mp member
    have narrowable := narrows.narrowable (utf8 "M", path) (List.mem_map.mpr ⟨path, listed, rfl⟩)
    exact ⟨path, rfl, narrowable.surfaceKept⟩
  · obtain ⟨listing, read, success, outside⟩ := narrows.untracked
    refine ⟨listing, read, success, fun field member => ?_⟩
    have quiet := List.any_eq_false.mp outside field member
    simp only [untrackedInput, Bool.and_eq_true, Bool.not_eq_true', Bool.or_eq_true, not_and,
      not_or, Bool.not_eq_true] at quiet
    by_cases artifact : env.runtimeArtifact (gitPath field) = true
    · exact .inl artifact
    · exact .inr (quiet (by simpa using artifact))
  · intro testId
    rw [union]
    simp only [changedPaths, List.map_map, List.mem_map, Function.comp_apply, DependsOn]
    constructor
    · rintro ⟨row, member, ⟨path, listed, subject⟩, same⟩
      exact ⟨path, ⟨path, listed, rfl⟩, row, member, subject.symm, same⟩
    · rintro ⟨path, ⟨other, listed, same⟩, row, member, subject, named⟩
      cases same
      exact ⟨row, member, ⟨path, listed, subject.symm⟩, named⟩

def narrowedSource : String := "src/main/java/A/B.java"

/-- A test that depends on the source. -/
def evidenceStore : EvidenceStore :=
  { Store.empty with dependencies := [⟨"demo.Test#a", narrowedSource, "method"⟩] }

/-- What the path of a directory tree is for git. -/
def pathBytes (place : Path) : List UInt8 := [0x2F].intercalate (place.map FileName.bytes)

/-- `git show` of a blob of the reference. -/
def showBlob (blob : Option (List UInt8)) : CommandOutput :=
  match blob with
  | some bytes => ⟨true, bytes⟩
  | none => ⟨false, []⟩

/-- The contents are their own digest and surface. -/
def plainHash : RevisionHash := ⟨id, fun _ bytes => hexEncode bytes⟩

/-- A workspace where git reports these records, with these blobs in the reference. -/
def gitEnv (blobs : List UInt8 → Option (List UInt8)) (records : List DiffRecord) : GitImpactEnv where
  git := fun _ => ⟨.ok ⟨true, diffOutput records⟩, .ok ⟨true, []⟩,
    fun text => .ok (showBlob (blobs (utf8 text)))⟩
  runtimeArtifact := fun _ => false
  sourceSurfaceDigest := plainHash.sourceSurfaceDigest

/-- The named files below `src/main/java`. -/
def javaTree (files : Tree) : Tree :=
  .cons .src (.dir (.cons .main (.dir (.cons .java (.dir files)
    .nil)) .nil)) .nil

/-- A package with one source. -/
def packageOf (contents : List UInt8) (rest : Tree) : Tree :=
  .cons (.ofText "A") (.dir (.cons .sourceB (.file ⟨contents, 0⟩) .nil)) rest

def siblingSource : String := "src/main/java/A/A.java"

/-- Two sources of a package, and a test for each. -/
def siblingStore : EvidenceStore :=
  { Store.empty with dependencies :=
      [⟨"demo.Test#a", narrowedSource, "method"⟩, ⟨"demo.Test#b", siblingSource, "method"⟩] }

def siblingTree : Tree :=
  javaTree (.cons (.ofText "A") (.dir (.cons .sourceB (.file ⟨[1], 0⟩)
    (.cons .sourceA (.file ⟨[1], 0⟩) .nil))) .nil)

def siblingRecords : List DiffRecord :=
  [.single .modified (utf8 siblingSource), .single .modified (utf8 narrowedSource)]

theorem git_diff_conservative_demo :
    ∃ tests, impactedTestsSinceGit (gitEnv (fun _ => some [1]) siblingRecords) siblingStore
        (capture plainHash [] siblingTree).snapshot "main" = .ok (some tests) ∧ tests.length = 2 ∧
      ∀ testId, testId ∈ tests ↔ ∃ path,
        DiffRecord.single .modified path ∈ siblingRecords ∧ DependsOn siblingStore testId (gitPath path) := by
  have answered : impactedTestsSinceGit (gitEnv (fun _ => some [1]) siblingRecords) siblingStore
      (capture plainHash [] siblingTree).snapshot "main" =
        .ok (some ["demo.Test#a", "demo.Test#b"]) := by decide +kernel
  have written : ∀ record ∈ siblingRecords, record.WellFormed := by
    simp only [siblingRecords, List.forall_mem_cons, List.not_mem_nil, IsEmpty.forall_iff,
      implies_true, and_true, DiffRecord.WellFormed]
    decide
  exact ⟨_, answered, rfl, (git_diff_conservative _ _ _ "main" _ _ written rfl answered).2.2.1⟩

/-- A source whose name has a backslash is modified. It is read as a source of the package
beside it, and that one's blob and the edited file have one surface. -/
theorem backslash_read_elsewhere :
    ¬ ∀ (hash : RevisionHash) (env : GitImpactEnv) (s : EvidenceStore) (tree : Tree)
        (blobs : List UInt8 → Option (List UInt8)) (reference : String) (records : List DiffRecord)
        (tests : List String),
      env.sourceSurfaceDigest = hash.sourceSurfaceDigest →
      (∀ text, (env.git reference).blob text = .ok (showBlob (blobs (utf8 text)))) →
      (env.git reference).diff = .ok ⟨true, diffOutput records⟩ →
      (∀ record ∈ records, record.WellFormed) →
      impactedTestsSinceGit env s (capture hash [] tree).snapshot reference = .ok (some tests) →
      ∀ place data old, DiffRecord.single .modified (pathBytes place) ∈ records →
        tree.get place = some (.file data) → blobs (pathBytes place) = some old →
        hash.sourceSurfaceDigest (place.getLast?.bind FileName.extension) data.contents =
          hash.sourceSurfaceDigest (place.getLast?.bind FileName.extension) old := by
  intro claim
  let place : Path := [.ofText "src", .ofText "main", .ofText "java", .ofText "A\\B.java"]
  let tree : Tree := javaTree (packageOf [1] (.cons (.ofText "A\\B.java") (.file ⟨[1], 0⟩) .nil))
  let blobs : List UInt8 → Option (List UInt8) := fun bytes =>
    if bytes = pathBytes place then some [2] else some [1]
  have answered : impactedTestsSinceGit (gitEnv blobs [.single .modified (pathBytes place)])
      evidenceStore (capture plainHash [] tree).snapshot "main" = .ok (some ["demo.Test#a"]) := by
    decide +kernel
  have written : ∀ record ∈ [DiffRecord.single .modified (pathBytes place)], record.WellFormed := by
    simp only [List.forall_mem_singleton, DiffRecord.WellFormed]
    decide
  have same := claim plainHash _ _ tree blobs "main" _ _ rfl (fun _ => rfl) rfl written answered
    place ⟨[1], 0⟩ [2] (by simp) rfl (by decide)
  exact absurd same (by decide)

end Walaru
