import Walaru.Guarantees.ImpactSoundness
import Walaru.Source.Daemon.GitImpactEffects

/-!
# Unsaved changes against a git reference

The diff and the listing of a git reference read the workspace on disk, while the run
executes the editor session's mirror. A file of the mirror that differs from the
reference is accounted for exactly when git reports it on disk, when the files that
git does report bring in its tests, or when the run is not narrowed at all.
-/
namespace Walaru
open Lib.Text Lib.StateResult

/-- What git sees of a workspace for one reference, by the paths as the daemon reads
them: the reference's blobs, the files on disk and the index. -/
structure GitRepository where
  blobs : String → Option (List UInt8)
  disk : String → Option (List UInt8)
  tracked : String → Bool

/-- A file that a diff of the working tree against the reference reports. -/
def GitRepository.Reported (repository : GitRepository) (path : String) : Prop :=
  (repository.tracked path = true ∨ (repository.blobs path).isSome = true) ∧
    repository.disk path ≠ repository.blobs path

/-- A diff whose records are all modifications names the reported files. -/
structure GitAnswers.Correct (answers : GitAnswers) (repository : GitRepository) : Prop where
  diff : ∀ output records, answers.diff = .ok output → output.success = true →
    chunkPairs (nulFields output.stdout) = some records →
    (∀ record ∈ records, Lib.Utf8.decodeLossy record.1 = "M") →
    ∀ path, path ∈ changedPaths records ↔ repository.Reported path

/-- An included file of the execution root whose content is not the reference's. -/
def DiffersFrom (repository : GitRepository) (mirror : Workspace) (path : Path) : Prop :=
  ∃ contents, includedContents mirror.tree path = some contents ∧
    repository.blobs (relativeString [] path) ≠ some contents

/-- The selection holds the tests that the impact rule asks for. -/
def Accounted (s : EvidenceStore) (selected : List String) (subject : String) : Prop :=
  ∃ tests, s.selectImpact subject (moduleForPath subject) = .exact tests ∧
    ∀ test ∈ tests, test ∈ selected

/-- Whatever plan the request gets, an impact selection accounts for every included file
of the mirror that differs from the reference. -/
def AccountsForChanges (env : VerifierEnv) (request : VerificationRequest)
    (repository : GitRepository) (mirror : Workspace) (before : RevisionSnapshot)
    (s : EvidenceStore) : Prop :=
  ∀ plan after, chooseTests env request before s = .ok plan after → plan.selection = "impact" →
    ∀ path, DiffersFrom repository mirror path →
      Accounted s plan.selectedTests (relativeString [] path)

/-- The tests of the file are known, and files that git reports bring them in. -/
def CoveredByReported (repository : GitRepository) (s : EvidenceStore) (subject : String) : Prop :=
  ∃ tests, s.selectImpact subject (moduleForPath subject) = .exact tests ∧
    ∀ test ∈ tests, ∃ row ∈ s.dependencies, repository.Reported row.subject ∧ row.testId = test

/-- With a git reference the plan is the answer for that reference. -/
theorem chooseTests_sinceGit {env : VerifierEnv} {request : VerificationRequest} {since : String}
    (asked : request.since = some since) (reference : startsWith "rev-" since = false)
    (before : RevisionSnapshot) (s : EvidenceStore) {plan : RunPlan} {after : EvidenceStore} :
    (chooseTests env request before s = .ok plan after ∧ plan.selection = "impact") ↔
      impactable request = true ∧ ∃ tests, env.gitImpact s before since = .ok (some tests) ∧
        plan = ⟨before, tests, "impact"⟩ ∧ after = s := by
  have asks : askImpact env request before s = answer (env.gitImpact s before since) s := by
    simp only [askImpact, asked, reference, Bool.false_eq_true, if_false]
    rfl
  constructor
  · rintro ⟨chosen, narrowed⟩
    unfold chooseTests at chosen
    split at chosen
    · rename_i allowed
      refine ⟨allowed, ?_⟩
      obtain ⟨impact, u, answered, chosen⟩ := bind_ok.mp chosen
      rw [asks] at answered
      obtain ⟨found, rfl⟩ := answer_ok.mp answered
      cases impact with
      | none =>
        obtain ⟨rfl, -⟩ := pure_ok.mp chosen
        exact absurd narrowed (requestedPlan_selection request before)
      | some tests =>
        obtain ⟨rfl, rfl⟩ := pure_ok.mp chosen
        exact ⟨tests, found, rfl, rfl⟩
    · obtain ⟨rfl, -⟩ := pure_ok.mp chosen
      exact absurd narrowed (requestedPlan_selection request before)
  · rintro ⟨allowed, tests, found, rfl, rfl⟩
    refine ⟨?_, rfl⟩
    unfold chooseTests
    rw [if_pos allowed]
    exact bind_ok.mpr ⟨some tests, after, asks.trans (answer_ok.mpr ⟨found, rfl⟩), rfl⟩

/-- A plan for a git reference accounts for the mirror's changes exactly when a run that
the reference narrows leaves no changed file unreported without tests that reported
files bring in. -/
theorem unsaved_changes_accounted_iff (git : GitImpactEnv) (hash : RevisionHash) (env : VerifierEnv)
    (request : VerificationRequest) (repository : GitRepository) (mirror : Workspace) (root : Path)
    (s : EvidenceStore) {since : String} (asked : request.since = some since)
    (reference : startsWith "rev-" since = false) (asks : env.gitImpact = impactedTestsSinceGit git)
    (correct : (git.git since).Correct repository) :
    AccountsForChanges env request repository mirror (capture hash root mirror.tree).snapshot s ↔
      (impactable request = true →
        (∃ records, NarrowsBy git s (capture hash root mirror.tree).snapshot since records) →
        ∀ path, DiffersFrom repository mirror path →
          ¬ repository.Reported (relativeString [] path) →
            CoveredByReported repository s (relativeString [] path)) := by
  have reported : ∀ {records}, NarrowsBy git s (capture hash root mirror.tree).snapshot since records →
      ∀ path, path ∈ changedPaths records ↔ repository.Reported path := by
    intro records narrows
    obtain ⟨output, diff, success, chunked⟩ := narrows.diff
    exact correct.diff output records diff success chunked
      fun record member => (narrows.narrowable record member).modified
  constructor
  · intro accounts allowed ⟨records, narrows⟩ path differs unreported
    obtain ⟨tests, answered⟩ := impactedTestsSinceGit_of_narrows narrows
    obtain ⟨others, narrows', members⟩ := impactedTestsSinceGit_ok answered
    obtain ⟨chosen, narrowed⟩ := (chooseTests_sinceGit asked reference _ s).mpr
      ⟨allowed, tests, by rw [asks]; exact answered, rfl, rfl⟩
    obtain ⟨known, exact_, inside⟩ := accounts _ _ chosen narrowed path differs
    refine ⟨known, exact_, ?_⟩
    intro test member
    obtain ⟨row, stored, subject, same⟩ := (members test).mp (inside test member)
    exact ⟨row, stored, (reported narrows' row.subject).mp subject, same⟩
  · intro covered plan after chosen narrowed path differs
    obtain ⟨allowed, tests, answered, rfl, -⟩ :=
      (chooseTests_sinceGit asked reference _ s).mp ⟨chosen, narrowed⟩
    rw [asks] at answered
    obtain ⟨records, narrows, members⟩ := impactedTestsSinceGit_ok answered
    by_cases listed : repository.Reported (relativeString [] path)
    · have changed := (reported narrows _).mpr listed
      obtain ⟨record, member, same⟩ := List.mem_map.mp changed
      obtain ⟨known, exact_⟩ := (narrows.narrowable record member).known
      rw [same] at exact_
      refine ⟨known, exact_, ?_⟩
      intro test inside
      obtain ⟨row, stored, subject, named⟩ := ((selectImpact_exact exact_).2 test).mp inside
      exact (members test).mpr ⟨row, stored, subject ▸ changed, named⟩
    · obtain ⟨known, exact_, bring⟩ := covered allowed ⟨records, narrows⟩ path differs listed
      refine ⟨known, exact_, ?_⟩
      intro test inside
      obtain ⟨row, stored, subject, named⟩ := bring test inside
      exact (members test).mpr ⟨row, stored, (reported narrows row.subject).mpr subject, named⟩

def javaPath (name : FileName) : Path := [.src, .main, .java, name]

def sourceA : String := "src/main/java/A.java"

def sourceB : String := "src/main/java/B.java"

/-- The mirror of two edited sources. -/
def editedMirror : Workspace where
  tree := .cons .src (.dir (.cons .main (.dir (.cons .java
    (.dir (.cons .sourceA (.file ⟨[0x32], 0⟩) (.cons .sourceB (.file ⟨[0x32], 0⟩) .nil)))
    .nil)) .nil)) .nil
  distinct := by decide
  addressable := by decide +kernel

/-- Only the first of them is saved. -/
def savedRepository : GitRepository where
  blobs path := if path = sourceA ∨ path = sourceB then some [0x31] else none
  disk path := if path = sourceA then some [0x32] else if path = sourceB then some [0x31] else none
  tracked path := path = sourceA ∨ path = sourceB

def savedGit : GitImpactEnv where
  git _ := ⟨.ok ⟨true, utf8 "M\x00src/main/java/A.java\x00"⟩, .ok ⟨true, []⟩,
    fun _ => .ok ⟨true, [0x31]⟩⟩
  runtimeArtifact _ := false
  sourceSurfaceDigest _ _ := "surface"

def flatHash : RevisionHash := ⟨id, fun _ _ => "surface"⟩

/-- A test of its own for either source. -/
def learnedStore : EvidenceStore :=
  { play [] with
    dependencies := [⟨"demo.ATest#works", sourceA, "method"⟩, ⟨"demo.BTest#works", sourceB, "method"⟩] }

def referenceEnv : VerifierEnv :=
  { quietEnv "run-1" (capture flatHash [] editedMirror.tree).snapshot true [] with
    gitImpact := impactedTestsSinceGit savedGit }

/-- A live request against the last commit. -/
def sinceMain : VerificationRequest :=
  { VerificationRequest.fast with
    since := some "main"
    overlay := some ⟨"session", [⟨sourceB, 2, "2"⟩]⟩ }

theorem savedGit_correct : (savedGit.git "main").Correct savedRepository where
  diff := by
    intro output records answered _ chunked _ path
    cases answered
    have paths : (chunkPairs (nulFields (utf8 "M\x00src/main/java/A.java\x00"))).map changedPaths =
        some [sourceA] := by decide +kernel
    rw [chunked, Option.map_some, Option.some.injEq] at paths
    rw [paths, List.mem_singleton]
    constructor
    · rintro rfl
      exact ⟨.inl (by decide), by decide⟩
    · intro ⟨_, differs⟩
      by_contra other
      by_cases second : path = sourceB
      · subst second
        exact differs (by decide)
      · simp [savedRepository, other, second] at differs

/-- The mirror holds the content of the open document. -/
theorem edited_paths :
    relativeString [] (javaPath (.ofText "B.java")) = sourceB ∧
    includedContents editedMirror.tree (javaPath (.ofText "B.java")) = some (utf8 "2") := by
  decide +kernel

theorem narrowed_to_saved :
    answers (fun plan => plan.selection = "impact" && plan.selectedTests = ["demo.ATest#works"])
      (chooseTests referenceEnv sinceMain (capture flatHash [] editedMirror.tree).snapshot
        learnedStore) = true := by
  decide +kernel

theorem learned_sourceB :
    learnedStore.selectImpact sourceB (moduleForPath sourceB) = .exact ["demo.BTest#works"] := by
  decide +kernel

theorem unsaved_unaccounted :
    ¬ AccountsForChanges referenceEnv sinceMain savedRepository editedMirror
      (capture flatHash [] editedMirror.tree).snapshot learnedStore := by
  intro accounts
  obtain ⟨path, contents⟩ := edited_paths
  obtain ⟨plan, after, chosen, narrowed⟩ := exists_of_answers narrowed_to_saved
  simp only [Bool.and_eq_true, decide_eq_true_eq] at narrowed
  obtain ⟨tests, exact_, inside⟩ := accounts plan after chosen narrowed.1 (javaPath (.ofText "B.java"))
    ⟨[0x32], contents, by rw [path]; decide⟩
  rw [path, learned_sourceB] at exact_
  cases exact_
  have selected := inside "demo.BTest#works" (by simp)
  rw [narrowed.2] at selected
  exact absurd selected (by decide)

/-- The run is narrowed to the test of the saved source, and the other source differs
from the reference in the mirror only. -/
theorem unsaved_change_missed :
    answers (fun plan => plan.selection = "impact" && plan.selectedTests = ["demo.ATest#works"])
      (chooseTests referenceEnv sinceMain (capture flatHash [] editedMirror.tree).snapshot
        learnedStore) = true ∧
    includedContents editedMirror.tree (javaPath (.ofText "B.java")) = some (utf8 "2") ∧
    savedRepository.blobs sourceB = some [0x31] ∧ savedRepository.disk sourceB = some [0x31] ∧
    learnedStore.selectImpact sourceB (moduleForPath sourceB) = .exact ["demo.BTest#works"] ∧
    ¬ AccountsForChanges referenceEnv sinceMain savedRepository editedMirror
      (capture flatHash [] editedMirror.tree).snapshot learnedStore :=
  ⟨narrowed_to_saved, edited_paths.2, by decide, by decide, learned_sourceB, unsaved_unaccounted⟩

theorem unsaved_changes_accounted_iff_demo :
    ¬ (impactable sinceMain = true →
      (∃ records, NarrowsBy savedGit learnedStore (capture flatHash [] editedMirror.tree).snapshot
        "main" records) →
      ∀ path, DiffersFrom savedRepository editedMirror path →
        ¬ savedRepository.Reported (relativeString [] path) →
          CoveredByReported savedRepository learnedStore (relativeString [] path)) := by
  rw [← unsaved_changes_accounted_iff savedGit flatHash referenceEnv sinceMain savedRepository
    editedMirror [] learnedStore rfl (by decide +kernel) rfl savedGit_correct]
  exact unsaved_unaccounted

end Walaru
