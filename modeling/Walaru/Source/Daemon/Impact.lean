import Walaru.Source.Daemon.Request

/-!
# Impact selection against a stored baseline

`Verifier::impacted_tests`: the paths whose content differs from the baseline
manifest, and the tests that the dependency table relates to them. Any path that
is not a body-only edit of a main source, or that no test is known to depend on,
widens the run to every test.
-/
namespace Walaru
open Lib.Text

/-- `Path::extension`. -/
def pathExtension (path : String) : Option String :=
  (fileName path).bind fun name =>
    let rest := name.toList.reverse.dropWhile fun c => c != '.'
    if rest.length ≤ 1 then none
    else some (String.ofList (name.toList.reverse.takeWhile fun c => c != '.').reverse)

def implementationSource (path : String) : Bool :=
  let normalized := replaceChar '\\' '/' path
  (startsWith "src/main/" normalized || containsText "/src/main/" normalized) &&
    (pathExtension normalized = some "java" || pathExtension normalized = some "kt")

def sourceInput (path : String) : Bool :=
  let normalized := replaceChar '\\' '/' path
  startsWith "src/" normalized || containsText "/src/" normalized

def buildInput (path : String) : Bool :=
  (fileName path).any fun name =>
    name ∈ ["build.gradle", "build.gradle.kts", "settings.gradle", "settings.gradle.kts",
      "gradle.properties", "libs.versions.toml", "gradle-wrapper.properties", "pom.xml",
      "maven.config", "jvm.config", "extensions.xml", "maven-wrapper.properties", "walaru.toml"]

def trimSlashes (s : String) : String :=
  String.ofList (((s.toList.dropWhile fun c => c = '/').reverse.dropWhile fun c => c = '/').reverse)

def moduleForPath (path : String) : String :=
  match splitText "/src/" (replaceChar '\\' '/' path) with
  | pre :: _ :: _ => if pre = "" then ":" else ":" ++ replaceChar '/' ':' (trimSlashes pre)
  | _ => ":"

/-- Paths whose content digests differ, in order. -/
def differingPaths (baseline : RevisionManifest) (current : RevisionSnapshot) : List String :=
  (Store.distinctSorted (baseline.fileDigests.keys ++ current.fileDigests.keys)).filter fun path =>
    baseline.fileDigests.get? path ≠ current.fileDigests.get? path

/-- A path whose edit can be narrowed: a main source on both sides with one surface. -/
def bodyOnlyEdit (baseline : RevisionManifest) (current : RevisionSnapshot) (path : String) : Bool :=
  implementationSource path &&
    (baseline.fileDigests.contains path && current.fileDigests.contains path) &&
    baseline.surfaceDigests.get? path = current.surfaceDigests.get? path

def selectPaths (s : EvidenceStore) (baseline : RevisionManifest) (current : RevisionSnapshot) :
    BTreeSet String → List String → Option (BTreeSet String)
  | selected, [] => some selected
  | selected, path :: rest =>
    if bodyOnlyEdit baseline current path then
      match s.selectImpact path (moduleForPath path) with
      | .exact tests =>
        selectPaths s baseline current (tests.foldl (fun set test => set.insert test) selected) rest
      | .moduleAll _ _ => none
    else none

def impactedTests (s : EvidenceStore) (current : RevisionSnapshot) (requested : Option String) :
    Option (List String) := do
  let revision ← requested <|> s.latestCachedRevision
  if revision = current.revision then none
  else
    let baseline ← s.revisionManifest revision
    let selected ← selectPaths s baseline current ∅ (differingPaths baseline current)
    if selected.isEmpty then none else some selected.toList

theorem mem_extend {tests : List String} {set : BTreeSet String} {id : String} :
    id ∈ tests.foldl (fun set test => set.insert test) set ↔ id ∈ set ∨ id ∈ tests := by
  induction tests generalizing set with
  | nil => simp
  | cons first rest ih =>
    simp only [List.foldl_cons, ih, Std.ExtTreeSet.mem_insert,
      Std.LawfulEqCmp.compare_eq_iff_eq, List.mem_cons]
    tauto

theorem mem_distinctSorted {ids : List String} {id : String} :
    id ∈ Store.distinctSorted ids ↔ id ∈ ids := by
  simp [Store.distinctSorted, mem_extend]

/-- An exact answer is the set of tests with a row on the subject, and is not empty. -/
theorem selectImpact_exact {s : EvidenceStore} {subject module : String} {tests : List String}
    (exact_ : s.selectImpact subject module = .exact tests) :
    tests ≠ [] ∧
      ∀ id, id ∈ tests ↔ ∃ row ∈ s.dependencies, row.subject = subject ∧ row.testId = id := by
  simp only [Store.selectImpact] at exact_
  split at exact_
  · rename_i known
    cases exact_
    refine ⟨known, fun id => ?_⟩
    simp [mem_distinctSorted, and_assoc]
  · cases exact_

theorem selectPaths_mem {s : EvidenceStore} {baseline : RevisionManifest} {current : RevisionSnapshot}
    {paths : List String} {start selected : BTreeSet String}
    (success : selectPaths s baseline current start paths = some selected) (id : String) :
    id ∈ selected ↔
      id ∈ start ∨ ∃ row ∈ s.dependencies, row.subject ∈ paths ∧ row.testId = id := by
  induction paths generalizing start with
  | nil =>
    cases success
    simp
  | cons path rest ih =>
    simp only [selectPaths] at success
    split at success
    · split at success
      · rename_i tests exact_
        rw [ih success, mem_extend, (selectImpact_exact exact_).2]
        simp only [List.mem_cons]
        constructor
        · rintro ((old | ⟨row, member, rfl, same⟩) | ⟨row, member, later, same⟩)
          · exact .inl old
          · exact .inr ⟨row, member, .inl rfl, same⟩
          · exact .inr ⟨row, member, .inr later, same⟩
        · rintro (old | ⟨row, member, first | later, same⟩)
          · exact .inl (.inl old)
          · exact .inl (.inr ⟨row, member, first, same⟩)
          · exact .inr ⟨row, member, later, same⟩
      · cases success
    · cases success

theorem mem_differingPaths {baseline : RevisionManifest} {current : RevisionSnapshot} {path : String} :
    path ∈ differingPaths baseline current ↔
      baseline.fileDigests.get? path ≠ current.fileDigests.get? path := by
  simp only [differingPaths, List.mem_filter, mem_distinctSorted, List.mem_append,
    Std.ExtTreeMap.mem_keys, decide_eq_true_eq, and_iff_right_iff_imp]
  intro differ
  by_contra absent
  rw [not_or] at absent
  simp only [Std.ExtTreeMap.get?_eq_getElem?] at differ
  rw [Std.ExtTreeMap.getElem?_eq_none absent.1, Std.ExtTreeMap.getElem?_eq_none absent.2] at differ
  exact differ rfl

/-- What a narrowed answer rests on. -/
structure Narrowing (s : EvidenceStore) (current : RevisionSnapshot) (revision : String)
    (baseline : RevisionManifest) (tests : List String) : Prop where
  stored : s.revisionManifest revision = some baseline
  differs : revision ≠ current.revision
  selected : ∀ id, id ∈ tests ↔ ∃ row ∈ s.dependencies,
    baseline.fileDigests.get? row.subject ≠ current.fileDigests.get? row.subject ∧ row.testId = id

theorem impactedTests_narrowing {s : EvidenceStore} {current : RevisionSnapshot}
    {requested : Option String} {tests : List String}
    (narrowed : impactedTests s current requested = some tests) :
    ∃ revision baseline, (requested <|> s.latestCachedRevision) = some revision ∧
      Narrowing s current revision baseline tests := by
  simp only [impactedTests, Option.bind_eq_bind, Option.bind_eq_some_iff] at narrowed
  obtain ⟨revision, found, narrowed⟩ := narrowed
  split at narrowed
  · cases narrowed
  · rename_i differs
    simp only [Option.bind_eq_some_iff] at narrowed
    obtain ⟨baseline, stored, set, selected, narrowed⟩ := narrowed
    split at narrowed
    · cases narrowed
    · cases narrowed
      refine ⟨revision, baseline, found, stored, differs, fun id => ?_⟩
      rw [Std.ExtTreeSet.mem_toList, selectPaths_mem selected]
      simp [mem_differingPaths]

end Walaru
