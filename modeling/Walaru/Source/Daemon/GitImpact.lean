import Walaru.Lib.Utf8
import Walaru.Source.Daemon.Impact

/-!
# Impact selection against a git reference

`Verifier::impacted_tests_since_git`: the paths that `git diff` names on the workspace,
each of which must be a body-only edit of a main source with known tests. What the
`git` program answers is a parameter.
-/
namespace Walaru
open Lib.Text

/-- The output of a finished command. -/
structure CommandOutput where
  success : Bool
  stdout : List UInt8
  deriving DecidableEq

/-- The answers of `git -C root` for one reference, or why it could not be started:
`diff --name-status -z`, `ls-files --others --exclude-standard -z` and `show`. -/
structure GitAnswers where
  diff : Except String CommandOutput
  untracked : Except String CommandOutput
  blob : String → Except String CommandOutput

/-- The runtime artifacts and the surface digest that the comparison uses. -/
structure GitImpactEnv where
  git : String → GitAnswers
  runtimeArtifact : String → Bool
  sourceSurfaceDigest : Option (List NameUnit) → List UInt8 → String

def validReference (reference : String) : Bool :=
  reference != "" && (utf8 reference).length ≤ 256 && !startsWith "-" reference &&
    reference.toList.all fun c => (c.toNat < 128 && c.isAlphanum) || c ∈ ['.', '_', '/', '-']

/-- The fields of NUL-separated output that are not empty. -/
def nulFields (stdout : List UInt8) : List (List UInt8) :=
  (stdout.splitOn 0).filter fun field => !field.isEmpty

def gitPath (field : List UInt8) : String := replaceChar '\\' '/' (Lib.Utf8.decodeLossy field)

/-- `as_chunks::<2>` without a remainder. -/
def chunkPairs {α : Type} : List α → Option (List (α × α))
  | [] => some []
  | [_] => none
  | a :: b :: rest => (chunkPairs rest).map fun pairs => (a, b) :: pairs

/-- An untracked file that widens the run. -/
def untrackedInput (env : GitImpactEnv) (field : List UInt8) : Bool :=
  !env.runtimeArtifact (gitPath field) &&
    (sourceInput (gitPath field) || buildInput (gitPath field))

/-- `source_surface_digest` of a path that git names. -/
def surfaceAt (env : GitImpactEnv) (path : String) (bytes : List UInt8) : String :=
  env.sourceSurfaceDigest ((pathExtension path).map fun text => text.toList.map .scalar) bytes

/-- One record of the diff: the tests to add, or nothing when the run is to be widened. -/
def changedTests (env : GitImpactEnv) (s : EvidenceStore) (current : RevisionSnapshot)
    (reference : String) (record : List UInt8 × List UInt8) :
    Except VerifierError (Option (List String)) :=
  let path := gitPath record.2
  if Lib.Utf8.decodeLossy record.1 ≠ "M" ∨ implementationSource path = false then .ok none
  else
    match current.surfaceDigests.get? path with
    | none => .ok none
    | some surface =>
      match (env.git reference).blob path with
      | .error message => .error (.io message)
      | .ok old =>
        if old.success = false ∨ surfaceAt env path old.stdout ≠ surface then .ok none
        else
          match s.selectImpact path (moduleForPath path) with
          | .exact tests => .ok (some tests)
          | .moduleAll _ _ => .ok none

def selectChanged (env : GitImpactEnv) (s : EvidenceStore) (current : RevisionSnapshot)
    (reference : String) :
    BTreeSet String → List (List UInt8 × List UInt8) →
      Except VerifierError (Option (BTreeSet String))
  | selected, [] => .ok (some selected)
  | selected, record :: rest =>
    match changedTests env s current reference record with
    | .error e => .error e
    | .ok none => .ok none
    | .ok (some tests) =>
      selectChanged env s current reference
        (tests.foldl (fun set test => set.insert test) selected) rest

def impactedTestsSinceGit (env : GitImpactEnv) (s : EvidenceStore) (current : RevisionSnapshot)
    (reference : String) : Except VerifierError (Option (List String)) :=
  if validReference reference = false then .ok none
  else
    match (env.git reference).diff with
    | .error message => .error (.io message)
    | .ok output =>
      if output.success = false then .ok none
      else
        match (env.git reference).untracked with
        | .error message => .error (.io message)
        | .ok untracked =>
          if untracked.success = false then .ok none
          else if (nulFields untracked.stdout).any (untrackedInput env) then .ok none
          else
            match chunkPairs (nulFields output.stdout) with
            | none => .ok none
            | some records =>
              match selectChanged env s current reference ∅ records with
              | .error e => .error e
              | .ok none => .ok none
              | .ok (some selected) =>
                if selected.isEmpty then .ok none else .ok (some selected.toList)

end Walaru
