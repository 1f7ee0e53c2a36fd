import Walaru.Guarantees.InvocationStatus
import Walaru.Source.Daemon.GitImpact

/-!
# A stream that breaks

While the stream is read, tests, coverage and dependencies are collected in memory; the
tables are replaced behind the last line. Whatever stops the reading, at whatever line,
leaves these tables as they were, and with them every later impact selection.
-/
namespace Walaru
open Lib.StateResult

/-- The tables that a test run teaches are the same. -/
structure SameEvidence (s t : EvidenceStore) : Prop where
  tests : t.tests = s.tests
  coverage : t.coverage = s.coverage
  dependencies : t.dependencies = s.dependencies

theorem EventsAppended.sameEvidence {rows : List EventRow} {s t : EvidenceStore}
    (wrote : EventsAppended rows s t) : SameEvidence s t :=
  ⟨wrote.tests, wrote.coverage, wrote.dependencies⟩

/-- Every impact selection has one answer. -/
structure SameImpact (s t : EvidenceStore) : Prop where
  subject : ∀ subject module, t.selectImpact subject module = s.selectImpact subject module
  revision : ∀ current requested, impactedTests t current requested =
    impactedTests s current requested
  reference : ∀ env current reference, impactedTestsSinceGit env t current reference =
    impactedTestsSinceGit env s current reference

section Selection
variable {s t : EvidenceStore}

theorem SameEvidence.selectImpact (same : SameEvidence s t) (subject module : String) :
    t.selectImpact subject module = s.selectImpact subject module := by
  unfold Store.selectImpact
  rw [same.dependencies, same.tests]

theorem SameEvidence.selectPaths (same : SameEvidence s t) (baseline : RevisionManifest)
    (current : RevisionSnapshot) (selected : BTreeSet String) (paths : List String) :
    selectPaths t baseline current selected paths = selectPaths s baseline current selected paths := by
  induction paths generalizing selected with
  | nil => rfl
  | cons path rest ih =>
    simp only [Walaru.selectPaths, same.selectImpact, ih]

theorem SameEvidence.selectChanged (same : SameEvidence s t) (env : GitImpactEnv)
    (current : RevisionSnapshot) (reference : String) (selected : BTreeSet String)
    (records : List (List UInt8 × List UInt8)) :
    selectChanged env t current reference selected records =
      selectChanged env s current reference selected records := by
  induction records generalizing selected with
  | nil => rfl
  | cons record rest ih =>
    simp only [Walaru.selectChanged, changedTests, same.selectImpact, ih]

theorem EventsAppended.sameImpact {rows : List EventRow} (wrote : EventsAppended rows s t) :
    SameImpact s t where
  subject := wrote.sameEvidence.selectImpact
  revision current requested := by
    simp only [impactedTests, Store.latestCachedRevision, Store.revisionManifest,
      wrote.verificationCache, wrote.revisionManifests, wrote.sameEvidence.selectPaths]
  reference env current reference := by
    simp only [impactedTestsSinceGit, wrote.sameEvidence.selectChanged]

end Selection

/-- How the reading stops at a line when `count` events were read before it: the reader
fails or the line is too long, the run is cancelled, the cap is reached, or the line is
not JSON. -/
inductive Breaks (ctx : IngestContext) (index count : Nat) : StreamLine → VerifierError → Prop where
  | unreadable (message : String) : Breaks ctx index count (.unreadable message) (.io message)
  | cancelled {line : StreamLine} (read : ∀ message, line ≠ .unreadable message)
      (cancels : ctx.cancelled index = true) : Breaks ctx index count line .cancelled
  | full {line : StreamLine} (read : ∀ message, line ≠ .unreadable message) (filled : line ≠ .blank)
      (continues : ctx.cancelled index = false) (cap : maxEventsPerRun ≤ count) :
      Breaks ctx index count line (.io "JVM event stream exceeded one million events")
  | json (continues : ctx.cancelled index = false) (room : count < maxEventsPerRun) :
      Breaks ctx index count .invalidJson .json

/-- The line that breaks the reading writes nothing. -/
theorem ingestLine_breaks {ctx : IngestContext} {index : Nat} {line : StreamLine}
    {st : IngestState} {e : VerifierError} (breaks : Breaks ctx index st.eventCount line e)
    (s : EvidenceStore) : ingestLine ctx index line st s = .error e s := by
  cases breaks with
  | unreadable message => simp [ingestLine]
  | cancelled read cancels =>
    cases line with
    | unreadable message => exact absurd rfl (read message)
    | blank => exact bind_of_error (by simp [cancels])
    | invalidJson => exact bind_of_error (by simp [cancels])
    | event raw => exact bind_of_error (by simp [cancels])
  | full read filled continues cap =>
    have checked : checkCancellation (ctx.cancelled index) s = .ok () s := by simp [continues]
    have stopped : checkEventCap st s =
        .error (.io "JVM event stream exceeded one million events") s := by
      simp [checkEventCap, cap]
    cases line with
    | unreadable message => exact absurd rfl (read message)
    | blank => exact absurd rfl filled
    | invalidJson => exact (bind_of_ok checked).trans (bind_of_error stopped)
    | event raw => exact (bind_of_ok checked).trans (bind_of_error stopped)
  | json continues room =>
    have checked : checkCancellation (ctx.cancelled index) s = .ok () s := by simp [continues]
    have passed : checkEventCap st s = .ok () s := by simp [room]
    exact (bind_of_ok checked).trans ((bind_of_ok passed).trans (by simp))

theorem ingestLines_append {ctx : IngestContext} {index : Nat} {before : List StreamLine}
    {st mid : IngestState} {s t : EvidenceStore}
    (read : ingestLines ctx index before st s = .ok mid t) (after : List StreamLine) :
    ingestLines ctx index (before ++ after) st s =
      ingestLines ctx (index + before.length) after mid t := by
  induction before generalizing index st s with
  | nil =>
    obtain ⟨rfl, rfl⟩ := pure_ok.mp read
    rfl
  | cons line before ih =>
    obtain ⟨next, u, first, later⟩ := bind_ok.mp read
    have shift : index + 1 + before.length = index + (line :: before).length := by
      rw [List.length_cons]
      omega
    exact (bind_of_ok first).trans ((ih later).trans (by rw [shift]))

/-- An ingestion that fails, whatever stopped it, and one whose stream breaks behind any
lines that were read. -/
theorem broken_stream_keeps_evidence (ctx : IngestContext) (s : EvidenceStore) :
    (∀ file e t, ingestEvents ctx file s = .error e t → SameEvidence s t ∧ SameImpact s t) ∧
    ∀ before line after st t e, ingestLines ctx 0 before IngestState.start s = .ok st t →
      Breaks ctx before.length st.eventCount line e →
      ingestEvents ctx (.lines (before ++ line :: after)) s = .error e t ∧
        SameEvidence s t ∧ SameImpact s t := by
  constructor
  · intro file e t failure
    obtain ⟨raws, -, wrote⟩ := ingestEvents_error failure
    exact ⟨wrote.sameEvidence, wrote.sameImpact⟩
  · intro before line after st t e read breaks
    have wrote := (ingestLines_effects read).2
    refine ⟨bind_of_error ?_, wrote.sameEvidence, wrote.sameImpact⟩
    rw [ingestLines_append read, Nat.zero_add]
    exact bind_of_error (ingestLine_breaks breaks t)

/-- A store with what an earlier run taught about the test. -/
def taughtStore : EvidenceStore :=
  { begunStore with
    coverage := [⟨1, "demo.AppTest#each", "src/main/java/demo/App.java", 3, "demo.App#run"⟩]
    dependencies := [⟨"demo.AppTest#each", "src/main/java/demo/App.java", "method"⟩] }

/-- A test that covers another file, and a line that is not JSON before it finishes. -/
def coversFirst : List StreamLine :=
  [rawStart "demo.AppTest#each", rawLine "demo.AppTest#each" "src/main/java/demo/Other.java"].map .event

theorem broken_stream_keeps_evidence_demo :
    ∃ t, ingestEvents demoContext (.lines (coversFirst ++ .invalidJson ::
          [.event (rawFinish "demo.AppTest#each" "successful")])) taughtStore = .error .json t ∧
      t.events.length = 2 ∧ SameEvidence taughtStore t := by
  have ran : answers (fun st : IngestState => st.eventCount = 2)
      (ingestLines demoContext 0 coversFirst IngestState.start taughtStore) := by decide +kernel
  have rows : (storeOf (ingestLines demoContext 0 coversFirst IngestState.start taughtStore)).events.length =
      2 := by
    decide +kernel
  obtain ⟨st, t, read, count⟩ := exists_of_answers ran
  rw [read] at rows
  have count : st.eventCount = 2 := by simpa using count
  have broken : Breaks demoContext coversFirst.length st.eventCount .invalidJson .json :=
    .json rfl (by rw [count]; decide)
  obtain ⟨failed, same, -⟩ := (broken_stream_keeps_evidence demoContext taughtStore).2 coversFirst
    .invalidJson [.event (rawFinish "demo.AppTest#each" "successful")] st t .json read broken
  exact ⟨t, failed, rows, same⟩

end Walaru
