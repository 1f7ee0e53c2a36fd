import Walaru.Guarantees.FreshSuccess
import Walaru.Source.Daemon.TestStatuses

/-!
# The status of a test with several invocations

The invocations of a parameterised test share one public identifier. Each of them that
finishes overwrites the status, so the last one to finish decides it: a failure is kept
exactly when no invocation after the last failing one ends otherwise.
-/
namespace Walaru
open Lib.StateResult

/-- Some invocation of the public test fails. -/
def InvocationFails (file : EventFile) (testId : String) : Prop :=
  ∃ raw ∈ finishesOf file testId, finishStatus raw = "failed"

/-- What a reader is told of the test: the payload's status and the row of the table. -/
def ToldFailed (ingested : Ingested) (t : EvidenceStore) (testId : String) : Prop :=
  ingested.testStatuses[testId]? = some "failed" ∧ FailedRow t testId

theorem invocationFails_of_last {file : EventFile} {testId : String}
    (last : reportsFailedTest file testId) : InvocationFails file testId := by
  obtain ⟨raw, found, failed⟩ := Option.map_eq_some_iff.mp last
  exact ⟨raw, List.mem_of_getLast? found, failed⟩

/-- The payload has the status of the last invocation that finishes. -/
theorem ingested_status {ctx : IngestContext} {file : EventFile} {ingested : Ingested}
    {s t : EvidenceStore} (success : ingestEvents ctx file s = .ok ingested t) (testId : String) :
    ingested.testStatuses[testId]? = (finishesOf file testId).getLast?.map finishStatus := by
  cases file with
  | missing =>
    obtain ⟨rfl, -⟩ := pure_ok.mp success
    simp [Ingested.default, finishesOf, EventFile.raws]
  | unreadable message => simp [ingestEvents] at success
  | lines stream =>
    simp only [ingestEvents, bind_ok, pure_ok] at success
    obtain ⟨st, mid, streamed, _, _, -, rfl, -⟩ := success
    obtain ⟨rfl, -⟩ := ingestLines_effects streamed
    change (observeAll ctx .start (stream.filterMap StreamLine.raw?)).testStatuses[testId]? = _
    rw [testStatuses_get, observeAll_status]
    rfl

theorem toldFailed_iff {ctx : IngestContext} {file : EventFile} {ingested : Ingested}
    {s t : EvidenceStore} (success : ingestEvents ctx file s = .ok ingested t) (testId : String) :
    ToldFailed ingested t testId ↔ reportsFailedTest file testId := by
  rw [ToldFailed, ingested_status success, (ingestEvents_statuses success).failed]
  constructor
  · exact fun told => told.1
  · exact fun last => ⟨last, .inl last⟩

/-- In every stream that is ingested, the failure of an invocation of the test is told
exactly when the last invocation to finish fails too, or none fails at all. -/
theorem failing_invocation_kept_iff (ctx : IngestContext) (file : EventFile) (s t : EvidenceStore)
    (ingested : Ingested) (success : ingestEvents ctx file s = .ok ingested t) (testId : String) :
    (InvocationFails file testId → ToldFailed ingested t testId) ↔
      reportsFailedTest file testId ∨ ¬ InvocationFails file testId := by
  rw [toldFailed_iff success]
  constructor
  · intro kept
    by_cases fails : InvocationFails file testId
    · exact .inl (kept fails)
    · exact .inr fails
  · rintro (last | none_) fails
    · exact last
    · exact absurd fails none_

/-- One invocation of the identifier passes and one fails, in this order. -/
def failsLast : List Json :=
  [rawStart "demo.AppTest#each", rawFinish "demo.AppTest#each" "successful",
    rawStart "demo.AppTest#each", rawFinish "demo.AppTest#each" "failed"]

/-- The store of a run that has just begun. -/
def begunStore : EvidenceStore :=
  { Store.empty with runs := [⟨"run-1", "rev-1", "d1", .running, "2026-01-08T10:00:00+00:00", none⟩] }

def demoContext : IngestContext :=
  ⟨⟨Lib.Sha256.sha256, fun _ => 16, fun _ => (512, 256), fun _ => (1024, 512)⟩, "run-1", "rev-1",
    fun _ => ⟨fun _ => true, []⟩, fun _ => false⟩

theorem failing_invocation_kept_iff_demo :
    ∃ ingested t, ingestEvents demoContext (.lines (failsLast.map .event)) begunStore =
        .ok ingested t ∧ ToldFailed ingested t "demo.AppTest#each" := by
  have ran : answers (fun _ => true)
      (ingestEvents demoContext (.lines (failsLast.map .event)) begunStore) := by decide +kernel
  obtain ⟨ingested, t, success, -⟩ := exists_of_answers ran
  have last : reportsFailedTest (.lines (failsLast.map .event)) "demo.AppTest#each" := by
    unfold reportsFailedTest
    decide
  exact ⟨ingested, t, success,
    (failing_invocation_kept_iff _ _ _ _ _ success "demo.AppTest#each").mpr (.inl last)
      (invocationFails_of_last last)⟩

/-- The failing invocation finishes before the passing one: the test passes. -/
theorem failing_invocation_masked :
    ¬ ∀ (ctx : IngestContext) (file : EventFile) (s t : EvidenceStore) (ingested : Ingested)
        (testId : String), ingestEvents ctx file s = .ok ingested t → InvocationFails file testId →
      ingested.testStatuses[testId]? = some "failed" := by
  intro claim
  have ran : answers (fun i : Ingested => i.testStatuses.get? "demo.AppTest#each" = some "passed")
      (ingestEvents demoContext (.lines ([rawStart "demo.AppTest#each",
        rawFinish "demo.AppTest#each" "failed", rawStart "demo.AppTest#each",
        rawFinish "demo.AppTest#each" "successful"].map .event)) begunStore) := by decide +kernel
  obtain ⟨ingested, t, success, passed⟩ := exists_of_answers ran
  simp only [decide_eq_true_eq, Std.ExtTreeMap.get?_eq_getElem?] at passed
  have told := claim _ _ _ t ingested "demo.AppTest#each" success
    ⟨rawFinish "demo.AppTest#each" "failed", by decide, by decide⟩
  rw [passed] at told
  simp at told

end Walaru
