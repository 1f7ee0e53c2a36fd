import Walaru.Guarantees.CapabilityHonesty
import Walaru.Guarantees.RecordingEvidence
import Walaru.Guarantees.TapeRoundTrip
import Walaru.Source.Agent.EmittedEvents
import Walaru.Source.Agent.ScheduleFile

/-!
# The schedule from the daemon to the agent

`write_replay_schedule` writes the kind that the daemon stored for an event, and the agent
that replays it compares the category of its own type. The types are told apart wherever
the recording is complete: the one type that no kind stands for reports a lost capability.
-/
namespace Walaru.Agent
open Lib.Text Lib.StateResult

/-- The entry of a recorded event. -/
def recordedEntry (event : Event) : ScheduleEntry := ⟨scheduleCategory event.kind, event.threadKey⟩

/-- The line of an entry. -/
def entryText (entry : ScheduleEntry) : List Char :=
  entry.category.toList ++ '\t' :: (hexEncode (utf8 entry.threadKey)).toList

theorem writeReplaySchedule_text (recording : Recording) :
    (writeReplaySchedule recording).toList =
      ((recording.events.filter fun event => event.threadKey ≠ "").map fun event =>
        entryText (recordedEntry event)).flatMap fun line => line ++ ['\n'] := by
  have fold : ∀ (events : List Event) (schedule : String),
      (events.foldl (fun schedule event => schedule ++ scheduleCategory event.kind ++ "\t" ++
        hexEncode (utf8 event.threadKey) ++ "\n") schedule).toList =
      schedule.toList ++ (events.map fun event => entryText (recordedEntry event)).flatMap fun line =>
        line ++ ['\n'] := by
    intro events
    induction events with
    | nil => simp
    | cons event rest ih =>
      intro schedule
      rw [List.foldl_cons, ih]
      simp [entryText, recordedEntry]
  rw [writeReplaySchedule, fold]
  simp

theorem scheduleCategory_plain (kind : EventKind) :
    '\t' ∉ (scheduleCategory kind).toList ∧ '\n' ∉ (scheduleCategory kind).toList ∧
      '\r' ∉ (scheduleCategory kind).toList ∧ isBlank (scheduleCategory kind).toList = false := by
  cases kind <;> decide

theorem hexEncode_plain (bytes : List UInt8) :
    '\n' ∉ (hexEncode bytes).toList ∧ '\r' ∉ (hexEncode bytes).toList :=
  (separators_ne fun _ inside => (kindChar_apart (hexEncode_kindChar inside)).1).2

theorem scheduleLine_entryText (event : Event) :
    scheduleLine (entryText (recordedEntry event)) = some (recordedEntry event) := by
  have split_ : splitOnce '\t' (String.ofList (entryText (recordedEntry event))) =
      some (scheduleCategory event.kind, hexEncode (utf8 event.threadKey)) := by
    have text : String.ofList (entryText (recordedEntry event)) =
        scheduleCategory event.kind ++ String.singleton '\t' ++ hexEncode (utf8 event.threadKey) := by
      apply String.toList_inj.mp
      simp [entryText, recordedEntry]
    rw [text]
    exact splitOnce_append (scheduleCategory_plain event.kind).1 _
  have key : Lib.Utf8.decodeLossy (utf8 event.threadKey) = event.threadKey :=
    Lib.Utf8.decodeLossy_encode event.threadKey
  simp only [scheduleLine, split_, Option.bind_eq_bind, Option.bind_some, parseHex_hexEncode, key]
  rfl

/-- The agent reads the entries that the daemon wrote. -/
theorem readSchedule_write (recording : Recording) :
    readSchedule (writeReplaySchedule recording) =
      some ((recording.events.filter fun event => event.threadKey ≠ "").map recordedEntry) := by
  generalize keyed : (recording.events.filter fun event => event.threadKey ≠ "") = events
  have plain : ∀ line ∈ events.map fun event => entryText (recordedEntry event),
      '\n' ∉ line ∧ '\r' ∉ line := by
    intro line member
    obtain ⟨event, -, rfl⟩ := List.mem_map.mp member
    obtain ⟨-, newline, carriage, -⟩ := scheduleCategory_plain event.kind
    have digits := hexEncode_plain (utf8 event.threadKey)
    simp only [entryText, recordedEntry, List.mem_append, List.mem_cons, not_or]
    exact ⟨⟨newline, by decide, digits.1⟩, carriage, by decide, digits.2⟩
  have written : ∀ line ∈ events.map fun event => entryText (recordedEntry event),
      (!isBlank line) = true := by
    intro line member
    obtain ⟨event, -, rfl⟩ := List.mem_map.mp member
    have dark := (scheduleCategory_plain event.kind).2.2.2
    rw [isBlank] at dark ⊢
    rw [entryText, List.all_append]
    simp only [recordedEntry, dark, Bool.false_and, Bool.not_false]
  rw [readSchedule, writeReplaySchedule_text, keyed, readAllLines_ended plain,
    List.filter_eq_self.mpr written]
  clear keyed plain written
  induction events with
  | nil => rfl
  | cons event rest ih =>
    rw [List.map_cons, List.mapM_cons, scheduleLine_entryText, ih]
    rfl

theorem kindName_capabilityMissing {capability : String} {raw : Json}
    (missing : capabilityMissing capability raw = true) : kindName raw = "CAPABILITY" := by
  simp only [capabilityMissing, Bool.and_eq_true, decide_eq_true_eq] at missing
  exact missing.1.1

/-- Each event of a read is that of one read. -/
theorem emitNext_counts {pending after : List Nat} {raw : Json}
    (next : emitNext pending raw = some after) :
    (fileReadCall raw).toNat + pending.length =
      (fileReadInput raw).toNat + (capabilityMissing "io" raw).toNat + after.length := by
  have call : fileReadCall raw = true → kindName raw = "CALL" := by
    intro given
    simp only [fileReadCall, Bool.and_eq_true, decide_eq_true_eq] at given
    exact given.1
  have input : fileReadInput raw = true → kindName raw = "INPUT" := by
    intro given
    simp only [fileReadInput, Bool.and_eq_true, decide_eq_true_eq] at given
    exact given.1
  have lost := @kindName_capabilityMissing "io" raw
  have apart : ∀ a b : Bool, ∀ left right : String, (a = true → kindName raw = left) →
      (b = true → kindName raw = right) → left ≠ right → (a && b) = false := by
    intro a b left right first second differ
    cases a
    · rfl
    · cases b
      · rfl
      · exact absurd ((first rfl).symm.trans (second rfl)) differ
  have callInput := apart _ _ _ _ call input (by decide)
  have callLost := apart _ _ _ _ call lost (by decide)
  have inputLost := apart _ _ _ _ input lost (by decide)
  simp only [emitNext] at next
  split at next
  · rename_i called
    rw [called, Bool.true_and] at callInput callLost
    obtain rfl := Option.some.inj next
    simp [called, callInput, callLost]
    omega
  · rename_i called
    rw [Bool.not_eq_true] at called
    split at next
    · rename_i ended
      split at next
      · rename_i member
        obtain rfl := Option.some.inj next
        have occupied := List.length_pos_of_mem member
        rw [called, List.length_erase_of_mem member]
        cases given : fileReadInput raw with
        | true =>
          rw [given, Bool.true_and] at inputLost
          rw [inputLost]
          simp
          omega
        | false =>
          rw [given, Bool.false_or] at ended
          rw [ended]
          simp
          omega
      · cases next
    · rename_i open_
      rw [Bool.not_eq_true, Bool.or_eq_false_iff] at open_
      split at next
      · obtain rfl := Option.some.inj next
        simp [called, open_.1, open_.2]
      · cases next

theorem emitNext_type {pending after : List Nat} {raw : Json}
    (next : emitNext pending raw = some after) :
    kindName raw ∈ plainTypes ∨ capabilityMissing "io" raw = true ∨
      capabilityMissing "instrumentation" raw = true := by
  simp only [emitNext] at next
  split at next
  · rename_i called
    simp only [fileReadCall, Bool.and_eq_true, decide_eq_true_eq] at called
    rw [called.1]
    exact .inl (by decide)
  · split at next
    · rename_i ended
      rcases Bool.or_eq_true_iff.mp ended with input | lost
      · simp only [fileReadInput, Bool.and_eq_true, decide_eq_true_eq] at input
        rw [input.1]
        exact .inl (by decide)
      · exact .inr (.inl lost)
    · split at next
      · rename_i given
        exact given.imp_right .inr
      · cases next

theorem emitted_counts {pending after : List Nat} {raws : List Json}
    (run : raws.foldlM emitNext pending = some after) :
    raws.countP fileReadCall + pending.length =
      raws.countP fileReadInput + raws.countP (capabilityMissing "io") + after.length ∧
    ∀ raw ∈ raws, kindName raw ∈ plainTypes ∨ capabilityMissing "io" raw = true ∨
      capabilityMissing "instrumentation" raw = true := by
  induction raws generalizing pending with
  | nil =>
    obtain rfl := Option.some.inj run
    simp
  | cons raw rest ih =>
    rw [List.foldlM_cons, Option.bind_eq_bind, Option.bind_eq_some_iff] at run
    obtain ⟨mid, next, later⟩ := run
    obtain ⟨counts, types⟩ := ih later
    have step := emitNext_counts next
    refine ⟨?_, List.forall_mem_cons.mpr ⟨emitNext_type next, types⟩⟩
    have cell : ∀ p : Json → Bool, (raw :: rest).countP p = rest.countP p + (p raw).toNat := by
      intro p
      rw [List.countP_cons]
      cases p raw <;> rfl
    rw [cell, cell, cell]
    omega

/-- No read was too large and every class was transformed. -/
theorem complete_types {ctx : IngestContext} {file : EventFile}
    (complete : (evidence ctx file).capabilities.completeness = .complete)
    (emitted : AgentStream file.raws) : ∀ raw ∈ file.raws, kindName raw ∈ plainTypes := by
  have settled := settled_of_complete complete
  obtain ⟨after, run⟩ := Option.isSome_iff_exists.mp emitted
  obtain ⟨counts, types⟩ := emitted_counts run
  have unavailable : ∀ raw ∈ file.raws, ∀ capability, capabilityMissing capability raw = true →
      capability ∈ (finalState ctx file).unavailable := by
    intro raw member capability missing
    simp only [capabilityMissing, Bool.and_eq_true, decide_eq_true_eq] at missing
    exact (mem_unavailable_iff file capability).mpr ⟨raw, member, .inr ⟨missing.1, missing.2⟩⟩
  intro raw member
  rcases types raw member with plain | lost | lost
  · exact plain
  · -- every read of a complete recording has its input, so that none is left for this one
    rcases settled.keys "io" (unavailable raw member "io" lost) with ⟨other, -⟩ | ⟨-, -, reads, -⟩
    · exact absurd other (by decide)
    · rw [final_recordedFileInputs, final_supportedFileIoCalls] at reads
      have some_ : 0 < file.raws.countP (capabilityMissing "io") :=
        List.countP_pos_iff.mpr ⟨raw, member, lost⟩
      rw [List.length_nil] at counts
      omega
  · rcases settled.keys _ (unavailable raw member "instrumentation" lost) with ⟨other, -⟩ | ⟨other, -⟩
    · exact absurd other (by decide)
    · exact absurd other (by decide)

theorem sameCategory_plain {rawType : String} (plain : rawType ∈ plainTypes) :
    scheduleCategory (eventKind rawType) = replayCategory rawType := by
  have table : (plainTypes.all fun rawType =>
      decide (scheduleCategory (eventKind rawType) = replayCategory rawType)) = true := by decide
  exact of_decide_eq_true (List.all_eq_true.mp table rawType plain)

/-- What the agent announces when it replays an event. -/
def announced (raw : Json) : ScheduleEntry := ⟨replayCategory (kindName raw), threadKeyOf raw⟩

/-- The events that the daemon ingests from these lines. -/
def ingestedEvents (ctx : IngestContext) (raws : List Json) : List Event :=
  (eventRows ctx 0 raws).map fun row => row.payload.content

theorem eventRows_take (ctx : IngestContext) (n sequence : Nat) (raws : List Json) :
    (eventRows ctx sequence raws).take n = eventRows ctx sequence (raws.take n) := by
  induction raws generalizing n sequence with
  | nil => simp [eventRows]
  | cons raw rest ih =>
    cases n with
    | zero => rfl
    | succ n => rw [eventRows, List.take_succ_cons, ih, List.take_succ_cons, eventRows]

/-- The events with a thread are announced as they were recorded. -/
theorem recordedEntry_ingested (ctx : IngestContext) {raws : List Json}
    (plain : ∀ raw ∈ raws, kindName raw ∈ plainTypes) :
    ((ingestedEvents ctx raws).filter fun event => event.threadKey ≠ "").map recordedEntry =
      (raws.filter fun raw => threadKeyOf raw ≠ "").map announced := by
  have rows : ∀ sequence, (((eventRows ctx sequence raws).map fun row => row.payload.content).filter
      fun event => event.threadKey ≠ "").map recordedEntry =
      (raws.filter fun raw => threadKeyOf raw ≠ "").map announced := by
    induction raws with
    | nil => intro sequence; rfl
    | cons raw rest ih =>
      intro sequence
      rw [List.forall_mem_cons] at plain
      have later := ih plain.2 (sequence + 1)
      have key : (eventRow ctx sequence raw).payload.content.threadKey = threadKeyOf raw := rfl
      have entry : recordedEntry (eventRow ctx sequence raw).payload.content = announced raw := by
        rw [announced, ← sameCategory_plain plain.1]
        rfl
      rw [eventRows, List.map_cons, List.filter_cons, List.filter_cons, key]
      split
      · rw [List.map_cons, List.map_cons, entry, later]
      · exact later
  exact rows 0

/-- The recorded events are those of the first lines of the stream. -/
theorem recording_ingested {history : List Operation} {env : RecordEnv} {testId : String}
    {captureFileIo : Bool} {recording : Recording} {after : EvidenceStore}
    (returned : recordWithOptions env testId captureFileIo (play history) = .ok recording after) :
    ∃ raws, raws <+: env.verifier.eventFile.raws ∧
      recording.events = ingestedEvents (env.verifier.ingestContext recording.revision) raws := by
  obtain ⟨page, rows⟩ := recording_events returned
  rw [page, rows]
  split
  · refine ⟨_, List.take_prefix (pageRows (runRows env.verifier recording.revision)).length _, ?_⟩
    rw [ingestedEvents, ← eventRows_take]
    exact congrArg _ (List.prefix_iff_eq_take.mp (pageRows_begins _))
  · exact ⟨[], List.nil_prefix, rfl⟩

/-- The agent that replays a complete recording reads its events with a thread, in order, and
each under the category that it announces for the event's own type. -/
theorem schedule_round_trip {history : List Operation} {env : RecordEnv} {testId : String}
    {captureFileIo : Bool} {recording : Recording} {after : EvidenceStore}
    (returned : recordWithOptions env testId captureFileIo (play history) = .ok recording after)
    (complete : recording.capabilities.completeness = .complete)
    (emitted : AgentStream env.verifier.eventFile.raws) :
    readSchedule (writeReplaySchedule recording) =
        some ((recording.events.filter fun event => event.threadKey ≠ "").map recordedEntry) ∧
      ∃ raws, raws <+: env.verifier.eventFile.raws ∧
        recording.events = ingestedEvents (env.verifier.ingestContext recording.revision) raws ∧
        readSchedule (writeReplaySchedule recording) =
          some ((raws.filter fun raw => threadKeyOf raw ≠ "").map announced) := by
  obtain ⟨raws, begins, events⟩ := recording_ingested returned
  obtain ⟨outcome, -, same, revision, settled⟩ := recording_completeness returned
  rw [same, settled] at complete
  have plain : ∀ raw ∈ raws, kindName raw ∈ plainTypes := fun raw member =>
    complete_types complete emitted raw (begins.subset member)
  have read := readSchedule_write recording
  refine ⟨read, raws, begins, events, read.trans ?_⟩
  rw [events, recordedEntry_ingested _ plain]

/-- A recorded test that enters a method on the main thread. -/
def enteringRun : VerifierEnv :=
  quietEnv "run-1" (demoSnapshot "rev-1" "d1") true
    [rawStart "demo.AppTest#works",
      rawEvent "METHOD_ENTER" "demo.AppTest#works" [("threadKey", .string "platform:main")],
      rawFinish "demo.AppTest#works" "successful"]

theorem schedule_round_trip_demo :
    ∃ recording after, recordWithOptions (quietRecordEnv enteringRun) "demo.AppTest#works" false
        (play []) = .ok recording after ∧
      ∃ raws, raws <+: (quietRecordEnv enteringRun).verifier.eventFile.raws ∧
        recording.events = ingestedEvents
          ((quietRecordEnv enteringRun).verifier.ingestContext recording.revision) raws ∧
        readSchedule (writeReplaySchedule recording) =
          some ((raws.filter fun raw => threadKeyOf raw ≠ "").map announced) := by
  have ran : answers (fun r : Recording => r.revision = "rev-1")
      (recordWithOptions (quietRecordEnv enteringRun) "demo.AppTest#works" false
        (play [])) := by decide +kernel
  have settled : answers (fun o : VerificationOutcome => o.capabilities.completeness = .complete)
      (verify enteringRun (recordRequest "demo.AppTest#works" false) (play [])) := by decide +kernel
  obtain ⟨recording, after, returned, -⟩ := exists_of_answers ran
  obtain ⟨outcome, t, verified, complete⟩ := exists_of_answers settled
  obtain ⟨other, again, same, -⟩ := recording_completeness returned
  obtain ⟨rfl, -⟩ := EStateM.Result.ok.inj (again.symm.trans verified)
  have emitted : AgentStream (quietRecordEnv enteringRun).verifier.eventFile.raws := by
    unfold AgentStream
    decide
  exact ⟨recording, after, returned,
    (schedule_round_trip returned (same.trans (of_decide_eq_true complete)) emitted).2⟩

end Walaru.Agent
