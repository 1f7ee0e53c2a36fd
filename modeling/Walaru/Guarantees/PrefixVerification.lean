import Walaru.Guarantees.CapabilityHonesty
import Walaru.Guarantees.RecordingEvidence
import Walaru.Guarantees.ReverseExecution

/-!
# Verification of a replayed prefix

A replay is compared with its recording event by event, and the comparison stops at the
first event that is missing or differs. What it accepts is what agrees through the target,
so it also accepts every target before it. A complete recording made by a record request
has its checkpoints in order and is its own replay.
-/
namespace Walaru
open Lib.StateResult

/-- The events agree in every field that a replay must reproduce. -/
structure Agrees (original fresh : Event) : Prop where
  kind : original.kind = fresh.kind
  location : original.location = fresh.location
  threadKey : original.threadKey = fresh.threadKey
  virtualThread : original.virtualThread = fresh.virtualThread
  coroutine : original.coroutine = fresh.coroutine
  logicalStack : original.logicalStack = fresh.logicalStack
  values : original.values = fresh.values
  stateHash : original.stateHash = fresh.stateHash
  outputIndex : original.outputIndex = fresh.outputIndex

theorem Agrees.refl (event : Event) : Agrees event event :=
  ⟨rfl, rfl, rfl, rfl, rfl, rfl, rfl, rfl, rfl⟩

theorem divergence_eq_none_iff {original fresh : Event} :
    divergence original fresh = none ↔ Agrees original fresh := by
  constructor
  · intro agreed
    unfold divergence at agreed
    split_ifs at agreed with kind location thread logical values hash output
    simp only [not_or, not_not] at kind location thread logical values hash output
    exact ⟨kind, location, thread.1, thread.2, logical.1, logical.2, values, hash, output⟩
  · intro agrees
    simp [divergence, agrees.kind, agrees.location, agrees.threadKey, agrees.virtualThread,
      agrees.coroutine, agrees.logicalStack, agrees.values, agrees.stateHash, agrees.outputIndex]

/-- The replayed event at the place of this one is there and agrees with it. -/
def AgreesAt (original : Event) (replayed : List Event) (i : Nat) : Prop :=
  ∃ fresh, replayed[i]? = some fresh ∧ Agrees original fresh

@[simp] theorem agreesAt_cons_succ {original fresh : Event} {replayed : List Event} {i : Nat} :
    AgreesAt original (fresh :: replayed) (i + 1) ↔ AgreesAt original replayed i := by
  simp [AgreesAt]

/-- The comparison accepts the lists that agree at every place of the originals, and else
reports the event at the first place where they do not. -/
theorem comparePrefix_result (originals replayed : List Event) :
    (comparePrefix originals replayed = .ok () ∧
      ∀ i original, originals[i]? = some original → AgreesAt original replayed i) ∨
    ∃ i original reason, originals[i]? = some original ∧
      comparePrefix originals replayed = .error (.diverged original.sequence reason) ∧
      ¬ AgreesAt original replayed i ∧
      ∀ j < i, ∀ earlier, originals[j]? = some earlier → AgreesAt earlier replayed j := by
  induction originals generalizing replayed with
  | nil => exact .inl ⟨by cases replayed <;> rfl, by simp⟩
  | cons original originals ih =>
    cases replayed with
    | nil => exact .inr ⟨0, original, _, rfl, rfl, by simp [AgreesAt], by simp⟩
    | cons fresh replayed =>
      cases found : divergence original fresh with
      | some reason =>
        have differs : ¬ Agrees original fresh := by
          rw [← divergence_eq_none_iff, found]
          exact Option.some_ne_none reason
        refine .inr ⟨0, original, reason, rfl, ?_, by simpa [AgreesAt] using differs, by simp⟩
        rw [comparePrefix, found]
      | none =>
        have agrees := divergence_eq_none_iff.mp found
        have first : AgreesAt original (fresh :: replayed) 0 := ⟨fresh, rfl, agrees⟩
        have rest : comparePrefix (original :: originals) (fresh :: replayed) =
            comparePrefix originals replayed := by
          rw [comparePrefix, found]
        rw [rest]
        rcases ih replayed with ⟨accepted, same⟩ | ⟨i, other, reason, place, rejected, differs, same⟩
        · refine .inl ⟨accepted, fun i other place => ?_⟩
          cases i with
          | zero =>
            cases place
            exact first
          | succ i => exact agreesAt_cons_succ.mpr (same i other place)
        · refine .inr ⟨i + 1, other, reason, place, rejected, ?_, fun j before earlier place => ?_⟩
          · rwa [agreesAt_cons_succ]
          · cases j with
            | zero =>
              cases place
              exact first
            | succ j => exact agreesAt_cons_succ.mpr (same j (by omega) earlier place)

/-- The replay reaches the target and agrees with the recording up to it. -/
structure AgreesThrough (originals replayed : List Event) (target : Nat) : Prop where
  long : target + 1 ≤ replayed.length
  same : ∀ i ≤ target, ∀ original fresh, originals[i]? = some original →
    replayed[i]? = some fresh → Agrees original fresh

theorem agreesThrough_iff {originals replayed : List Event} {target : Nat}
    (inside : target < originals.length) :
    AgreesThrough originals replayed target ↔
      ∀ i original, (originals.take (target + 1))[i]? = some original → AgreesAt original replayed i := by
  constructor
  · intro agrees i original place
    rw [List.getElem?_take] at place
    obtain ⟨small, listed⟩ := Option.ite_none_right_eq_some.mp place
    have reached : i < replayed.length := by
      have long := agrees.long
      omega
    exact ⟨replayed[i], List.getElem?_eq_getElem reached,
      agrees.same i (by omega) _ _ listed (List.getElem?_eq_getElem reached)⟩
  · intro all
    have at_ : ∀ i ≤ target, ∀ original, originals[i]? = some original →
        AgreesAt original replayed i := fun i small original listed =>
      all i original (by rwa [List.getElem?_take_of_lt (by omega)])
    constructor
    · obtain ⟨fresh, found, -⟩ := at_ target (Nat.le_refl _) _ (List.getElem?_eq_getElem inside)
      exact (List.getElem?_eq_some_iff.mp found).1
    · intro i small original fresh listed found
      obtain ⟨other, again, agrees⟩ := at_ i small original listed
      cases found.symm.trans again
      exact agrees

/-- The first recorded event that the replay lacks or changes. -/
structure FirstDisagreement (originals replayed : List Event) (i : Nat) (original : Event) : Prop where
  listed : originals[i]? = some original
  differs : ¬ AgreesAt original replayed i
  first : ∀ j < i, ∀ earlier, originals[j]? = some earlier → AgreesAt earlier replayed j

/-- What verification against a recording answers for one of its targets. -/
structure Verification (recording : Recording) (replayed : List Event) (target : Nat)
    (event : Event) : Prop where
  accepts : verifyReplayedPrefix recording replayed event.id = .ok () ↔
    AgreesThrough recording.events replayed target
  earlier : verifyReplayedPrefix recording replayed event.id = .ok () →
    ∀ i ≤ target, ∀ before, recording.events[i]? = some before →
      verifyReplayedPrefix recording replayed before.id = .ok ()
  reports : ∀ e, verifyReplayedPrefix recording replayed event.id = .error e →
    ∃ i ≤ target, ∃ original reason, FirstDisagreement recording.events replayed i original ∧
      e = .diverged original.sequence reason

theorem findIdx?_of_distinct {events : List Event} (distinct : (events.map (fun e => e.id)).Nodup)
    {target : Nat} {event : Event} (listed : events[target]? = some event) :
    events.findIdx? (fun other => other.id = event.id) = some target := by
  obtain ⟨inside, rfl⟩ := List.getElem?_eq_some_iff.mp listed
  rw [List.findIdx?_eq_some_iff_getElem]
  refine ⟨inside, by simp, fun j before => ?_⟩
  have apart := List.pairwise_iff_getElem.mp distinct j target (by simp; omega) (by simpa) before
  simpa using apart

theorem verifyReplayedPrefix_eq {recording : Recording} (valid : validateRecording recording = .ok ())
    {id : String} {target : Nat}
    (found : recording.events.findIdx? (fun event => event.id = id) = some target)
    (replayed : List Event) :
    verifyReplayedPrefix recording replayed id =
      comparePrefix (recording.events.take (target + 1)) replayed := by
  unfold verifyReplayedPrefix
  rw [valid, found]
  rfl

theorem comparePrefix_ok_iff {originals replayed : List Event} {target : Nat}
    (inside : target < originals.length) :
    comparePrefix (originals.take (target + 1)) replayed = .ok () ↔
      AgreesThrough originals replayed target := by
  rw [agreesThrough_iff inside]
  rcases comparePrefix_result (originals.take (target + 1)) replayed with
    ⟨accepted, same⟩ | ⟨i, original, reason, place, rejected, differs, -⟩
  · exact iff_of_true accepted same
  · refine iff_of_false ?_ fun all => differs (all i original place)
    rw [rejected]
    intro equal
    cases equal

theorem verification {recording : Recording} (valid : validateRecording recording = .ok ())
    (distinct : (recording.events.map (fun e => e.id)).Nodup) (replayed : List Event) {target : Nat}
    {event : Event} (listed : recording.events[target]? = some event) :
    Verification recording replayed target event := by
  have answer_at : ∀ {i : Nat} {other : Event}, recording.events[i]? = some other →
      verifyReplayedPrefix recording replayed other.id =
        comparePrefix (recording.events.take (i + 1)) replayed := fun place =>
    verifyReplayedPrefix_eq valid (findIdx?_of_distinct distinct place) replayed
  have inside := (List.getElem?_eq_some_iff.mp listed).1
  constructor
  · rw [answer_at listed]
    exact comparePrefix_ok_iff inside
  · intro accepted i small before place
    rw [answer_at listed, comparePrefix_ok_iff inside] at accepted
    rw [answer_at place, comparePrefix_ok_iff (by omega)]
    have long := accepted.long
    exact ⟨by omega, fun j within => accepted.same j (by omega)⟩
  · intro e rejected
    rw [answer_at listed] at rejected
    rcases comparePrefix_result (recording.events.take (target + 1)) replayed with
      ⟨accepted, -⟩ | ⟨i, original, reason, place, found, differs, same⟩
    · rw [accepted] at rejected
      cases rejected
    · rw [List.getElem?_take] at place
      obtain ⟨small, standing⟩ := Option.ite_none_right_eq_some.mp place
      rw [found] at rejected
      refine ⟨i, by omega, original, reason, ⟨standing, differs, ?_⟩, (Except.error.inj rejected).symm⟩
      intro j before earlier_ stands
      exact same j before earlier_ (by rwa [List.getElem?_take_of_lt (by omega)])

/-- The checkpoint at an event. -/
def checkpointOf (event : Event) : ReplayCheckpoint :=
  ⟨event.sequence, event.id, event.stateHash, event.outputIndex⟩

/-- The checkpoints are those of some of the events, in their order. -/
theorem replayCheckpoints_sublist (events : List Event) :
    ∃ anchors : List Event, anchors.Sublist events ∧ replayCheckpoints events = anchors.map checkpointOf := by
  refine ⟨(events.zipIdx.filter fun item =>
    item.2 = 0 || item.2 % 256 = 0 || item.2 + 1 = events.length).map Prod.fst, ?_, ?_⟩
  · have kept := (List.filter_sublist (p := fun item : Event × Nat =>
      item.2 = 0 || item.2 % 256 = 0 || item.2 + 1 = events.length) (l := events.zipIdx)).map Prod.fst
    rwa [List.zipIdx_map_fst] at kept
  · rw [List.map_map]
    rfl

theorem find?_of_increasing {events : List Event}
    (increasing : events.Pairwise fun a b => a.sequence < b.sequence) {event : Event}
    (member : event ∈ events) :
    (events.find? fun other => other.sequence = event.sequence && other.id = event.id) =
      some event := by
  obtain ⟨i, listed⟩ := List.getElem?_of_mem member
  obtain ⟨inside, rfl⟩ := List.getElem?_eq_some_iff.mp listed
  rw [List.find?_eq_some_iff_getElem]
  refine ⟨by simp, i, inside, rfl, fun j before => ?_⟩
  have less := List.pairwise_iff_getElem.mp increasing j i (by omega) inside before
  simp only [Bool.not_eq_true', Bool.and_eq_false_imp, decide_eq_true_eq]
  omega

theorem validateCheckpoints_of_sublist {events anchors : List Event}
    (increasing : events.Pairwise fun a b => a.sequence < b.sequence)
    (kept : anchors.Sublist events) (previous : Option Nat)
    (later : ∀ p ∈ previous, ∀ anchor ∈ anchors, p < anchor.sequence) :
    validateCheckpoints events previous (anchors.map checkpointOf) = .ok () := by
  induction anchors generalizing previous with
  | nil => cases previous <;> rfl
  | cons anchor anchors ih =>
    have ordered := increasing.sublist kept
    have follows : ∀ p ∈ some anchor.sequence, ∀ other ∈ anchors, p < other.sequence := by
      intro p same other member
      cases same
      exact List.rel_of_pairwise_cons ordered member
    have ascending : ¬ (previous.any fun p => p ≥ (checkpointOf anchor).sequence) = true := by
      cases previous with
      | none => simp
      | some p =>
        have less := later p rfl anchor List.mem_cons_self
        simpa [checkpointOf] using less
    have found : (events.find? fun other => other.sequence = (checkpointOf anchor).sequence &&
        other.id = (checkpointOf anchor).eventId) = some anchor :=
      find?_of_increasing increasing (kept.subset List.mem_cons_self)
    rw [List.map_cons, validateCheckpoints, if_neg ascending, found]
    dsimp only
    rw [if_neg (by simp [checkpointOf])]
    exact ih (List.sublist_of_cons_sublist kept) _ follows

/-- The events of a recording are numbered from zero. -/
theorem recorded_sequence {history : List Operation} {env : RecordEnv} {testId : String}
    {captureFileIo : Bool} {recording : Recording} {after : EvidenceStore}
    (returned : recordWithOptions env testId captureFileIo (play history) = .ok recording after)
    {i : Nat} {event : Event} (listed : recording.events[i]? = some event) : event.sequence = i := by
  obtain ⟨events, rows⟩ := recording_events returned
  rw [events, List.getElem?_map] at listed
  obtain ⟨row, place, rfl⟩ := Option.map_eq_some_iff.mp listed
  have stored : (rowsOf (recordedStore env testId captureFileIo (play history))
      env.verifier.runId)[i]? = some row := by
    obtain ⟨inside, rfl⟩ := List.getElem?_eq_some_iff.mp place
    exact (pageRows_begins _).getElem inside ▸ List.getElem?_eq_getElem _
  rw [rows] at stored
  split at stored
  · rw [runRows_getElem?] at stored
    obtain ⟨raw, -, rfl⟩ := Option.map_eq_some_iff.mp stored
    rfl
  · cases stored

theorem recorded_increasing {history : List Operation} {env : RecordEnv} {testId : String}
    {captureFileIo : Bool} {recording : Recording} {after : EvidenceStore}
    (returned : recordWithOptions env testId captureFileIo (play history) = .ok recording after) :
    recording.events.Pairwise fun a b => a.sequence < b.sequence := by
  rw [List.pairwise_iff_getElem]
  intro i j first second before
  rw [recorded_sequence returned (List.getElem?_eq_getElem first),
    recorded_sequence returned (List.getElem?_eq_getElem second)]
  exact before

/-- What validation asks of a manifest. -/
structure Replayable (capabilities : CapabilityManifest) : Prop where
  complete : capabilities.completeness = .complete
  pure_ : "pureJvm" ∈ capabilities.supported
  threads : "singleThread" ∈ capabilities.supported ∨ "threadSchedule" ∈ capabilities.supported

theorem IngestState.replayable {st : IngestState} (complete : st.manifest.completeness = .complete) :
    Replayable st.manifest := by
  have empty : st.settledUnavailable.isEmpty = true := by
    by_contra left
    unfold IngestState.manifest at complete
    rw [if_neg left] at complete
    cases complete
  refine ⟨complete, ?_, ?_⟩
  · simp [IngestState.manifest, IngestState.supported, empty]
  · by_cases several : st.threads.size > 1
    · have scheduled := (settled_of_isEmpty empty).threads several
      exact .inr (by simp [IngestState.manifest, IngestState.supported, scheduled])
    · have single : st.threads.size ≤ 1 := by omega
      exact .inl (by simp [IngestState.manifest, IngestState.supported, single])

theorem evidence_replayable {ctx : IngestContext} {file : EventFile}
    (complete : (evidence ctx file).capabilities.completeness = .complete) :
    Replayable (evidence ctx file).capabilities := by
  cases file with
  | lines stream => exact IngestState.replayable complete
  | missing => cases complete
  | unreadable message => cases complete

theorem Replayable.recorded {capabilities : CapabilityManifest} (replayable : Replayable capabilities)
    (events : List Event) : Replayable (recordingCapabilities capabilities events) := by
  unfold recordingCapabilities
  split
  · exact ⟨replayable.complete, List.mem_append_left _ replayable.pure_,
      replayable.threads.imp (List.mem_append_left _) (List.mem_append_left _)⟩
  · exact replayable

@[simp] theorem recordingCapabilities_completeness (capabilities : CapabilityManifest)
    (events : List Event) :
    (recordingCapabilities capabilities events).completeness = capabilities.completeness := by
  unfold recordingCapabilities
  split <;> rfl

/-- The manifest of a recording is that of its run's stream. -/
theorem recorded_manifest {env : RecordEnv} {testId : String} {captureFileIo : Bool}
    {s after : EvidenceStore} {recording : Recording}
    (returned : recordWithOptions env testId captureFileIo s = .ok recording after) :
    recording.capabilities = recordingCapabilities (evidence
      (env.verifier.ingestContext recording.revision) env.verifier.eventFile).capabilities
        recording.events := by
  obtain ⟨outcome, events, inputs, ran, -, -, rfl⟩ := recordWithOptions_parts returned
  obtain ⟨before, -, revision, capabilities⟩ := fresh_answer (full_fresh rfl ran) ran
  rw [← revision] at capabilities
  exact congrArg (recordingCapabilities · events) capabilities

theorem validateRecording_of {recording : Recording} (replayable : Replayable recording.capabilities)
    (anchored : validateCheckpoints recording.events none recording.checkpoints = .ok ()) :
    validateRecording recording = .ok () := by
  unfold validateRecording
  have threads : ¬ ("singleThread" ∉ recording.capabilities.supported ∧
      "threadSchedule" ∉ recording.capabilities.supported) := by
    have declared := replayable.threads
    tauto
  simp only [anchored, bind, Except.bind, replayable.complete, replayable.pure_, threads, ne_eq,
    not_true_eq_false, if_false]
  rfl

/-- A complete recording passes its own validation, checkpoints included. -/
theorem recorded_valid {history : List Operation} {env : RecordEnv} {testId : String}
    {captureFileIo : Bool} {recording : Recording} {after : EvidenceStore}
    (returned : recordWithOptions env testId captureFileIo (play history) = .ok recording after)
    (complete : recording.capabilities.completeness = .complete) :
    validateRecording recording = .ok () := by
  have replayable : Replayable recording.capabilities := by
    rw [recorded_manifest returned] at complete ⊢
    exact (evidence_replayable (by simpa using complete)).recorded _
  apply validateRecording_of replayable
  have checkpoints : recording.checkpoints = replayCheckpoints recording.events := by
    obtain ⟨_, _, _, -, -, -, rfl⟩ := recordWithOptions_parts returned
    rfl
  obtain ⟨anchors, kept, same⟩ := replayCheckpoints_sublist recording.events
  rw [checkpoints, same]
  exact validateCheckpoints_of_sublist (recorded_increasing returned) kept none (by simp)

/-- A valid recording is a replay of itself. -/
theorem verifies_itself {recording : Recording} (valid : validateRecording recording = .ok ())
    {event : Event} (member : event ∈ recording.events) :
    verifyReplayedPrefix recording recording.events event.id = .ok () := by
  cases found : recording.events.findIdx? fun other => other.id = event.id with
  | none =>
    have absent := List.findIdx?_eq_none_iff.mp found event member
    simp at absent
  | some target =>
    have inside := (List.findIdx?_eq_some_iff_getElem.mp found).1
    rw [verifyReplayedPrefix_eq valid found, comparePrefix_ok_iff inside]
    refine ⟨inside, fun i _ original fresh place again => ?_⟩
    cases place.symm.trans again
    exact .refl original

theorem prefix_verification :
    (∀ (recording : Recording), validateRecording recording = .ok () →
      (recording.events.map (fun event => event.id)).Nodup → ∀ (replayed : List Event) (target : Nat)
        (event : Event), recording.events[target]? = some event →
        Verification recording replayed target event) ∧
    ∀ (history : List Operation) (env : RecordEnv) (testId : String) (captureFileIo : Bool)
      (recording : Recording) (after : EvidenceStore),
      recordWithOptions env testId captureFileIo (play history) = .ok recording after →
      recording.capabilities.completeness = .complete →
      validateRecording recording = .ok () ∧ ∀ event ∈ recording.events,
        verifyReplayedPrefix recording recording.events event.id = .ok () := by
  constructor
  · intro recording valid distinct replayed target event listed
    exact verification valid distinct replayed listed
  · intro history env testId captureFileIo recording after returned complete
    have valid := recorded_valid returned complete
    exact ⟨valid, fun event member => verifies_itself valid member⟩

/-- The second write differs, so it is reported, and the first one verifies. -/
def secondDiffers : List Event :=
  twoWrites.events.map fun event => if event.id = "b" then { event with outputIndex := 1 } else event

theorem prefix_verification_demo :
    (verifyReplayedPrefix twoWrites secondDiffers "a" = .ok () ∧
      ∃ reason, verifyReplayedPrefix twoWrites secondDiffers "c" = .error (.diverged 1 reason)) ∧
      ∃ recording after, recordWithOptions (quietRecordEnv (demoPass "run-1")) "demo.AppTest#works"
          false (play []) = .ok recording after ∧ validateRecording recording = .ok () := by
  have valid : validateRecording twoWrites = .ok () := by decide +kernel
  have differs : ¬ Agrees twoWrites.events[1] secondDiffers[1] := fun agrees =>
    absurd agrees.outputIndex (by decide)
  refine ⟨⟨?_, ?_⟩, ?_⟩
  · apply (prefix_verification.1 twoWrites valid (by decide) secondDiffers 0 _ rfl).accepts.mpr
    refine ⟨by decide, fun i small original fresh listed found => ?_⟩
    obtain rfl : i = 0 := by omega
    cases listed
    cases found
    exact .refl _
  · have checked := prefix_verification.1 twoWrites valid (by decide) secondDiffers 2 _ rfl
    cases answered : verifyReplayedPrefix twoWrites secondDiffers "c" with
    | ok _ => exact absurd ((checked.accepts.mp answered).same 1 (by omega) _ _ rfl rfl) differs
    | error e =>
      obtain ⟨i, small, original, reason, found, rfl⟩ := checked.reports e answered
      refine ⟨reason, ?_⟩
      obtain rfl : i = 1 := by
        have before : ¬ 1 < i := fun later =>
          differs (by
            obtain ⟨_, same, agrees⟩ := found.first 1 later _ rfl
            cases same
            exact agrees)
        have after : i ≠ 0 := by
          rintro rfl
          cases found.listed
          exact found.differs ⟨_, rfl, .refl _⟩
        omega
      cases found.listed
      rfl
  · have ran : answers (fun r : Recording => r.revision = "rev-1")
      (recordWithOptions (quietRecordEnv (demoPass "run-1")) "demo.AppTest#works" false
        (play [])) := by decide +kernel
    obtain ⟨recording, after, returned, revision⟩ := exists_of_answers ran
    refine ⟨recording, after, returned, (prefix_verification.2 _ _ _ _ _ _ returned ?_).1⟩
    rw [recorded_manifest returned, recordingCapabilities_completeness, of_decide_eq_true revision]
    decide +kernel

end Walaru
