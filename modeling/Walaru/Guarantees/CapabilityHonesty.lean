import Mathlib.Tactic.IntervalCases
import Walaru.Guarantees.InvocationStatus
import Walaru.Source.Daemon.IngestCapabilities

/-!
# What a complete manifest means

The manifest of a run is complete when nothing is left in the `unavailable` map. Entries
leave the map again when the inputs are as many as the calls that need one, and in a stream
where every input belongs to a call of its own that is enough: no call is left without.
-/
namespace Walaru
open Lib.Text Lib.StateResult Lib.Matching

/-- Each input of the stream belongs to an earlier call of its kind, no two to one call. -/
structure InputsBelong (file : EventFile) (call : Nat → Nat) : Prop where
  earlier : ∀ i raw, file.at i raw → kindName raw = "INPUT" →
    call i < i ∧ ∃ source, file.at (call i) source ∧
      (if fileInput raw then fileReadCall source else nondeterministicCall source) = true
  apart : ∀ i j raw other, file.at i raw → kindName raw = "INPUT" → file.at j other →
    kindName other = "INPUT" → call i = call j → i = j

/-- The call at this place has an input of its own. -/
def HasInput (file : EventFile) (call : Nat → Nat) (place : Nat) : Prop :=
  ∃ i raw, file.at i raw ∧ kindName raw = "INPUT" ∧ call i = place

/-- Capabilities whose loss inputs cannot make good. -/
def unrecordedCapabilities : List String :=
  ["subprocess", "environment", "systemProperties", "native"]

/-- What a complete manifest says about the stream. -/
structure Honest (file : EventFile) (call : Nat → Nat) : Prop where
  io : ∀ raw ∈ file.raws, kindName raw = "CALL" → ioBoundary raw = true →
    supportedFileIoBoundary raw = true
  boundaries : ∀ raw ∈ file.raws, ∀ capability ∈ unrecordedCapabilities, ¬ crosses capability raw
  reads : ∀ i raw, file.at i raw → fileReadCall raw = true → HasInput file call i
  inputs : ∀ i raw, file.at i raw → nondeterministicCall raw = true → HasInput file call i
  capabilities : ∀ raw ∈ file.raws, capabilityLost raw →
    capabilityName raw = "io" ∨ capabilityName raw = "nondeterminism"
  threads : (∃ a ∈ file.raws, ∃ b ∈ file.raws, threadIdOf a ≠ threadIdOf b) →
    (∀ raw ∈ file.raws, ∃ named ∈ file.raws, threadIdOf named = threadIdOf raw ∧
      threadKeyOf named ≠ "") ∧
    (∀ a ∈ file.raws, ∀ b ∈ file.raws, threadKeyOf a ≠ "" → threadKeyOf b ≠ "" →
      (threadIdOf a = threadIdOf b ↔ threadKeyOf a = threadKeyOf b)) ∧
    ∀ raw ∈ file.raws, endsWith ":<unnamed>" (threadKeyOf raw) = false

variable {ctx : IngestContext} {file : EventFile} {call : Nat → Nat} {st : IngestState}

/-- Nothing is left in the map. -/
structure Settled (st : IngestState) : Prop where
  threads : st.threads.size > 1 → st.scheduledThreads = true
  keys : ∀ key ∈ st.unavailable,
    (key = "nondeterminism" ∧ st.nondeterministicCalls > 0 ∧
        st.deterministicInputs = st.nondeterministicCalls) ∨
      (key = "io" ∧ st.supportedFileIoCalls > 0 ∧
        st.recordedFileInputs = st.supportedFileIoCalls ∧ st.unsupportedIoObserved = false)

theorem mem_erase_if {condition : Prop} [Decidable condition] {map : BTreeMap String String}
    {erased key : String} (member : key ∈ map) (gone : key ∉ if condition then map.erase erased else map) :
    condition ∧ key = erased := by
  split at gone
  · rename_i holds
    rw [Std.ExtTreeMap.mem_erase, not_and] at gone
    refine ⟨holds, ?_⟩
    by_contra other
    exact gone (fun same => other (Std.LawfulEqCmp.compare_eq_iff_eq.mp same).symm) member
  · exact absurd member gone

theorem settled_of_isEmpty (empty : st.settledUnavailable.isEmpty = true) : Settled st := by
  have gone : ∀ key : String, key ∉ st.settledUnavailable := by
    intro key
    rw [Std.ExtTreeMap.isEmpty_iff.mp empty]
    exact Std.ExtTreeMap.not_mem_empty
  -- a key of the map before the erasures was erased by one of them
  have erased : ∀ key, key ∈ (if st.threads.size > 1 ∧ (!st.scheduledThreads) = true then
      st.unavailable.insert "threads" (toString st.threads.size ++
        " JVM threads emitted events but lacked unique stable names") else st.unavailable) →
      (key = "nondeterminism" ∧ st.nondeterministicCalls > 0 ∧
          st.deterministicInputs = st.nondeterministicCalls) ∨
        (key = "io" ∧ st.supportedFileIoCalls > 0 ∧
          st.recordedFileInputs = st.supportedFileIoCalls ∧ st.unsupportedIoObserved = false) := by
    intro key member
    by_contra neither
    rw [not_or] at neither
    refine gone key ?_
    unfold IngestState.settledUnavailable
    by_contra absent
    have inner : key ∉ (if st.nondeterministicCalls > 0 ∧
        st.deterministicInputs = st.nondeterministicCalls then
          (if st.threads.size > 1 ∧ (!st.scheduledThreads) = true then
            st.unavailable.insert "threads" (toString st.threads.size ++
              " JVM threads emitted events but lacked unique stable names")
          else st.unavailable).erase "nondeterminism" else
          (if st.threads.size > 1 ∧ (!st.scheduledThreads) = true then
            st.unavailable.insert "threads" (toString st.threads.size ++
              " JVM threads emitted events but lacked unique stable names")
          else st.unavailable)) := by
      intro inside
      obtain ⟨⟨some_, counts, clean⟩, same⟩ := mem_erase_if inside absent
      exact neither.2 ⟨same, some_, counts, by simpa using clean⟩
    obtain ⟨⟨some_, counts⟩, same⟩ := mem_erase_if member inner
    exact neither.1 ⟨same, some_, counts⟩
  constructor
  · intro several
    by_contra unscheduled
    have member := erased "threads" (by
      rw [if_pos ⟨several, by simpa using unscheduled⟩]
      simp)
    simp at member
  · intro key member
    apply erased
    split
    · rw [Std.ExtTreeMap.mem_insert]
      exact .inr member
    · exact member

/-- A key of the map is one that inputs can settle. -/
theorem Settled.recoverable (settled : Settled (finalState ctx file)) {raw : Json} {key : String}
    (member : raw ∈ file.raws) (made : crosses key raw ∨ (capabilityLost raw ∧ capabilityName raw = key)) :
    key = "io" ∨ key = "nondeterminism" := by
  rcases settled.keys key ((mem_unavailable_iff file key).mpr ⟨raw, member, made⟩) with found | found
  · exact .inr found.1
  · exact .inl found.1

theorem crosses_io {raw : Json} (called : kindName raw = "CALL") (boundary : ioBoundary raw = true) :
    crosses "io" raw := by
  obtain ⟨owner, given, outside⟩ := (Option.any_eq_true _ _).mp boundary
  refine ⟨called, _, List.mem_cons_self, rfl, ?_⟩
  change ioOwner (targetOwner raw) = true
  rwa [targetOwner, given]

theorem ioBoundary_of_supported {raw : Json} (reads : supportedFileIoBoundary raw = true) :
    ioBoundary raw = true := by
  unfold supportedFileIoBoundary at reads
  rw [Bool.and_eq_true, decide_eq_true_eq] at reads
  rw [ioBoundary, reads.1]
  decide

theorem crosses_nondeterminism {raw : Json} (called : nondeterministicCall raw = true) :
    crosses "nondeterminism" raw := by
  unfold nondeterministicCall at called
  rw [Bool.and_eq_true, decide_eq_true_eq] at called
  have rule : boundaryRules[4]? = some _ := rfl
  exact ⟨called.1, _, List.mem_of_getElem? rule, rfl, called.2⟩

theorem Settled.reads (settled : Settled (finalState ctx file)) {raw : Json} (member : raw ∈ file.raws)
    (crossed : crosses "io" raw) :
    file.raws.countP fileReadInput = file.raws.countP fileReadCall ∧
      ∀ other ∈ file.raws, unsupportedIoCall other = false := by
  have missing : "io" ∈ (finalState ctx file).unavailable :=
    (mem_unavailable_iff file "io").mpr ⟨raw, member, .inl crossed⟩
  rcases settled.keys "io" missing with found | ⟨-, -, counts, clean⟩
  · exact absurd found.1 (by decide)
  · rw [final_recordedFileInputs, final_supportedFileIoCalls] at counts
    refine ⟨counts, fun other present => ?_⟩
    by_contra unsupported
    have observed : (finalState ctx file).unsupportedIoObserved = true :=
      (final_unsupportedIo file).mpr ⟨other, present, by simpa using unsupported⟩
    rw [clean] at observed
    cases observed

theorem Settled.inputs (settled : Settled (finalState ctx file)) {raw : Json} (member : raw ∈ file.raws)
    (crossed : crosses "nondeterminism" raw) :
    file.raws.countP deterministicInput = file.raws.countP nondeterministicCall := by
  have missing : "nondeterminism" ∈ (finalState ctx file).unavailable :=
    (mem_unavailable_iff file "nondeterminism").mpr ⟨raw, member, .inl crossed⟩
  rcases settled.keys "nondeterminism" missing with ⟨-, -, counts⟩ | found
  · rwa [final_deterministicInputs, final_nondeterministicCalls] at counts
  · exact absurd found.1 (by decide)

/-- As many inputs of a kind as calls that need one: every such call has its own. -/
theorem hasInput_of_counts {p q : Json → Bool} (belong : InputsBelong file call)
    (input : ∀ raw, p raw = true → kindName raw = "INPUT")
    (kind : ∀ raw source, p raw = true →
      (if fileInput raw then fileReadCall source else nondeterministicCall source) = true →
        q source = true)
    (counts : file.raws.countP p = file.raws.countP q) {i : Nat} {raw : Json} (place : file.at i raw)
    (needs : q raw = true) : HasInput file call i := by
  have maps : ∀ i raw, file.at i raw → p raw = true →
      ∃ source, file.at (call i) source ∧ q source = true := by
    intro i raw place given
    obtain ⟨-, source, there, same⟩ := belong.earlier i raw place (input raw given)
    exact ⟨source, there, kind raw source given same⟩
  have apart : ∀ i j raw other, file.at i raw → p raw = true → file.at j other → p other = true →
      call i = call j → i = j := fun i j raw other here given there also =>
    belong.apart i j raw other here (input raw given) there (input other also)
  obtain ⟨j, given, there, also, same⟩ := matched_onto maps apart counts place needs
  exact ⟨j, given, there, input given also, same⟩

theorem threads_of_two {a b : Json} (first : a ∈ file.raws) (second : b ∈ file.raws)
    (two : threadIdOf a ≠ threadIdOf b) : (finalState ctx file).threads.size > 1 := by
  have members : [threadIdOf a, threadIdOf b] ⊆ (finalState ctx file).threads.toList := by
    intro id member
    rw [Std.ExtTreeSet.mem_toList, mem_threads_iff]
    simp only [List.mem_cons, List.not_mem_nil, or_false] at member
    rcases member with rfl | rfl
    · exact ⟨a, first, rfl⟩
    · exact ⟨b, second, rfl⟩
  have distinct : [threadIdOf a, threadIdOf b].Nodup := by simp [two]
  have count := (List.subperm_of_subset distinct members).length_le
  rw [Std.ExtTreeSet.length_toList] at count
  exact count

theorem nodup_distinctSorted (ids : List String) : (Store.distinctSorted ids).Nodup := by
  unfold Store.distinctSorted
  exact (Std.ExtTreeSet.distinct_toList).imp fun differ same =>
    differ (Std.LawfulEqCmp.compare_eq_iff_eq.mpr same)

/-- Threads that are scheduled: every id has one key, and no two share it. -/
structure Scheduled (st : IngestState) : Prop where
  free : st.threadIdentityConflict = false
  keyed : ∀ id ∈ st.threads, ∃ key, st.threadKeys[id]? = some key
  apart : ∀ (a b : Nat) (key : String), st.threadKeys[a]? = some key → st.threadKeys[b]? = some key → a = b
  named : ∀ (id : Nat) (key : String), st.threadKeys[id]? = some key → endsWith ":<unnamed>" key = false

theorem scheduled_of (within : ∀ id key, st.threadKeys[id]? = some key → id ∈ st.threads)
    (scheduled : st.scheduledThreads = true) : Scheduled st := by
  unfold IngestState.scheduledThreads at scheduled
  simp only [Bool.and_eq_true, Bool.not_eq_true', decide_eq_true_eq, List.all_eq_true] at scheduled
  obtain ⟨⟨⟨⟨-, free⟩, sizes⟩, distinct⟩, named⟩ := scheduled
  have member : ∀ {id key}, st.threadKeys[id]? = some key → (id, key) ∈ st.threadKeys.toList :=
    fun found => Std.ExtTreeMap.mem_toList_iff_getElem?_eq_some.mpr found
  have once : (st.threadKeys.toList.map Prod.snd).Nodup := by
    apply nodup_of_length (nodup_distinctSorted _) (fun _ => mem_distinctSorted)
    rw [List.length_map, Std.ExtTreeMap.length_toList, sizes]
    exact distinct
  constructor
  · exact free
  · intro id seen
    have keys : st.threadKeys.keys ⊆ st.threads.toList := by
      intro id listed
      rw [Std.ExtTreeMap.mem_keys, Std.ExtTreeMap.mem_iff_isSome_getElem?] at listed
      obtain ⟨key, found⟩ := Option.isSome_iff_exists.mp listed
      exact Std.ExtTreeSet.mem_toList.mpr (within id key found)
    have distinctKeys : st.threadKeys.keys.Nodup :=
      Std.ExtTreeMap.distinct_keys.imp fun differ same =>
        differ (Std.LawfulEqCmp.compare_eq_iff_eq.mpr same)
    have lengths : st.threads.toList.length ≤ st.threadKeys.keys.length := by
      rw [Std.ExtTreeMap.length_keys, Std.ExtTreeSet.length_toList, sizes]
    have same := (List.subperm_of_subset distinctKeys keys).perm_of_length_le lengths
    have listed : id ∈ st.threadKeys.keys := same.mem_iff.mpr (Std.ExtTreeSet.mem_toList.mpr seen)
    rw [Std.ExtTreeMap.mem_keys, Std.ExtTreeMap.mem_iff_isSome_getElem?] at listed
    exact Option.isSome_iff_exists.mp listed
  · intro a b key first second
    have pair := List.inj_on_of_nodup_map once (member first) (member second) rfl
    exact congrArg Prod.fst pair
  · intro id key found
    have valued : key ∈ st.distinctThreadKeys :=
      mem_distinctSorted.mpr (List.mem_map.mpr ⟨(id, key), member found, rfl⟩)
    simpa using named key valued

theorem threadKeys_within (file : EventFile) (id : Nat) (key : String)
    (found : (finalState ctx file).threadKeys[id]? = some key) : id ∈ (finalState ctx file).threads := by
  obtain ⟨raw, member, same, -⟩ := (identified_final file).listed id key found
  exact (mem_threads_iff file id).mpr ⟨raw, member, same⟩

/-- Threads with a stable key each, none of them unnamed. -/
structure NamedThreads (raws : List Json) : Prop where
  keyed : ∀ raw ∈ raws, ∃ other ∈ raws, threadIdOf other = threadIdOf raw ∧ threadKeyOf other ≠ ""
  apart : ∀ a ∈ raws, ∀ b ∈ raws, threadKeyOf a ≠ "" → threadKeyOf b ≠ "" →
    (threadIdOf a = threadIdOf b ↔ threadKeyOf a = threadKeyOf b)
  named : ∀ raw ∈ raws, endsWith ":<unnamed>" (threadKeyOf raw) = false

theorem NamedThreads.scheduled (threads : NamedThreads file.raws) : Scheduled (finalState ctx file) := by
  have identified : Identified file.raws (finalState ctx file) := identified_final file
  have free : (finalState ctx file).threadIdentityConflict = false := by
    by_contra conflicted
    rw [Bool.not_eq_false] at conflicted
    obtain ⟨a, inA, b, inB, namedA, namedB, same, differs⟩ := identified.conflicting conflicted
    exact differs ((threads.apart a inA b inB namedA namedB).mp same)
  refine ⟨free, ?_, ?_, ?_⟩
  · intro id seen
    obtain ⟨raw, member, rfl⟩ := (mem_threads_iff file id).mp seen
    obtain ⟨other, present, same, named⟩ := threads.keyed raw member
    refine ⟨threadKeyOf other, ?_⟩
    rw [← same]
    refine (identified.seen other present named).resolve_right fun conflicted => ?_
    rw [free] at conflicted
    cases conflicted
  · intro a b key first second
    obtain ⟨rawA, inA, rfl, keyA, named⟩ := identified.listed a key first
    obtain ⟨rawB, inB, rfl, keyB, -⟩ := identified.listed b key second
    refine (threads.apart rawA inA rawB inB ?_ ?_).mpr (keyA.trans keyB.symm)
    · rwa [keyA]
    · rwa [keyB]
  · intro id key found
    obtain ⟨raw, member, -, rfl, -⟩ := identified.listed id key found
    exact threads.named raw member

/-- Several threads that have their keys to themselves are scheduled. -/
theorem Scheduled.scheduledThreads (scheduled : Scheduled st)
    (within : ∀ (id : Nat) (key : String), st.threadKeys[id]? = some key → id ∈ st.threads)
    (several : st.threads.size > 1) : st.scheduledThreads = true := by
  have distinctKeys : st.threadKeys.keys.Nodup :=
    Std.ExtTreeMap.distinct_keys.imp fun differ same =>
      differ (Std.LawfulEqCmp.compare_eq_iff_eq.mpr same)
  have distinctThreads : st.threads.toList.Nodup :=
    Std.ExtTreeSet.distinct_toList.imp fun differ same =>
      differ (Std.LawfulEqCmp.compare_eq_iff_eq.mpr same)
  have keyOf : ∀ {entry : Nat × String}, entry ∈ st.threadKeys.toList →
      st.threadKeys[entry.1]? = some entry.2 :=
    fun listed => Std.ExtTreeMap.mem_toList_iff_getElem?_eq_some.mp listed
  have sizes : st.threadKeys.size = st.threads.size := by
    have same : st.threadKeys.keys.Perm st.threads.toList :=
      (List.perm_ext_iff_of_nodup distinctKeys distinctThreads).mpr fun id => by
        rw [Std.ExtTreeMap.mem_keys, Std.ExtTreeMap.mem_iff_isSome_getElem?, Option.isSome_iff_exists,
          Std.ExtTreeSet.mem_toList]
        exact ⟨fun ⟨key, found⟩ => within id key found, scheduled.keyed id⟩
    rw [← Std.ExtTreeMap.length_keys, same.length_eq, Std.ExtTreeSet.length_toList]
  have once : (st.threadKeys.toList.map Prod.snd).Nodup := by
    refine List.Nodup.map_on ?_ ?_
    · intro a inA b inB same
      have second := keyOf inB
      rw [← same] at second
      exact Prod.ext (scheduled.apart _ _ _ (keyOf inA) second) same
    · refine List.Nodup.of_map Prod.fst ?_
      rwa [Std.ExtTreeMap.map_fst_toList_eq_keys]
  have distinct : st.distinctThreadKeys.length = st.threads.size := by
    have same : st.distinctThreadKeys.Perm (st.threadKeys.toList.map Prod.snd) :=
      (List.perm_ext_iff_of_nodup (nodup_distinctSorted _) once).mpr fun _ => mem_distinctSorted
    rw [same.length_eq, List.length_map, Std.ExtTreeMap.length_toList, sizes]
  unfold IngestState.scheduledThreads
  simp only [Bool.and_eq_true, Bool.not_eq_true', decide_eq_true_eq, List.all_eq_true]
  refine ⟨⟨⟨⟨several, scheduled.free⟩, sizes⟩, distinct⟩, fun key valued => ?_⟩
  obtain ⟨entry, listed, rfl⟩ := List.mem_map.mp (mem_distinctSorted.mp valued)
  exact scheduled.named _ _ (keyOf listed)

theorem Scheduled.key_of_named (scheduled : Scheduled (finalState ctx file)) {raw : Json}
    (member : raw ∈ file.raws) (named : threadKeyOf raw ≠ "") :
    (finalState ctx file).threadKeys[threadIdOf raw]? = some (threadKeyOf raw) := by
  rcases (identified_final file).seen raw member named with found | conflict
  · exact found
  · rw [scheduled.free] at conflict
    cases conflict

theorem Scheduled.namedThreads (scheduled : Scheduled (finalState ctx file)) :
    NamedThreads file.raws := by
  refine ⟨?_, ?_, ?_⟩
  · intro raw member
    obtain ⟨key, found⟩ := scheduled.keyed _ ((mem_threads_iff file _).mpr ⟨raw, member, rfl⟩)
    obtain ⟨named, present, same, rfl, known⟩ := (identified_final file).listed _ key found
    exact ⟨named, present, same, known⟩
  · intro a inside b also named known
    have keyOfA := scheduled.key_of_named inside named
    have keyOfB := scheduled.key_of_named also known
    constructor
    · intro same
      rw [same, keyOfB] at keyOfA
      exact (Option.some.inj keyOfA).symm
    · intro same
      rw [← same] at keyOfB
      exact scheduled.apart _ _ _ keyOfA keyOfB
  · intro raw member
    by_cases silent : threadKeyOf raw = ""
    · rw [silent]
      decide
    · exact scheduled.named _ _ (scheduled.key_of_named member silent)

theorem Settled.namedThreads (settled : Settled (finalState ctx file))
    (two : ∃ a ∈ file.raws, ∃ b ∈ file.raws, threadIdOf a ≠ threadIdOf b) : NamedThreads file.raws := by
  obtain ⟨a, first, b, second, differ⟩ := two
  have scheduled : Scheduled (finalState ctx file) :=
    scheduled_of (threadKeys_within file) (settled.threads (threads_of_two first second differ))
  exact scheduled.namedThreads

/-- Nothing is hidden behind a map with nothing left in it. -/
theorem Settled.honest (settled : Settled (finalState ctx file)) (belong : InputsBelong file call) :
    Honest file call where
  io := by
    intro raw member called boundary
    by_contra unsupported
    have none_ := (settled.reads member (crosses_io called boundary)).2 raw member
    simp [unsupportedIoCall, called, boundary, unsupported] at none_
  boundaries := by
    intro raw member capability unrecorded crossed
    rcases settled.recoverable member (.inl crossed) with rfl | rfl
    · exact absurd unrecorded (by decide)
    · exact absurd unrecorded (by decide)
  reads := by
    intro i raw place reads
    have called : kindName raw = "CALL" ∧ supportedFileIoBoundary raw = true := by
      simpa [fileReadCall] using reads
    have crossed := crosses_io called.1 (ioBoundary_of_supported called.2)
    have counts := (settled.reads (EventFile.mem_of_at place) crossed).1
    apply hasInput_of_counts belong (p := fileReadInput) (q := fileReadCall) _ _ counts place reads
    · intro input given
      simp only [fileReadInput, Bool.and_eq_true, decide_eq_true_eq] at given
      exact given.1
    · intro input source given same
      simp only [fileReadInput, Bool.and_eq_true] at given
      rwa [if_pos given.2] at same
  inputs := by
    intro i raw place needs
    have counts := settled.inputs (EventFile.mem_of_at place) (crosses_nondeterminism needs)
    apply hasInput_of_counts belong (p := deterministicInput) (q := nondeterministicCall) _ _ counts
      place needs
    · intro input given
      simp only [deterministicInput, Bool.and_eq_true, decide_eq_true_eq] at given
      exact given.1
    · intro input source given same
      simp only [deterministicInput, Bool.and_eq_true, Bool.not_eq_true'] at given
      rwa [given.2, if_neg Bool.false_ne_true] at same
  capabilities := fun raw member lost => settled.recoverable member (.inr ⟨lost, rfl⟩)
  threads := fun two => by
    have threads := settled.namedThreads two
    exact ⟨threads.keyed, threads.apart, threads.named⟩

theorem settled_of_complete
    (complete : (evidence ctx file).capabilities.completeness = .complete) :
    Settled (finalState ctx file) := by
  cases file with
  | missing => cases complete
  | unreadable message => cases complete
  | lines stream =>
    apply settled_of_isEmpty
    by_contra left
    have partial_ : (finalState ctx (.lines stream)).manifest.completeness = .partial_ := by
      unfold IngestState.manifest
      rw [if_neg left]
    exact Completeness.noConfusion (partial_.symm.trans complete)

/-- The event makes a capability unavailable. -/
def loses (capability : String) (raw : Json) : Prop :=
  crosses capability raw ∨ (capabilityLost raw ∧ capabilityName raw = capability)

/-- The event file is there, its threads are told apart, and no capability is lost but those
whose calls are as many as their inputs. -/
structure CoveredStream (file : EventFile) : Prop where
  present : ∃ stream, file = .lines stream
  threads : (∃ a ∈ file.raws, ∃ b ∈ file.raws, threadIdOf a ≠ threadIdOf b) → NamedThreads file.raws
  losses : ∀ raw ∈ file.raws, ∀ capability, loses capability raw →
    (capability = "nondeterminism" ∧ 0 < file.raws.countP nondeterministicCall ∧
      file.raws.countP deterministicInput = file.raws.countP nondeterministicCall) ∨
    (capability = "io" ∧ 0 < file.raws.countP fileReadCall ∧
      file.raws.countP fileReadInput = file.raws.countP fileReadCall ∧
      ∀ other ∈ file.raws, unsupportedIoCall other = false)

/-- A key of the map that is left after the erasures was there before them. -/
theorem mem_of_mem_erase_if {condition : Prop} [Decidable condition] {map : BTreeMap String String}
    {erased key : String} (left : key ∈ if condition then map.erase erased else map) :
    key ∈ map ∧ ¬ (condition ∧ key = erased) := by
  split at left
  · rename_i holds
    rw [Std.ExtTreeMap.mem_erase] at left
    exact ⟨left.2, fun both => left.1 (Std.LawfulEqCmp.compare_eq_iff_eq.mpr both.2.symm)⟩
  · rename_i fails
    exact ⟨left, fun both => fails both.1⟩

theorem length_le_one_of_eq {ids : List Nat} (distinct : ids.Nodup)
    (only : ∀ a ∈ ids, ∀ b ∈ ids, a = b) : ids.length ≤ 1 := by
  match ids with
  | [] => exact Nat.zero_le 1
  | [_] => exact Nat.le_refl 1
  | a :: b :: rest =>
    have same := only a (by simp) b (by simp)
    simp [same] at distinct

theorem two_of_threads (several : (finalState ctx file).threads.size > 1) :
    ∃ a ∈ file.raws, ∃ b ∈ file.raws, threadIdOf a ≠ threadIdOf b := by
  by_contra one
  have only : ∀ a ∈ (finalState ctx file).threads.toList,
      ∀ b ∈ (finalState ctx file).threads.toList, a = b := by
    intro a inA b inB
    obtain ⟨rawA, presentA, rfl⟩ := (mem_threads_iff file a).mp (Std.ExtTreeSet.mem_toList.mp inA)
    obtain ⟨rawB, presentB, rfl⟩ := (mem_threads_iff file b).mp (Std.ExtTreeSet.mem_toList.mp inB)
    by_contra differ
    exact one ⟨rawA, presentA, rawB, presentB, differ⟩
  have distinct : (finalState ctx file).threads.toList.Nodup :=
    Std.ExtTreeSet.distinct_toList.imp fun differ same =>
      differ (Std.LawfulEqCmp.compare_eq_iff_eq.mpr same)
  have short := length_le_one_of_eq distinct only
  rw [Std.ExtTreeSet.length_toList] at short
  omega

theorem CoveredStream.settled (covered : CoveredStream file) :
    (finalState ctx file).settledUnavailable.isEmpty = true := by
  rw [Std.ExtTreeMap.isEmpty_iff, Std.ExtTreeMap.eq_empty_iff_forall_not_mem]
  intro key left
  obtain ⟨left, noReads⟩ := mem_of_mem_erase_if left
  obtain ⟨left, noInputs⟩ := mem_of_mem_erase_if left
  have lost : key ∈ (finalState ctx file).unavailable := by
    split at left
    · rename_i unscheduled
      have two := two_of_threads unscheduled.1
      have apart : Scheduled (finalState ctx file) := (covered.threads two).scheduled
      have scheduled := apart.scheduledThreads (threadKeys_within file) unscheduled.1
      rw [scheduled] at unscheduled
      cases unscheduled.2
    · exact left
  obtain ⟨raw, member, loses⟩ := (mem_unavailable_iff file key).mp lost
  rcases covered.losses raw member key loses with ⟨rfl, calls, counts⟩ | ⟨rfl, calls, counts, clean⟩
  · refine noInputs ⟨⟨?_, ?_⟩, rfl⟩
    · rwa [final_nondeterministicCalls]
    · rwa [final_deterministicInputs, final_nondeterministicCalls]
  · refine noReads ⟨⟨?_, ?_, ?_⟩, rfl⟩
    · rwa [final_supportedFileIoCalls]
    · rwa [final_recordedFileInputs, final_supportedFileIoCalls]
    · have supported : (finalState ctx file).unsupportedIoObserved = false := by
        rw [Bool.eq_false_iff]
        intro observed
        obtain ⟨other, present, unsupported⟩ := (final_unsupportedIo file).mp observed
        rw [clean other present] at unsupported
        cases unsupported
      rw [supported]
      rfl

/-- A manifest is complete exactly when its stream is covered. -/
theorem complete_iff (ctx : IngestContext) (file : EventFile) :
    (evidence ctx file).capabilities.completeness = .complete ↔ CoveredStream file := by
  constructor
  · intro complete
    have settled := settled_of_complete complete
    refine ⟨?_, settled.namedThreads, fun raw member capability lost => ?_⟩
    · cases file with
      | missing => cases complete
      | unreadable message => cases complete
      | lines stream => exact ⟨stream, rfl⟩
    · have missing : capability ∈ (finalState ctx file).unavailable :=
        (mem_unavailable_iff file capability).mpr ⟨raw, member, lost⟩
      rcases settled.keys capability missing with ⟨name, some_, counts⟩ | ⟨name, some_, counts, clean⟩
      · rw [final_nondeterministicCalls] at some_ counts
        rw [final_deterministicInputs] at counts
        exact .inl ⟨name, some_, counts⟩
      · rw [final_supportedFileIoCalls] at some_ counts
        rw [final_recordedFileInputs] at counts
        refine .inr ⟨name, some_, counts, fun other present => ?_⟩
        rw [Bool.eq_false_iff]
        intro unsupported
        rw [(final_unsupportedIo file).mpr ⟨other, present, unsupported⟩] at clean
        cases clean
  · intro covered
    obtain ⟨stream, rfl⟩ := covered.present
    change (if (finalState ctx (.lines stream)).settledUnavailable.isEmpty then Completeness.complete
      else .partial_) = .complete
    rw [if_pos covered.settled]

/-- In every stream whose inputs belong to calls, a complete manifest hides nothing. -/
theorem complete_manifest_honest (ctx : IngestContext) (file : EventFile) (call : Nat → Nat)
    (s t : EvidenceStore) (ingested : Ingested) (success : ingestEvents ctx file s = .ok ingested t)
    (belong : InputsBelong file call) (complete : ingested.capabilities.completeness = .complete) :
    Honest file call := by
  obtain ⟨rfl, -⟩ := ingestEvents_effects success
  exact (settled_of_complete complete).honest belong

/-- A test that reads the clock, and the value that it read. -/
def clockReads : List Json :=
  [rawStart "demo.AppTest#clock",
    rawEvent "CALL" "demo.AppTest#clock"
      [("targetOwner", .string "java/lang/System"), ("targetMethod", .string "nanoTime")],
    rawEvent "INPUT" "demo.AppTest#clock" [],
    rawFinish "demo.AppTest#clock" "successful"]

theorem clockReads_belong : InputsBelong (.lines (clockReads.map .event)) fun _ => 1 := by
  have only : ∀ i raw, EventFile.at (.lines (clockReads.map .event)) i raw →
      kindName raw = "INPUT" → i = 2 ∧ fileInput raw = false := by
    intro i raw place input
    change clockReads[i]? = some raw at place
    have small : i < 4 := (List.getElem?_eq_some_iff.mp place).1
    interval_cases i <;> obtain rfl := Option.some.inj place
    · exact absurd input (by decide)
    · exact absurd input (by decide)
    · exact ⟨rfl, by decide⟩
    · exact absurd input (by decide)
  constructor
  · intro i raw place input
    obtain ⟨rfl, deterministic⟩ := only i raw place input
    refine ⟨by omega, _, rfl, ?_⟩
    rw [deterministic]
    decide
  · intro i j raw other here input there also _
    rw [(only i raw here input).1, (only j other there also).1]

theorem complete_manifest_honest_demo :
    ∃ ingested t, ingestEvents demoContext (.lines (clockReads.map .event)) begunStore =
        .ok ingested t ∧ Honest (.lines (clockReads.map .event)) fun _ => 1 := by
  have ran : answers (fun i => i.capabilities.completeness = .complete)
      (ingestEvents demoContext (.lines (clockReads.map .event)) begunStore) := by decide +kernel
  obtain ⟨ingested, t, success, complete⟩ := exists_of_answers ran
  exact ⟨ingested, t, success, complete_manifest_honest _ _ _ _ _ _ success clockReads_belong
    (by simpa using complete)⟩

end Walaru
