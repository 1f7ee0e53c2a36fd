import Walaru.Lib.Matching
import Walaru.Source.Daemon.IngestObservations

/-!
# What the capability accumulators say about a stream

The counters count the calls and inputs of the stream, the `unavailable` map has a key for
every boundary crossed and every capability reported missing, and the thread tables hold
the identities that the events carry.
-/
namespace Walaru
open Lib.Text Lib.Matching

def nondeterministicCall (raw : Json) : Bool :=
  kindName raw = "CALL" && nondeterministicBoundary raw

/-- A call that reads a file in a way that is recorded. -/
def fileReadCall (raw : Json) : Bool := kindName raw = "CALL" && supportedFileIoBoundary raw

def unsupportedIoCall (raw : Json) : Bool :=
  kindName raw = "CALL" && !supportedFileIoBoundary raw && ioBoundary raw

def deterministicInput (raw : Json) : Bool := kindName raw = "INPUT" && !fileInput raw

def fileReadInput (raw : Json) : Bool := kindName raw = "INPUT" && fileInput raw

/-- The worker says that a capability is not available. -/
def capabilityLost (raw : Json) : Prop :=
  kindName raw = "CAPABILITY" ∧ raw.getBool "available" = some false

instance (raw : Json) : Decidable (capabilityLost raw) := inferInstanceAs (Decidable (_ ∧ _))

def capabilityName (raw : Json) : String := (raw.getStr "capability").getD "unknown"

/-- A call crosses a boundary of this capability. -/
def crosses (capability : String) (raw : Json) : Prop :=
  kindName raw = "CALL" ∧ ∃ rule ∈ boundaryRules, rule.capability = capability ∧ rule.applies raw = true

variable {ctx : IngestContext}

/-- A counter that each event of a kind raises by one counts the events of that kind. -/
theorem observeAll_count {counter : IngestState → Nat} {p : Json → Bool}
    (step : ∀ st raw, counter (st.observe ctx raw) = counter st + (p raw).toNat) (st : IngestState)
    (raws : List Json) : counter (observeAll ctx st raws) = counter st + raws.countP p := by
  induction raws generalizing st with
  | nil => rfl
  | cons raw rest ih =>
    have later := ih (st.observe ctx raw)
    have first : (raw :: rest).countP p = (p raw).toNat + rest.countP p := by
      rw [List.countP_cons]
      cases p raw <;> simp [Nat.add_comm]
    change counter (observeAll ctx (st.observe ctx raw) rest) = _
    rw [later, step, first]
    omega

theorem finalState_count (counter : IngestState → Nat) {p : Json → Bool}
    (step : ∀ st raw, counter (st.observe ctx raw) = counter st + (p raw).toNat)
    (start : counter .start = 0) (file : EventFile) :
    counter (finalState ctx file) = file.raws.countP p := by
  rw [finalState, observeAll_count step, start, Nat.zero_add]

theorem final_nondeterministicCalls (file : EventFile) :
    (finalState ctx file).nondeterministicCalls = file.raws.countP nondeterministicCall :=
  finalState_count IngestState.nondeterministicCalls (fun _ _ => rfl) rfl file

theorem final_deterministicInputs (file : EventFile) :
    (finalState ctx file).deterministicInputs = file.raws.countP deterministicInput :=
  finalState_count IngestState.deterministicInputs (fun _ _ => rfl) rfl file

theorem final_supportedFileIoCalls (file : EventFile) :
    (finalState ctx file).supportedFileIoCalls = file.raws.countP fileReadCall :=
  finalState_count IngestState.supportedFileIoCalls (fun _ _ => rfl) rfl file

theorem final_recordedFileInputs (file : EventFile) :
    (finalState ctx file).recordedFileInputs = file.raws.countP fileReadInput :=
  finalState_count IngestState.recordedFileInputs (fun _ _ => rfl) rfl file

theorem final_unsupportedIo (file : EventFile) :
    (finalState ctx file).unsupportedIoObserved = true ↔
      ∃ raw ∈ file.raws, unsupportedIoCall raw = true := by
  refine finalState_iff ctx (fun st => st.unsupportedIoObserved = true) _ (by simp [IngestState.start])
    (fun st raw => ?_) file
  change (st.unsupportedIoObserved || unsupportedIoCall raw) = true ↔ _
  rw [Bool.or_eq_true]

theorem mem_classify {rules : List BoundaryRule} {raw : Json} {map : BTreeMap String String}
    {key : String} :
    key ∈ rules.foldl (fun found rule =>
        if rule.applies raw then found.insert rule.capability (rule.reason raw) else found) map ↔
      key ∈ map ∨ ∃ rule ∈ rules, rule.capability = key ∧ rule.applies raw = true := by
  induction rules generalizing map with
  | nil => simp
  | cons rule rest ih =>
    rw [List.foldl_cons, ih]
    simp only [List.mem_cons, exists_eq_or_imp]
    by_cases applies : rule.applies raw = true
    · simp only [applies, if_true, Std.ExtTreeMap.mem_insert, Std.LawfulEqCmp.compare_eq_iff_eq,
        and_true]
      tauto
    · simp [applies]

theorem mem_observe_unavailable (key : String) (st : IngestState) (raw : Json) :
    key ∈ (st.observe ctx raw).unavailable ↔ key ∈ st.unavailable ∨
      (crosses key raw ∨ (capabilityLost raw ∧ capabilityName raw = key)) := by
  have field : (st.observe ctx raw).unavailable =
      if capabilityLost raw then
        (if decide (kindName raw = "CALL") = true then classifyBoundary raw st.unavailable
          else st.unavailable).insert (capabilityName raw)
            ((raw.getStr "reason").getD "worker reported an unavailable capability")
      else if decide (kindName raw = "CALL") = true then classifyBoundary raw st.unavailable
        else st.unavailable := rfl
  have classified : (key ∈ if decide (kindName raw = "CALL") = true
      then classifyBoundary raw st.unavailable else st.unavailable) ↔
      key ∈ st.unavailable ∨ crosses key raw := by
    unfold crosses
    by_cases call : kindName raw = "CALL"
    · simp [call, classifyBoundary, mem_classify]
    · simp [call]
  rw [field]
  split
  · rename_i lost
    rw [Std.ExtTreeMap.mem_insert, classified, Std.LawfulEqCmp.compare_eq_iff_eq]
    tauto
  · rw [classified]
    tauto

/-- A key is missing when some event makes it so. -/
theorem mem_unavailable_iff (file : EventFile) (key : String) :
    key ∈ (finalState ctx file).unavailable ↔
      ∃ raw ∈ file.raws, crosses key raw ∨ (capabilityLost raw ∧ capabilityName raw = key) :=
  finalState_iff ctx (fun st => key ∈ st.unavailable) _ Std.ExtTreeMap.not_mem_empty
    (mem_observe_unavailable key) file

theorem mem_threads_iff (file : EventFile) (id : Nat) :
    id ∈ (finalState ctx file).threads ↔ ∃ raw ∈ file.raws, threadIdOf raw = id := by
  refine finalState_iff ctx (fun st => id ∈ st.threads) _ Std.ExtTreeSet.not_mem_empty
    (fun st raw => ?_) file
  change id ∈ st.threads.insert (threadIdOf raw) ↔ _
  rw [Std.ExtTreeSet.mem_insert, Std.LawfulEqCmp.compare_eq_iff_eq, or_comm]

/-- The named events of a stream, by the tables of their threads. -/
structure Identified (raws : List Json) (st : IngestState) : Prop where
  seen : ∀ raw ∈ raws, threadKeyOf raw ≠ "" →
    st.threadKeys[threadIdOf raw]? = some (threadKeyOf raw) ∨ st.threadIdentityConflict = true
  listed : ∀ id key, st.threadKeys[id]? = some key →
    ∃ raw ∈ raws, threadIdOf raw = id ∧ threadKeyOf raw = key ∧ key ≠ ""
  conflicting : st.threadIdentityConflict = true →
    ∃ a ∈ raws, ∃ b ∈ raws, threadKeyOf a ≠ "" ∧ threadKeyOf b ≠ "" ∧
      threadIdOf a = threadIdOf b ∧ threadKeyOf a ≠ threadKeyOf b

theorem Identified.observe {raws : List Json} {st : IngestState} (identified : Identified raws st)
    (raw : Json) : Identified (raws ++ [raw]) (st.observe ctx raw) := by
  have keys : (st.observe ctx raw).threadKeys =
      if threadKeyOf raw = "" then st.threadKeys
      else st.threadKeys.insert (threadIdOf raw) (threadKeyOf raw) := rfl
  have conflict : (st.observe ctx raw).threadIdentityConflict = (st.threadIdentityConflict ||
      (decide (threadKeyOf raw ≠ "") && (st.threadKeys.get? (threadIdOf raw)).any fun previous =>
        decide (previous ≠ threadKeyOf raw))) := rfl
  constructor
  · intro other member named
    rw [List.mem_append, List.mem_singleton] at member
    by_cases silent : threadKeyOf raw = ""
    · rcases member with member | rfl
      · rw [keys, if_pos silent, conflict, Bool.or_eq_true]
        exact (identified.seen other member named).imp_right .inl
      · exact absurd silent named
    · rw [keys, if_neg silent, conflict, Bool.or_eq_true]
      rcases member with member | rfl
      · rcases identified.seen other member named with found | conflicting
        · by_cases same : threadIdOf raw = threadIdOf other
          · by_cases equal : threadKeyOf raw = threadKeyOf other
            · exact .inl (by simp [same, equal])
            · refine .inr (.inr ?_)
              rw [same, Std.ExtTreeMap.get?_eq_getElem?, found]
              simp [silent, Ne.symm equal]
          · rw [Std.ExtTreeMap.getElem?_insert]
            exact .inl (by simp [same, found])
        · exact .inr (.inl conflicting)
      · exact .inl (by simp)
  · intro id key found
    by_cases silent : threadKeyOf raw = ""
    · rw [keys, if_pos silent] at found
      obtain ⟨other, member, rest⟩ := identified.listed id key found
      exact ⟨other, List.mem_append_left _ member, rest⟩
    · rw [keys, if_neg silent, Std.ExtTreeMap.getElem?_insert] at found
      split at found
      · rename_i same
        cases found
        exact ⟨raw, by simp, Std.LawfulEqCmp.compare_eq_iff_eq.mp same, rfl, silent⟩
      · obtain ⟨other, member, rest⟩ := identified.listed id key found
        exact ⟨other, List.mem_append_left _ member, rest⟩
  · intro conflicted
    rw [conflict, Bool.or_eq_true] at conflicted
    rcases conflicted with earlier | now
    · obtain ⟨a, inA, b, inB, rest⟩ := identified.conflicting earlier
      exact ⟨a, List.mem_append_left _ inA, b, List.mem_append_left _ inB, rest⟩
    · rw [Bool.and_eq_true, decide_eq_true_eq, Option.any_eq_true] at now
      obtain ⟨named, previous, found, differs⟩ := now
      rw [Std.ExtTreeMap.get?_eq_getElem?] at found
      obtain ⟨other, member, same, rfl, known⟩ := identified.listed _ previous found
      exact ⟨other, List.mem_append_left _ member, raw, by simp, known, named, same,
        of_decide_eq_true differs⟩

theorem identified_final (file : EventFile) : Identified file.raws (finalState ctx file) := by
  change Identified file.raws (observeAll ctx .start file.raws)
  induction file.raws using List.reverseRecOn with
  | nil => exact ⟨fun _ member => absurd member (by simp), fun _ _ found => by simp [observeAll,
      IngestState.start] at found, fun conflicted => by cases conflicted⟩
  | append_singleton raws raw ih =>
    rw [observeAll_append]
    exact ih.observe raw

end Walaru
