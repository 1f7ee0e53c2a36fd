import Mathlib.Data.Set.Function
import Walaru.Lib.Sha256
import Walaru.Source.Agent.StateHash
import Walaru.Source.Core.Replay

/-!
# Equal state hashes

The bytes fed to the digest determine every hashed field, so an accepted replay has
the contents of the recording wherever the digest does not collide.
-/
namespace Walaru.Agent

/-- Every hashed field of one event is a field of the other with the same content. -/
def SameHashed (f g : Fields) : Prop :=
  ∀ key, key ∉ unhashedKeys →
    (∀ value, (key, value) ∈ f → ∃ other, (key, other) ∈ g ∧ Agree value other) ∧
      ∀ other, (key, other) ∈ g → ∃ value, (key, value) ∈ f ∧ Agree value other

/-- Entries that are paired in order. -/
theorem paired_entries {f g : Fields} (keys : f.map Prod.fst = g.map Prod.fst)
    (values : List.Forall₂ Agree (f.map Prod.snd) (g.map Prod.snd)) :
    (∀ field ∈ f, ∃ other ∈ g, other.1 = field.1 ∧ Agree field.2 other.2) ∧
      ∀ other ∈ g, ∃ field ∈ f, other.1 = field.1 ∧ Agree field.2 other.2 := by
  induction f generalizing g with
  | nil =>
    rw [List.map_nil, eq_comm, List.map_eq_nil_iff] at keys
    simp [keys]
  | cons a f ih =>
    cases g with
    | nil => cases keys
    | cons b g =>
      simp only [List.map_cons, List.cons.injEq, List.forall₂_cons] at keys values
      obtain ⟨forth, back⟩ := ih keys.2 values.2
      simp only [List.mem_cons, exists_eq_or_imp, forall_eq_or_imp]
      exact ⟨⟨.inl ⟨keys.1.symm, values.1⟩, fun field member => .inr (forth field member)⟩,
        .inl ⟨keys.1.symm, values.1⟩, fun other member => .inr (back other member)⟩

/-- Entries in any order, key by key. -/
theorem Agree.entries {f g : Fields} (same : Agree (.map f) (.map g)) :
    (∀ field ∈ f, ∃ other ∈ g, other.1 = field.1 ∧ Agree field.2 other.2) ∧
      ∀ other ∈ g, ∃ field ∈ f, other.1 = field.1 ∧ Agree field.2 other.2 := by
  cases same with
  | map order keys values =>
    obtain ⟨forth, back⟩ := paired_entries keys values
    simp only [order.mem_iff] at forth back
    exact ⟨forth, back⟩

theorem WellFormed.hashedFields {fields : Fields} (formed : WellFormed (.map fields)) :
    WellFormed (.map (hashedFields fields)) := by
  cases formed with
  | map distinct keys values =>
    have kept : ∀ field ∈ Agent.hashedFields fields, field ∈ fields :=
      fun field member => (List.mem_filter.mp member).1
    exact .map (distinct.sublist (List.filter_sublist.map _)) (fun field member => keys field (kept field member))
      fun field member => values field (kept field member)

/-- Equal preimages have the same hashed fields. -/
theorem sameHashed_of_preimage {f g : Fields} (formedF : WellFormed (.map f))
    (formedG : WellFormed (.map g)) (same : statePreimage f = statePreimage g) : SameHashed f g := by
  have whole : updateDigest (.map (hashedFields f)) ++ [] =
      updateDigest (.map (hashedFields g)) ++ [] := by
    simpa [statePreimage] using same
  have agree : Agree (.map (hashedFields f)) (.map (hashedFields g)) :=
    (updateDigest_append_injective formedF.hashedFields formedG.hashedFields whole).1
  intro key hashed
  have inside : ∀ {fields : Fields} {value}, (key, value) ∈ fields →
      (key, value) ∈ hashedFields fields :=
    fun member => List.mem_filter.mpr ⟨member, by simpa using hashed⟩
  constructor
  · intro value member
    obtain ⟨⟨_, other⟩, found, rfl, equal⟩ := agree.entries.1 _ (inside member)
    exact ⟨other, (List.mem_filter.mp found).1, equal⟩
  · intro other member
    obtain ⟨⟨_, value⟩, found, rfl, equal⟩ := agree.entries.2 _ (inside member)
    exact ⟨value, (List.mem_filter.mp found).1, equal⟩

theorem divergence_stateHash {original fresh : Event} (agreed : divergence original fresh = none) :
    original.stateHash = fresh.stateHash := by
  by_contra different
  simp only [divergence, ne_eq, different, not_false_eq_true, if_true] at agreed
  repeat' split at agreed
  all_goals cases agreed

/-- An accepted prefix agrees in its state hashes. -/
theorem comparePrefix_hashes {originals replayed : List Event}
    (accepted : comparePrefix originals replayed = .ok ()) (i : Nat) (original : Event)
    (listed : originals[i]? = some original) :
    ∃ fresh : Event, replayed[i]? = some fresh ∧ original.stateHash = fresh.stateHash := by
  induction originals generalizing replayed i with
  | nil => simp at listed
  | cons first originals ih =>
    cases replayed with
    | nil => cases accepted
    | cons fresh replayed =>
      rw [comparePrefix] at accepted
      cases found : divergence first fresh with
      | some reason => simp [found] at accepted
      | none =>
        rw [found] at accepted
        cases i with
        | zero =>
          cases listed
          exact ⟨fresh, rfl, divergence_stateHash found⟩
        | succ i => exact ih accepted i listed

/-- The events carry the state hashes of these fields. -/
def Hashes (sha256 : List UInt8 → List UInt8) (events : List Event) (written : List Fields) : Prop :=
  events.map (fun event => event.stateHash) = written.map (stateHash sha256)

theorem Hashes.event {sha256 : List UInt8 → List UInt8} {events : List Event} {written : List Fields}
    (hashed : Hashes sha256 events written) {i : Nat} {event : Event}
    (listed : events[i]? = some event) :
    ∃ fields, written[i]? = some fields ∧ event.stateHash = stateHash sha256 fields := by
  have position := congrArg (fun hashes : List String => hashes[i]?) hashed
  simp only [List.getElem?_map, listed, Option.map_some] at position
  obtain ⟨fields, found, same⟩ := Option.map_eq_some_iff.mp position.symm
  exact ⟨fields, found, same.symm⟩

theorem verifyReplayedPrefix_ok {recording : Recording} {replayed : List Event} {target : String}
    (accepted : verifyReplayedPrefix recording replayed target = .ok ()) :
    ∃ index, recording.events.findIdx? (fun event => event.id = target) = some index ∧
      comparePrefix (recording.events.take (index + 1)) replayed = .ok () := by
  unfold verifyReplayedPrefix at accepted
  cases validated : validateRecording recording with
  | error e => simp [validated, bind, Except.bind] at accepted
  | ok u =>
    rw [validated] at accepted
    simp only [bind, Except.bind] at accepted
    cases found : recording.events.findIdx? fun event => event.id = target with
    | none => simp [found, throw, throwThe, MonadExceptOf.throw] at accepted
    | some index =>
      rw [found] at accepted
      exact ⟨index, rfl, accepted⟩

/-- Equal bytes under the digest mean equal hashed fields, and so, where the digest
does not collide, does an accepted replay, event by event up to its target. -/
theorem equal_hashes_equal_contents :
    (∀ f g : Fields, WellFormed (.map f) → WellFormed (.map g) →
      statePreimage f = statePreimage g → SameHashed f g) ∧
    ∀ (sha256 : List UInt8 → List UInt8) (inputs : Set (List UInt8)),
      Set.InjOn (fun bytes => (sha256 bytes).take 16) inputs →
      ∀ (recording : Recording) (replayed : List Event) (target : String)
        (originals fresh : List Fields),
      Hashes sha256 recording.events originals → Hashes sha256 replayed fresh →
      (∀ fields ∈ originals ++ fresh, WellFormed (.map fields) ∧ statePreimage fields ∈ inputs) →
      verifyReplayedPrefix recording replayed target = .ok () →
      ∃ index, recording.events.findIdx? (fun event => event.id = target) = some index ∧
        ∀ i ≤ index, ∃ f g, originals[i]? = some f ∧ fresh[i]? = some g ∧ SameHashed f g := by
  refine ⟨fun f g formedF formedG => sameHashed_of_preimage formedF formedG, ?_⟩
  intro sha256 inputs free recording replayed target originals fresh recorded rerun formed accepted
  obtain ⟨index, found, compared⟩ := verifyReplayedPrefix_ok accepted
  refine ⟨index, found, fun i below => ?_⟩
  have inside : index < recording.events.length := (List.findIdx?_eq_some_iff_findIdx_eq.mp found).1
  obtain ⟨original, listed⟩ : ∃ original, recording.events[i]? = some original :=
    ⟨_, List.getElem?_eq_getElem (by omega)⟩
  have taken : (recording.events.take (index + 1))[i]? = some original := by
    rw [List.getElem?_take_of_lt (by omega), listed]
  obtain ⟨again, relisted, hashes⟩ := comparePrefix_hashes compared i original taken
  obtain ⟨f, foundF, hashF⟩ := recorded.event listed
  obtain ⟨g, foundG, hashG⟩ := rerun.event relisted
  have memberF := List.mem_append_left fresh (List.mem_of_getElem? foundF)
  have memberG := List.mem_append_right originals (List.mem_of_getElem? foundG)
  have digests : (sha256 (statePreimage f)).take 16 = (sha256 (statePreimage g)).take 16 := by
    rw [hashF, hashG] at hashes
    exact Lib.Text.hexEncode_injective hashes
  exact ⟨f, g, foundF, foundG, sameHashed_of_preimage (formed f memberF).1 (formed g memberG).1
    (free (formed f memberF).2 (formed g memberG).2 digests)⟩

/-- A call event with its place in the run. -/
def callFields (sequence : Int) : Fields :=
  [textField "type" (ascii "CALL"), longField "sequence" sequence,
    textField "targetOwner" (ascii "demo/Clock"), textField "targetMethod" (ascii "now")]

def callEvent (fields : Fields) : Event where
  id := "event-0"
  sequence := 0
  threadId := 1
  threadKey := "main"
  virtualThread := false
  coroutine := false
  logicalStack := []
  kind := .call
  location := none
  values := .null
  observations := .null
  stateHash := stateHash Lib.Sha256.sha256 fields
  outputIndex := 0

def callRecording : Recording where
  id := "rec-1"
  revision := "rev-1"
  testId := "demo.AppTest#works"
  backend := "jvm"
  capabilities := ⟨"jvm", .complete, ["pureJvm", "singleThread"], ∅⟩
  inputs := []
  linuxProcess := none
  events := [callEvent (callFields 7)]
  checkpoints := []

theorem callFields_wellFormed (sequence : Int) : WellFormed (.map (callFields sequence)) := by
  refine .map (by simp only [callFields, textField, longField, List.map_cons, List.map_nil]; decide) ?_ ?_
  · simp only [callFields, List.mem_cons, List.not_mem_nil, or_false, forall_eq_or_imp, forall_eq]
    exact ⟨⟨_, rfl⟩, ⟨_, rfl⟩, ⟨_, rfl⟩, ⟨_, rfl⟩⟩
  · simp only [callFields, List.mem_cons, List.not_mem_nil, or_false, forall_eq_or_imp, forall_eq]
    exact ⟨.text ⟨_, rfl⟩, .number _, .text ⟨_, rfl⟩, .text ⟨_, rfl⟩⟩

theorem equal_hashes_equal_contents_demo :
    SameHashed (callFields 7) (callFields 8) ∧
    ∃ index, callRecording.events.findIdx? (fun event => event.id = "event-0") = some index ∧
      ∀ i ≤ index, ∃ f g, [callFields 7][i]? = some f ∧ [callFields 8][i]? = some g ∧
        SameHashed f g := by
  have hashed : hashedFields (callFields 7) = hashedFields (callFields 8) := rfl
  have same : statePreimage (callFields 7) = statePreimage (callFields 8) := by
    rw [statePreimage, statePreimage, hashed]
  refine ⟨equal_hashes_equal_contents.1 _ _ (callFields_wellFormed 7) (callFields_wellFormed 8) same, ?_⟩
  have equal : callEvent (callFields 8) = callEvent (callFields 7) := by
    rw [callEvent, callEvent, stateHash, stateHash, same]
  refine equal_hashes_equal_contents.2 Lib.Sha256.sha256 {statePreimage (callFields 7)}
    (Set.injOn_singleton _ _) callRecording [callEvent (callFields 8)] "event-0" [callFields 7]
    [callFields 8] rfl rfl ?_ ?_
  · simp only [List.cons_append, List.nil_append, List.mem_cons, List.not_mem_nil, or_false,
      forall_eq_or_imp, forall_eq, Set.mem_singleton_iff]
    exact ⟨⟨callFields_wellFormed 7, trivial⟩, callFields_wellFormed 8, same.symm⟩
  · have valid : validateRecording callRecording = .ok () := by decide +kernel
    have unchanged : divergence (callEvent (callFields 7)) (callEvent (callFields 7)) = none := by
      simp [divergence]
    rw [equal, verifyReplayedPrefix, valid]
    change comparePrefix [callEvent (callFields 7)] [callEvent (callFields 7)] = .ok ()
    rw [comparePrefix, unchanged]
    rfl

end Walaru.Agent
