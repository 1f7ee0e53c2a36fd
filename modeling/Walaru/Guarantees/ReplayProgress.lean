import Walaru.Source.Agent.ReplayFollows

/-!
# Replays that finish

Which recordings every scheduling of the JVM threads replays to the end with each
thread's own inputs. The schedule orders events and the tape orders inputs, but
the order in which threads enter the tape monitor is left to the scheduler: a
thread may take the monitor, and with it another thread's entry, as soon as its
own earlier events are done.
-/
namespace Walaru.Agent
open Lib.Trace

variable {Thread : Type} [DecidableEq Thread]

/-- No reachable state of the replay is stuck before its end, and the input calls of
each thread return what they returned when they were recorded. -/
def ReplaySound (keys : ThreadKeys Thread) (program : Thread → List BridgeCall)
    (recording : Recorder Thread) : Prop :=
  ∀ s, Reachable (Replay.step (replaySetup keys recording)) (Replay.start program) s →
    (s.Finished ∨ ∃ t, s.step (replaySetup keys recording) t ≠ none) ∧
      ∀ t, (s.threads t).returned <+: (recording.threads t).returned

/-- The recorded stream keeps its event categories and separates the inputs of
different threads. -/
structure Replayable (stream : List (Thread × Emitted)) : Prop where
  categories : ∀ e ∈ stream, SameCategory e
  separated : InputsSeparated stream

theorem replaySound_of_replayable (keys : ThreadKeys Thread) {program : Thread → List BridgeCall}
    {recording : Recorder Thread} (programs : program = fun t => callsOf t recording.stream)
    (taped : recording.tape = entriesOf recording.stream)
    (values : ∀ t, (recording.threads t).returned = valuesOf t recording.stream)
    (replayable : Replayable recording.stream) : ReplaySound keys program recording := by
  intro s reached
  obtain ⟨done, ahead, following⟩ := reached.invariant (Replay.step (replaySetup keys recording))
    (P := fun s => ∃ done ahead, Following recording s done ahead)
    (fun s t s' ⟨_, _, following⟩ stepped => following.step replayable.categories
      replayable.separated taped stepped) ⟨_, _, .start programs⟩
  exact ⟨following.progress keys, fun t => values t ▸ following.returned t⟩

/-- The replay state in which exactly the events of `done` have been replayed. -/
def replayed (done ahead : List (Thread × Emitted)) : Replay Thread where
  threads t := ⟨callsOf t ahead, .idle, valuesOf t done⟩
  turn := ⟨done.length, false⟩
  tapeCursor := (entriesOf done).length
  monitor := none

section Order
variable {keys : ThreadKeys Thread} {recording : Recorder Thread} {done ahead : List (Thread × Emitted)}
  {t : Thread}

theorem replayed_threads_snoc (e : Emitted) :
    (replayed (done ++ [(t, e)]) ahead).threads =
      Function.update (replayed done ((t, e) :: ahead)).threads t
        ⟨callsOf t ahead, .idle, valuesOf t done ++ (e.tapeEntry.map TapeEntry.encoded).toList⟩ := by
  funext u
  by_cases own : u = t
  · subst own
    simp [replayed]
  · simp [replayed, Function.update_of_ne own, Ne.symm own]

/-- The next event of the stream can be replayed in two steps of its thread. -/
theorem replayed_event {rawType : String}
    (split : recording.stream = done ++ (t, .event rawType) :: ahead)
    (agreed : SameCategory (t, Emitted.event rawType)) :
    Reachable (Replay.step (replaySetup keys recording))
      (replayed done ((t, .event rawType) :: ahead))
      (replayed (done ++ [(t, .event rawType)]) ahead) := by
  have admitted := before_at keys split false rawType t
  rw [if_neg (by simp), if_neg (by simpa [SameCategory, Emitted.rawType] using agreed)] at admitted
  have begun : (replayed done ((t, .event rawType) :: ahead)).step (replaySetup keys recording) t =
      some { (replayed done ((t, .event rawType) :: ahead)).set t
          ⟨.event rawType :: callsOf t ahead, .writing, valuesOf t done⟩ with
        turn := ⟨done.length, true⟩ } := by
    simp only [Replay.step, replayed, callsOf_cons, if_true, Emitted.call, Replay.beginEvent]
    rw [show (replaySetup keys recording).key t = keys.key t from rfl, admitted]
  refine (Reachable.single _ begun).trans _ (Reachable.single (a := t) _ ?_)
  simp only [Replay.step, Replay.set_threads, Function.update_self, after_at split]
  congr 1
  ext1
  · rw [replayed_threads_snoc]
    simp [Emitted.tapeEntry]
  · simp [replayed]
  · simp [replayed, Emitted.tapeEntry]
  · rfl

/-- A thread whose next call is an input gets the entry of the next input of the
stream, whoever recorded it. -/
theorem replayed_take (keys : ThreadKeys Thread) {entry : TapeEntry} {kind : String}
    {rest : List BridgeCall}
    (taped : recording.tape = entriesOf recording.stream)
    (split : recording.stream = done ++ ahead) (first : (entriesOf ahead).head? = some entry)
    (next : callsOf t ahead = .input kind :: rest) :
    (replayed done ahead).step (replaySetup keys recording) t = some
      (if entry.kind ≠ kind then
        { (replayed done ahead).set t ⟨callsOf t ahead, .failed, valuesOf t done⟩ with
          tapeCursor := (entriesOf done).length + 1 }
      else
        { (replayed done ahead).set t ⟨callsOf t ahead, .holding entry.encoded, valuesOf t done⟩ with
          tapeCursor := (entriesOf done).length + 1
          monitor := some t }) := by
  have place : (replaySetup keys recording).tape[(entriesOf done).length]? = some entry := by
    rw [show (replaySetup keys recording).tape = recording.tape from rfl, taped, split,
      entriesOf_append, List.getElem?_append_right (Nat.le_refl _), Nat.sub_self, ← first,
      List.head?_eq_getElem?]
  simp only [Replay.step, replayed, next, Replay.takeEntry, place]
  simp only [ne_eq, not_true_eq_false, if_false]
  split <;> rfl

/-- The next input of the stream can be replayed in four steps of its thread. -/
theorem replayed_input {entry : TapeEntry}
    (split : recording.stream = done ++ (t, .input entry) :: ahead)
    (taped : recording.tape = entriesOf recording.stream) :
    Reachable (Replay.step (replaySetup keys recording))
      (replayed done ((t, .input entry) :: ahead)) (replayed (done ++ [(t, .input entry)]) ahead) := by
  have next : callsOf t ((t, .input entry) :: ahead) = .input entry.kind :: callsOf t ahead := by
    simp [Emitted.call]
  have first : (entriesOf ((t, .input entry) :: ahead)).head? = some entry := by
    simp [Emitted.tapeEntry]
  have taken := replayed_take keys taped split first next
  rw [if_neg (by simp)] at taken
  have admitted := before_at keys split false "INPUT" t
  rw [if_neg (by simp), if_neg (by simp [Emitted.rawType, eventKind, scheduleCategory, replayCategory])]
    at admitted
  refine (Reachable.single _ taken).trans _ ?_
  -- The turn of the event, its end, and the way out of the monitor.
  refine (Reachable.single (a := t) (t := { (replayed done ((t, .input entry) :: ahead)).set t
      ⟨callsOf t ((t, .input entry) :: ahead), .writingInput entry.encoded, valuesOf t done⟩ with
    turn := ⟨done.length, true⟩
    tapeCursor := (entriesOf done).length + 1
    monitor := some t }) _ ?_).trans _ ?_
  · simp only [Replay.step, Replay.set_threads, Function.update_self, Replay.beginInput]
    rw [show (replaySetup keys recording).key t = keys.key t from rfl]
    simp only [Replay.set, replayed] at admitted ⊢
    rw [admitted]
    simp
  refine (Reachable.single (a := t) (t := { (replayed done ((t, .input entry) :: ahead)).set t
      ⟨callsOf t ((t, .input entry) :: ahead), .leaving entry.encoded, valuesOf t done⟩ with
    turn := ⟨done.length + 1, false⟩
    tapeCursor := (entriesOf done).length + 1
    monitor := some t }) _ ?_).trans _ (Reachable.single (a := t) _ ?_)
  · simp [Replay.step, Replay.set, after_at split]
  · simp only [Replay.step, Replay.set_threads, Function.update_self]
    congr 1
    ext1
    · rw [replayed_threads_snoc]
      simp [Emitted.tapeEntry]
    · simp [replayed]
    · simp [replayed, Emitted.tapeEntry]
    · rfl

/-- Every prefix of the stream whose categories agree can be replayed in order. -/
theorem replayed_reachable (keys : ThreadKeys Thread) {program : Thread → List BridgeCall}
    (programs : program = fun t => callsOf t recording.stream)
    (taped : recording.tape = entriesOf recording.stream)
    (split : recording.stream = done ++ ahead) (agreed : ∀ e ∈ done, SameCategory e) :
    Reachable (Replay.step (replaySetup keys recording)) (Replay.start program)
      (replayed done ahead) := by
  induction done using List.reverseRecOn generalizing ahead with
  | nil =>
    have initial : Replay.start program = replayed [] ahead := by
      rw [programs, split]
      rfl
    rw [initial]
    exact Reachable.refl _ _
  | append_singleton done e ih =>
    obtain ⟨t, e⟩ := e
    rw [List.append_assoc] at split
    refine (ih split fun e member => agreed e (by simp [member])).trans _ ?_
    cases e with
    | event rawType => exact replayed_event split (agreed _ (by simp))
    | input entry => exact replayed_input split taped

end Order

section Necessity
variable {keys : ThreadKeys Thread} {program : Thread → List BridgeCall} {recording : Recorder Thread}

/-- A replay that can reach a failed call is not sound: it ends with the failed thread. -/
theorem ReplaySound.never_failed [Fintype Thread] (sound : ReplaySound keys program recording)
    {s : Replay Thread}
    (reached : Reachable (Replay.step (replaySetup keys recording)) (Replay.start program) s)
    (t : Thread) : (s.threads t).phase ≠ .failed := by
  intro failed
  obtain ⟨last, run, stuck, still⟩ := @Replay.failed_stuck _ _ (replaySetup keys recording) _ _ _ failed
  rcases (sound last (reached.trans _ run)).1 with finished | ⟨u, moves⟩
  · rw [(finished t).1] at still
    cases still
  · exact moves (stuck u)

theorem first_failing {α : Type} (p : α → Prop) [DecidablePred p] {l : List α} {a : α}
    (member : a ∈ l) (fails : ¬ p a) :
    ∃ done b ahead, l = done ++ b :: ahead ∧ (∀ x ∈ done, p x) ∧ ¬ p b := by
  induction l with
  | nil => simp at member
  | cons x l ih =>
    by_cases holds : p x
    · rcases List.mem_cons.mp member with rfl | later
      · exact absurd holds fails
      · obtain ⟨done, b, ahead, rfl, before, bad⟩ := ih later
        exact ⟨x :: done, b, ahead, rfl, by simpa [holds] using before, bad⟩
    · exact ⟨[], x, l, rfl, by simp, holds⟩

theorem ReplaySound.categories [Fintype Thread] (sound : ReplaySound keys program recording)
    (programs : program = fun t => callsOf t recording.stream)
    (taped : recording.tape = entriesOf recording.stream) :
    ∀ e ∈ recording.stream, SameCategory e := by
  by_contra differs
  simp only [not_forall] at differs
  obtain ⟨e, member, differs⟩ := differs
  obtain ⟨done, ⟨t, b⟩, ahead, split, agreed, bad⟩ := first_failing SameCategory member differs
  cases b with
  | input entry =>
    exact bad (by simp [SameCategory, Emitted.rawType, eventKind, scheduleCategory, replayCategory])
  | event rawType =>
    have reached := replayed_reachable keys programs taped split agreed
    have rejected := before_at keys split false rawType t
    rw [if_neg (by simp), if_pos (by simpa [SameCategory, Emitted.rawType] using bad)] at rejected
    have fails : (replayed done ((t, .event rawType) :: ahead)).step (replaySetup keys recording) t =
        some ((replayed done ((t, .event rawType) :: ahead)).set t
          ⟨.event rawType :: callsOf t ahead, .failed, valuesOf t done⟩) := by
      simp only [Replay.step, replayed, callsOf_cons, if_true, Emitted.call, Replay.beginEvent]
      rw [show (replaySetup keys recording).key t = keys.key t from rfl, rejected]
    exact sound.never_failed (reached.trans _ (Reachable.single _ fails)) t (by simp)

/-- The deadlock: `u` is in the monitor and waits for the turn of its event, while the
thread `t` that the schedule expects waits for the monitor. -/
theorem monitor_deadlock {t u v : Thread} {entry : TapeEntry} {done ahead : List (Thread × Emitted)}
    {self : ReplayThread} {encoded : String} {cursor : Nat}
    (split : recording.stream = done ++ (t, .input entry) :: ahead) (other : t ≠ u)
    (holding : self.phase = .holding encoded) :
    Replay.step (replaySetup keys recording)
      { (replayed done ((t, .input entry) :: ahead)).set u self with
        tapeCursor := cursor
        monitor := some u } v = none := by
  have waits : ∀ rawType, ∀ w, t ≠ w →
      Turnstile.before (replaySetup keys recording).schedule ⟨done.length, false⟩ rawType
        ((replaySetup keys recording).key w) = .waits := fun rawType w away => by
    rw [show (replaySetup keys recording).key w = keys.key w from rfl, before_at keys split]
    exact if_pos (.inr away)
  by_cases own : v = u
  · subst own
    simp only [Replay.step, Replay.set_threads, Function.update_self, holding, Replay.beginInput]
    simp only [Replay.set, replayed, waits _ _ other]
  · simp only [Replay.step, Replay.set_threads, Function.update_of_ne own, replayed]
    cases next : callsOf v ((t, .input entry) :: ahead) with
    | nil => simp
    | cons call rest =>
      cases call with
      | input kind => simp [Replay.takeEntry]
      | event rawType =>
        have away : t ≠ v := by
          rintro rfl
          simp [Emitted.call] at next
        simp only [Replay.beginEvent, Replay.set, waits _ _ away]

/-- A thread whose input comes next in its program, but not in the stream, takes the
monitor and stops every other thread. -/
theorem ReplaySound.separated [Fintype Thread] (sound : ReplaySound keys program recording)
    (programs : program = fun t => callsOf t recording.stream)
    (taped : recording.tape = entriesOf recording.stream)
    (agreed : ∀ e ∈ recording.stream, SameCategory e) : InputsSeparated recording.stream := by
  rintro before ⟨t, first⟩ between ⟨u, second⟩ after split input input' quiet other
  by_contra alone
  simp only [not_exists, not_and] at alone
  obtain ⟨entry, rfl⟩ : ∃ entry, first = .input entry := by
    cases first with
    | event rawType => simp [Emitted.tapeEntry] at input
    | input entry => exact ⟨entry, rfl⟩
  obtain ⟨entry', rfl⟩ : ∃ entry, second = .input entry := by
    cases second with
    | event rawType => simp [Emitted.tapeEntry] at input'
    | input entry => exact ⟨entry, rfl⟩
  have reached := replayed_reachable keys programs taped split
    fun e member => agreed e (by simp [split, member])
  have foreign : callsOf u between = [] := callsOf_eq_nil_iff.mpr fun e member => alone e member
  have next : callsOf u ((t, .input entry) :: (between ++ (u, .input entry') :: after)) =
      .input entry'.kind :: callsOf u after := by
    simp [other, foreign, Emitted.call]
  have first : (entriesOf ((t, .input entry) :: (between ++ (u, .input entry') :: after))).head? =
      some entry := by
    simp [Emitted.tapeEntry]
  have taken := replayed_take keys taped split first next
  by_cases same : entry.kind = entry'.kind
  · rw [if_neg (by simpa using same)] at taken
    have progress := (sound _ (reached.trans _ (Reachable.single _ taken))).1
    rcases progress with finished | ⟨v, moves⟩
    · have inside := (finished u).1
      simp at inside
    · exact moves (monitor_deadlock split other rfl)
  · rw [if_pos same] at taken
    exact sound.never_failed (reached.trans _ (Reachable.single _ taken)) u (by simp)

end Necessity

/-- For every recorded interleaving: the replay of the same programs is free of
deadlock under every scheduling and returns each thread's own values exactly when
the stream keeps its categories and separates the inputs of different threads. -/
theorem replay_sound_iff [Fintype Thread] (keys : ThreadKeys Thread)
    (program : Thread → List BridgeCall) (recording : Recorder Thread)
    (run : Reachable Recorder.step (Recorder.start program) recording)
    (finished : recording.Finished) :
    ReplaySound keys program recording ↔ Replayable recording.stream := by
  obtain ⟨programs, taped, values⟩ := recorded run finished
  constructor
  · intro sound
    have categories := sound.categories programs taped
    exact ⟨categories, sound.separated programs taped categories⟩
  · exact replaySound_of_replayable keys programs taped values

/-- The test thread and one worker thread. -/
def twoKeys : ThreadKeys Bool where
  key worker := if worker then "platform:worker-1" else "platform:main"
  named worker := by cases worker <;> decide
  distinct := by
    intro a b
    cases a <;> cases b <;> decide

/-- Both threads read the clock; the worker executes a line first when told so. -/
def clockReaders (line : Bool) : Bool → List BridgeCall
  | false => [.input "time.nanoTime"]
  | true => (if line then [.event "LINE"] else []) ++ [.input "time.nanoTime"]

/-- The test thread records its input, then the worker runs. -/
def clockLabels (line : Bool) : List (Bool × String) :=
  [(false, "MQ=="), (false, ""), (false, "")] ++ (if line then [(true, "")] else []) ++
    [(true, "Mg=="), (true, ""), (true, "")]

def clockRecording (line : Bool) : Recorder Bool :=
  ((run Recorder.step (Recorder.start (clockReaders line)) (clockLabels line))).getD
    (Recorder.start (clockReaders line))

theorem clockRecording_reachable (line : Bool) :
    Reachable Recorder.step (Recorder.start (clockReaders line)) (clockRecording line) := by
  have ends : (run Recorder.step (Recorder.start (clockReaders line)) (clockLabels line)).isSome := by
    cases line <;> decide
  obtain ⟨s, reached⟩ := Option.isSome_iff_exists.mp ends
  exact ⟨clockLabels line, by rw [clockRecording, reached]; rfl⟩

theorem clockRecording_finished (line : Bool) : (clockRecording line).Finished := by
  intro t
  cases line <;> cases t <;> decide

/-- With a line of the worker between the inputs the replay is sound. -/
theorem replay_sound_iff_demo :
    ReplaySound twoKeys (clockReaders true) (clockRecording true) := by
  refine (replay_sound_iff twoKeys (clockReaders true) (clockRecording true)
    (clockRecording_reachable true) (clockRecording_finished true)).mpr ⟨by decide, ?_⟩
  have shape : (clockRecording true).stream = [(false, .input ⟨"time.nanoTime", "MQ=="⟩),
      (true, .event "LINE"), (true, .input ⟨"time.nanoTime", "Mg=="⟩)] := by decide
  intro before first between second after split input input' quiet other
  rw [shape] at split
  rcases before with - | ⟨x, - | ⟨y, - | ⟨z, before⟩⟩⟩
  · rcases between with - | ⟨v, - | ⟨w, between⟩⟩
    · obtain ⟨rfl, rfl, -⟩ := by simpa using split
      cases input'
    · obtain ⟨rfl, rfl, rfl, -⟩ := by simpa using split
      exact ⟨_, List.mem_cons_self, rfl⟩
    · simp at split
  · obtain ⟨rfl, rfl, -⟩ := by simpa using split
    cases input
  · simp at split
  · simp at split

/-- Without it the worker takes the monitor first and both threads wait for ever. -/
theorem replay_deadlocks :
    ¬ ∀ (Thread : Type) [DecidableEq Thread] [Fintype Thread] (keys : ThreadKeys Thread)
        (program : Thread → List BridgeCall) (recording : Recorder Thread),
      Reachable Recorder.step (Recorder.start program) recording → recording.Finished →
      ReplaySound keys program recording := by
  intro claim
  have sound := claim Bool twoKeys (clockReaders false) (clockRecording false)
    (clockRecording_reachable false) (clockRecording_finished false)
  let setup := replaySetup twoKeys (clockRecording false)
  let start := Replay.start (clockReaders false)
  let last := (start.step setup true).getD start
  have enters : (start.step setup true).isSome := by decide
  obtain ⟨s, stepped⟩ := Option.isSome_iff_exists.mp enters
  have same : last = s := by simp only [last, stepped, Option.getD_some]
  rcases (sound s (Reachable.single _ stepped)).1 with finished | ⟨t, moves⟩
  · have inside : (last.threads true).phase ≠ .idle := by decide
    exact inside (same ▸ (finished true).1)
  · have stuck : (last.step setup t).isNone := by cases t <;> decide
    exact moves (same ▸ Option.isNone_iff_eq_none.mp stuck)

end Walaru.Agent
