import Walaru.Source.Agent.Replay

/-!
# A replay against its recording

The schedule and the tape that the daemon writes for a recorded stream, and the
invariant of a replay that follows it: the events before the schedule cursor are
done, each thread still has its own calls of the rest ahead, and a thread in the
monitor holds the entry of the next input of the whole stream.
-/
namespace Walaru.Agent
open Lib.Trace

/-- Logical thread names: `threadKey` starts with the kind of the thread, and a
recording whose threads share a name is never Complete. -/
structure ThreadKeys (Thread : Type) where
  key : Thread → String
  named : ∀ t, key t ≠ ""
  distinct : Function.Injective key

variable {Thread : Type} [DecidableEq Thread]

/-- One line of `schedule.tape`, from the event that the daemon ingested. -/
def scheduleEntry (keys : ThreadKeys Thread) (e : Thread × Emitted) : ScheduleEntry :=
  ⟨scheduleCategory (eventKind e.2.rawType), keys.key e.1⟩

/-- The files of a replay: the events with a thread name, and the tape. -/
def replaySetup (keys : ThreadKeys Thread) (recording : Recorder Thread) : ReplaySetup Thread where
  key := keys.key
  schedule := (recording.stream.filter fun e => keys.key e.1 ≠ "").map (scheduleEntry keys)
  tape := recording.tape

/-- The replay compares the category that the daemon wrote. -/
def SameCategory (e : Thread × Emitted) : Prop :=
  scheduleCategory (eventKind e.2.rawType) = replayCategory e.2.rawType

instance (e : Thread × Emitted) : Decidable (SameCategory e) :=
  inferInstanceAs (Decidable (_ = _))

/-- Between two inputs in a row of different threads the second thread has an event. -/
def InputsSeparated (stream : List (Thread × Emitted)) : Prop :=
  ∀ before first between second after,
    stream = before ++ first :: (between ++ second :: after) →
    first.2.tapeEntry.isSome → second.2.tapeEntry.isSome → entriesOf between = [] →
    first.1 ≠ second.1 → ∃ e ∈ between, e.1 = second.1

section Turn
variable {keys : ThreadKeys Thread} {recording : Recorder Thread} {done more : List (Thread × Emitted)}
  {e : Thread × Emitted}

omit [DecidableEq Thread] in
theorem replaySetup_schedule (keys : ThreadKeys Thread) (recording : Recorder Thread) :
    (replaySetup keys recording).schedule = recording.stream.map (scheduleEntry keys) := by
  simp [replaySetup, keys.named]

theorem before_at (keys : ThreadKeys Thread) (split : recording.stream = done ++ e :: more)
    (writing : Bool) (rawType : String) (t : Thread) :
    Turnstile.before (replaySetup keys recording).schedule ⟨done.length, writing⟩ rawType
        (keys.key t) =
      if writing ∨ e.1 ≠ t then .waits
      else if scheduleCategory (eventKind e.2.rawType) ≠ replayCategory rawType then .fails
      else .enters ⟨done.length, true⟩ := by
  have place : (replaySetup keys recording).schedule[done.length]? = some (scheduleEntry keys e) := by
    simp [replaySetup_schedule, split]
  have some_event : (replaySetup keys recording).schedule ≠ [] := by
    intro none_scheduled
    simp [none_scheduled] at place
  simp only [Turnstile.before, if_neg some_event, place, scheduleEntry, ne_eq, keys.distinct.eq_iff]

omit [DecidableEq Thread] in
theorem after_at (split : recording.stream = done ++ e :: more) (turn : Turnstile) :
    turn.after (replaySetup keys recording).schedule = ⟨turn.cursor + 1, false⟩ :=
  if_neg (by simp [replaySetup_schedule, split])

end Turn

/-- What a thread has done and has ahead when the stream stands between `done` and `ahead`. -/
def Follows (s : Replay Thread) (done ahead : List (Thread × Emitted)) (t : Thread) : Prop :=
  let self := s.threads t
  let kept := self.rest = callsOf t ahead ∧ self.returned = valuesOf t done
  match self.phase with
  | .idle => kept
  | .writing => kept ∧ s.turn.writing = true ∧ ∃ rawType more, ahead = (t, .event rawType) :: more
  | .holding encoded => kept ∧ s.monitor = some t ∧ ∃ between kind more,
      ahead = between ++ (t, .input ⟨kind, encoded⟩) :: more ∧ entriesOf between = [] ∧
        callsOf t between = []
  | .writingInput encoded => kept ∧ s.monitor = some t ∧ s.turn.writing = true ∧
      ∃ kind more, ahead = (t, .input ⟨kind, encoded⟩) :: more
  | .leaving encoded => s.monitor = some t ∧ self.rest.tail = callsOf t ahead ∧
      self.returned ++ [encoded] = valuesOf t done
  | .failed => False

/-- A tape entry is taken whose event is not written yet. -/
def ReplayPhase.reading : ReplayPhase → Bool
  | .holding _ | .writingInput _ => true
  | _ => false

def ReplayPhase.inMonitor : ReplayPhase → Bool
  | .holding _ | .writingInput _ | .leaving _ => true
  | _ => false

def ReplayPhase.atTurn : ReplayPhase → Bool
  | .writing | .writingInput _ => true
  | _ => false

structure Following (recording : Recorder Thread) (s : Replay Thread)
    (done ahead : List (Thread × Emitted)) : Prop where
  split : recording.stream = done ++ ahead
  cursor : s.turn.cursor = done.length
  follows : ∀ t, Follows s done ahead t
  holder : ∀ t, s.monitor = some t → (s.threads t).phase.inMonitor
  writer : s.turn.writing = true → ∃ t, (s.threads t).phase.atTurn
  settled : (∀ t, (s.threads t).phase.reading = false) → s.tapeCursor = (entriesOf done).length
  reading : ∀ t, (s.threads t).phase.reading → s.tapeCursor = (entriesOf done).length + 1

theorem next_call {t : Thread} {ahead : List (Thread × Emitted)} {call : BridgeCall}
    {rest : List BridgeCall} (calls : call :: rest = callsOf t ahead) :
    ∃ between e more, ahead = between ++ (t, e) :: more ∧ e.call = call ∧
      callsOf t between = [] ∧ rest = callsOf t more := by
  induction ahead with
  | nil => simp at calls
  | cons e ahead ih =>
    by_cases own : e.1 = t
    · simp only [callsOf_cons, own, if_true, List.cons.injEq] at calls
      exact ⟨[], e.2, ahead, by simp [← own], calls.1.symm, rfl, calls.2⟩
    · simp only [callsOf_cons, own, if_false] at calls
      obtain ⟨between, first, more, rfl, same, before, rest⟩ := ih calls
      exact ⟨e :: between, first, more, rfl, same, by simp [own, before], rest⟩

omit [DecidableEq Thread] in
theorem last_input {stream : List (Thread × Emitted)} (some_input : entriesOf stream ≠ []) :
    ∃ before first between, stream = before ++ first :: between ∧ first.2.tapeEntry.isSome ∧
      entriesOf between = [] := by
  induction stream using List.reverseRecOn with
  | nil => simp at some_input
  | append_singleton stream e ih =>
    cases last : e.2.tapeEntry with
    | some entry => exact ⟨stream, e, [], rfl, by simp [last], rfl⟩
    | none =>
      obtain ⟨before, first, between, rfl, input, later⟩ := ih (by simpa [last] using some_input)
      exact ⟨before, first, between ++ [e], by simp, input, by simp [later, last]⟩

/-- In a separated stream no input lies before the next event of a thread, when that
event is an input. -/
theorem InputsSeparated.next {stream done between more : List (Thread × Emitted)} {t : Thread}
    {entry : TapeEntry} (separated : InputsSeparated stream)
    (split : stream = done ++ (between ++ (t, .input entry) :: more))
    (own : callsOf t between = []) : entriesOf between = [] := by
  by_contra some_input
  obtain ⟨before, first, later, rfl, input, quiet⟩ := last_input some_input
  have foreign := callsOf_eq_nil_iff.mp own
  obtain ⟨e, member, same⟩ := separated (done ++ before) first later (t, .input entry) more
    (by simp [split]) input rfl quiet (foreign first (by simp))
  exact foreign e (by simp [member]) same

section Steps
variable {keys : ThreadKeys Thread} {recording : Recorder Thread} {s s' : Replay Thread}
  {done ahead : List (Thread × Emitted)} {t u : Thread}

/-- A thread that does not move, while the stream stays where it is. -/
theorem Follows.frame (before : Follows s done ahead u) (same : s'.threads u = s.threads u)
    (monitor : s.monitor = some u → s'.monitor = some u)
    (writing : s.turn.writing = true → s'.turn.writing = true) : Follows s' done ahead u := by
  unfold Follows at before ⊢
  rw [same]
  cases phase : (s.threads u).phase with
  | idle => simpa [phase] using before
  | writing =>
    simp only [phase] at before ⊢
    exact ⟨before.1, writing before.2.1, before.2.2⟩
  | holding encoded =>
    simp only [phase] at before ⊢
    exact ⟨before.1, monitor before.2.1, before.2.2⟩
  | writingInput encoded =>
    simp only [phase] at before ⊢
    exact ⟨before.1, monitor before.2.1, writing before.2.2.1, before.2.2.2⟩
  | leaving encoded =>
    simp only [phase] at before ⊢
    exact ⟨monitor before.1, before.2⟩
  | failed => simp [phase] at before

/-- A thread that does not move, while another thread's event is completed. -/
theorem Follows.pass {e : Emitted} (before : Follows s done ((t, e) :: ahead) u) (other : u ≠ t)
    (same : s'.threads u = s.threads u) (monitor : s'.monitor = s.monitor) :
    Follows s' (done ++ [(t, e)]) ahead u := by
  have calls : callsOf u ((t, e) :: ahead) = callsOf u ahead := by simp [Ne.symm other]
  have values : valuesOf u (done ++ [(t, e)]) = valuesOf u done := by simp [Ne.symm other]
  unfold Follows at before ⊢
  rw [same, values, monitor]
  rw [calls] at before
  cases phase : (s.threads u).phase with
  | idle => simpa [phase] using before
  | writing =>
    simp only [phase] at before
    obtain ⟨-, -, rawType, more, head⟩ := before
    exact absurd (congrArg Prod.fst (List.cons.inj head).1).symm other
  | holding encoded =>
    simp only [phase] at before ⊢
    obtain ⟨kept, held, between, kind, more, head, inputs, mine⟩ := before
    refine ⟨kept, held, ?_⟩
    cases between with
    | nil => exact absurd (congrArg Prod.fst (List.cons.inj head).1).symm other
    | cons first between =>
      obtain ⟨rfl, rfl⟩ := List.cons.inj head
      simp only [callsOf_cons, Ne.symm other, if_false] at mine
      simp only [entriesOf_cons, List.append_eq_nil_iff] at inputs
      exact ⟨between, kind, more, rfl, inputs.2, mine⟩
  | writingInput encoded =>
    simp only [phase] at before
    obtain ⟨-, -, -, kind, more, head⟩ := before
    exact absurd (congrArg Prod.fst (List.cons.inj head).1).symm other
  | leaving encoded => simpa [phase] using before
  | failed => simp [phase] at before

/-- The turnstile for a thread whose next call is known. -/
theorem Following.turn (keys : ThreadKeys Thread)
    (following : Following recording s done ahead) {call : BridgeCall}
    {rest : List BridgeCall} (calls : call :: rest = callsOf t ahead) (rawType : String) :
    s.turn.before (replaySetup keys recording).schedule rawType
        ((replaySetup keys recording).key t) = .waits ∨
      ∃ e more, ahead = (t, e) :: more ∧ e.call = call ∧ s.turn.writing = false ∧
        s.turn.before (replaySetup keys recording).schedule rawType
            ((replaySetup keys recording).key t) =
          if scheduleCategory (eventKind e.rawType) ≠ replayCategory rawType then .fails
          else .enters ⟨done.length, true⟩ := by
  obtain ⟨between, e, more, rfl, same, foreign, -⟩ := next_call calls
  have place : s.turn = ⟨done.length, s.turn.writing⟩ := by rw [← following.cursor]
  rw [place, show (replaySetup keys recording).key t = keys.key t from rfl]
  cases between with
  | nil =>
    rw [before_at keys following.split]
    cases writing : s.turn.writing with
    | true => exact .inl (by simp)
    | false => exact .inr ⟨e, more, rfl, same, rfl, by simp⟩
  | cons first between =>
    rw [List.cons_append] at following
    rw [before_at keys following.split]
    have other : first.1 ≠ t := callsOf_eq_nil_iff.mp foreign first List.mem_cons_self
    exact .inl (by simp [other])

/-- A step of `t` that leaves the stream where it is: the obligations about `t`. -/
theorem Following.stay (following : Following recording s done ahead) (self : ReplayThread)
    (threads : s'.threads = Function.update s.threads t self)
    (cursor : s'.turn.cursor = s.turn.cursor) (mine : Follows s' done ahead t)
    (monitor : ∀ u, u ≠ t → (s'.monitor = some u ↔ s.monitor = some u))
    (writing : s.turn.writing = true → s'.turn.writing = true)
    (holder : s'.monitor = some t → self.phase.inMonitor)
    (writer : s'.turn.writing = true → self.phase.atTurn ∨
      (s.turn.writing = true ∧ (s.threads t).phase.atTurn = false))
    (tape : (s'.tapeCursor = s.tapeCursor ∧
        self.phase.reading = (s.threads t).phase.reading) ∨
      (s'.tapeCursor = s.tapeCursor + 1 ∧ self.phase.reading = true ∧
        ∀ u, (s.threads u).phase.reading = false)) : Following recording s' done ahead := by
  have own : s'.threads t = self := by rw [threads, Function.update_self]
  have other : ∀ {u}, u ≠ t → s'.threads u = s.threads u := fun ne => by
    rw [threads, Function.update_of_ne ne]
  refine ⟨following.split, cursor.trans following.cursor, fun u => ?_, fun u held => ?_,
    fun busy => ?_, fun none_reading => ?_, fun u reads => ?_⟩
  · by_cases same : u = t
    · exact same ▸ mine
    · exact (following.follows u).frame (other same) (monitor u same).mpr writing
  · by_cases same : u = t
    · subst same
      exact own ▸ holder held
    · exact other same ▸ following.holder u ((monitor u same).mp held)
  · rcases writer busy with now | ⟨before, away⟩
    · exact ⟨t, own ▸ now⟩
    · obtain ⟨u, at_turn⟩ := following.writer before
      have same : u ≠ t := by
        rintro rfl
        simp [away] at at_turn
      exact ⟨u, other same ▸ at_turn⟩
  · rcases tape with ⟨cursor, reading⟩ | ⟨-, reading, -⟩
    · rw [cursor]
      refine following.settled fun u => ?_
      by_cases same : u = t
      · rw [same, ← reading, ← own]
        exact none_reading t
      · exact other same ▸ none_reading u
    · have idle := none_reading t
      rw [own, reading] at idle
      cases idle
  · rcases tape with ⟨cursor, reading⟩ | ⟨cursor, reading, quiet⟩
    · rw [cursor]
      by_cases same : u = t
      · rw [same, own, reading] at reads
        exact following.reading t reads
      · exact following.reading u (other same ▸ reads)
    · rw [cursor, following.settled quiet]

/-- A step of `t` that completes the event at the cursor. -/
theorem Following.pass {e : Emitted} (following : Following recording s done ((t, e) :: ahead))
    (self : ReplayThread) (threads : s'.threads = Function.update s.threads t self)
    (turn : s'.turn = ⟨done.length + 1, false⟩) (monitor : s'.monitor = s.monitor)
    (tapeCursor : s'.tapeCursor = s.tapeCursor) (mine : Follows s' (done ++ [(t, e)]) ahead t)
    (holder : s.monitor = some t → self.phase.inMonitor)
    (silent : self.phase.reading = false)
    (read : (s.threads t).phase.reading = e.tapeEntry.isSome)
    (alone : ∀ u, u ≠ t → (s.threads u).phase.reading = true → e.tapeEntry = none) :
    Following recording s' (done ++ [(t, e)]) ahead := by
  have own : s'.threads t = self := by rw [threads, Function.update_self]
  have other : ∀ {u}, u ≠ t → s'.threads u = s.threads u := fun ne => by
    rw [threads, Function.update_of_ne ne]
  refine ⟨by simp [following.split], by simp [turn], fun u => ?_, fun u held => ?_,
    fun busy => ?_, fun none_reading => ?_, fun u reads => ?_⟩
  · by_cases same : u = t
    · exact same ▸ mine
    · exact (following.follows u).pass same (other same) monitor
  · rw [monitor] at held
    by_cases same : u = t
    · subst same
      exact own ▸ holder held
    · exact other same ▸ following.holder u held
  · simp [turn] at busy
  · rw [tapeCursor]
    cases input : e.tapeEntry with
    | some entry =>
      rw [following.reading t (by simp [read, input])]
      simp [input]
    | none =>
      have quiet : ∀ u, (s.threads u).phase.reading = false := fun u => by
        by_cases same : u = t
        · rw [same, read, input]
          rfl
        · exact other same ▸ none_reading u
      rw [following.settled quiet]
      simp [input]
  · have same : u ≠ t := by
      rintro rfl
      rw [own, silent] at reads
      cases reads
    rw [other same] at reads
    rw [tapeCursor, following.reading u reads]
    simp [alone u same reads]

/-- A thread with a tape entry in its hands is the one in the monitor. -/
theorem Following.reader (following : Following recording s done ahead)
    (reads : (s.threads u).phase.reading = true) : s.monitor = some u := by
  have mine := following.follows u
  unfold Follows at mine
  cases phase : (s.threads u).phase <;> simp_all [ReplayPhase.reading]

theorem Following.beginEvent (following : Following recording s done ahead)
    (categories : ∀ e ∈ recording.stream, SameCategory e) {rawType : String} {rest : List BridgeCall}
    (phase : (s.threads t).phase = .idle) (next : (s.threads t).rest = .event rawType :: rest)
    (stepped : s.beginEvent (replaySetup keys recording) t rawType = some s') :
    Following recording s' done ahead := by
  have mine := following.follows t
  simp only [Follows, phase, next] at mine
  unfold Replay.beginEvent at stepped
  rcases following.turn keys mine.1 rawType with waits | ⟨e, more, rfl, same, free, admitted⟩
  · simp [waits] at stepped
  · cases e with
    | input entry => cases same
    | event other =>
      cases same
      have agreed : scheduleCategory (eventKind rawType) = replayCategory rawType :=
        categories (t, .event rawType) (by simp [following.split])
      rw [admitted, if_neg (by simp [Emitted.rawType, agreed])] at stepped
      obtain rfl := Option.some.inj stepped
      refine following.stay _ rfl following.cursor.symm ?_ (fun u _ => Iff.rfl) (fun _ => rfl) ?_
        (fun _ => .inl rfl) (.inl ⟨rfl, ?_⟩)
      · simp [Follows, mine, next]
      · intro held
        have inside := following.holder t held
        simp [phase, ReplayPhase.inMonitor] at inside
      · simp [phase, ReplayPhase.reading]

theorem Following.takeEntry (following : Following recording s done ahead)
    (separated : InputsSeparated recording.stream) (taped : recording.tape = entriesOf recording.stream)
    {kind : String} {rest : List BridgeCall}
    (phase : (s.threads t).phase = .idle) (next : (s.threads t).rest = .input kind :: rest)
    (stepped : s.takeEntry (replaySetup keys recording) t kind = some s') :
    Following recording s' done ahead := by
  have mine := following.follows t
  simp only [Follows, phase, next] at mine
  obtain ⟨between, e, more, rfl, same, foreign, -⟩ := next_call mine.1
  cases e with
  | event rawType => cases same
  | input entry =>
    cases same
    have first := separated.next following.split foreign
    by_cases free : s.monitor = none
    · have quiet : ∀ u, (s.threads u).phase.reading = false := fun u => by
        by_contra reads
        simp [following.reader (by simpa using reads)] at free
      have place : (replaySetup keys recording).tape[s.tapeCursor]? = some entry := by
        simp [replaySetup, taped, following.split, following.settled quiet, first, Emitted.tapeEntry]
      simp only [Replay.takeEntry, free, place] at stepped
      simp only [ne_eq, not_true_eq_false, if_false, Option.some.injEq] at stepped
      subst stepped
      refine following.stay _ rfl rfl ?_ ?_ id (fun _ => rfl) ?_ (.inr ⟨rfl, rfl, quiet⟩)
      · simp only [Follows, Replay.set_threads, Function.update_self, next]
        exact ⟨mine, trivial, between, entry.kind, more, rfl, first, foreign⟩
      · intro u other
        simp [free, Ne.symm other]
      · intro busy
        refine .inr ⟨busy, ?_⟩
        simp [phase, ReplayPhase.atTurn]
    · simp [Replay.takeEntry, free] at stepped

theorem Following.beginInput (following : Following recording s done ahead) {encoded : String}
    (phase : (s.threads t).phase = .holding encoded)
    (stepped : s.beginInput (replaySetup keys recording) t encoded = some s') :
    Following recording s' done ahead := by
  have mine := following.follows t
  simp only [Follows, phase] at mine
  obtain ⟨kept, held, between, kind, more, shape, first, foreign⟩ := mine
  have calls : .input kind :: callsOf t more = callsOf t ahead := by
    simp [shape, foreign, Emitted.call]
  unfold Replay.beginInput at stepped
  rcases following.turn keys calls "INPUT" with waits | ⟨e, later, head, same, free, admitted⟩
  · simp [waits] at stepped
  · cases e with
    | event rawType => cases same
    | input entry =>
      rw [admitted, if_neg (by simp [Emitted.rawType, eventKind, scheduleCategory, replayCategory])]
        at stepped
      obtain rfl := Option.some.inj stepped
      -- The head of what is ahead is this thread's own input.
      have nothing : between = [] := by
        cases between with
        | nil => rfl
        | cons x between =>
          rw [head, List.cons_append] at shape
          obtain ⟨rfl, -⟩ := List.cons.inj shape
          simp [Emitted.call] at foreign
      refine following.stay _ rfl following.cursor.symm ?_ (fun u _ => Iff.rfl) (fun _ => rfl)
        (fun _ => rfl) (fun _ => .inl rfl) (.inl ⟨rfl, ?_⟩)
      · simp only [Follows, Replay.set_threads, Function.update_self, Replay.set_monitor]
        exact ⟨kept, held, trivial, kind, more, by rw [shape, nothing, List.nil_append]⟩
      · simp [phase, ReplayPhase.reading]

theorem Following.endEvent (following : Following recording s done ahead)
    (phase : (s.threads t).phase = .writing) :
    ∃ later ahead', Following recording
      { s.set t { s.threads t with rest := (s.threads t).rest.tail, phase := .idle } with
        turn := s.turn.after (replaySetup keys recording).schedule } later ahead' := by
  have mine := following.follows t
  simp only [Follows, phase] at mine
  obtain ⟨⟨rest, returned⟩, -, rawType, more, rfl⟩ := mine
  refine ⟨_, more, following.pass _ rfl ?_ rfl rfl ?_ ?_ rfl ?_ ?_⟩
  · rw [after_at following.split, following.cursor]
  · simp [Follows, rest, returned, Emitted.tapeEntry]
  · intro held
    have inside := following.holder t held
    simp [phase, ReplayPhase.inMonitor] at inside
  · simp [phase, ReplayPhase.reading, Emitted.tapeEntry]
  · exact fun _ _ _ => rfl

theorem Following.endInput (following : Following recording s done ahead) {encoded : String}
    (phase : (s.threads t).phase = .writingInput encoded) :
    ∃ later ahead', Following recording
      { s.set t { s.threads t with phase := .leaving encoded } with
        turn := s.turn.after (replaySetup keys recording).schedule } later ahead' := by
  have mine := following.follows t
  simp only [Follows, phase] at mine
  obtain ⟨⟨rest, returned⟩, held, -, kind, more, rfl⟩ := mine
  refine ⟨_, more, following.pass _ rfl ?_ rfl rfl ?_ (fun _ => rfl) rfl ?_ fun u other reads => ?_⟩
  · rw [after_at following.split, following.cursor]
  · simp [Follows, rest, returned, held, Emitted.tapeEntry]
  · simp [phase, ReplayPhase.reading, Emitted.tapeEntry]
  · rw [following.reader reads] at held
    exact absurd (Option.some.inj held) other

theorem Following.leave (following : Following recording s done ahead) {encoded : String}
    (phase : (s.threads t).phase = .leaving encoded) :
    Following recording
      { s.set t ⟨(s.threads t).rest.tail, .idle, (s.threads t).returned ++ [encoded]⟩ with
        monitor := none } done ahead := by
  have mine := following.follows t
  simp only [Follows, phase] at mine
  obtain ⟨held, rest, returned⟩ := mine
  refine following.stay _ rfl rfl ?_ ?_ id ?_ ?_ (.inl ⟨rfl, ?_⟩)
  · simp [Follows, rest, returned]
  · intro u other
    simp [held, Ne.symm other]
  · simp
  · intro busy
    refine .inr ⟨busy, ?_⟩
    simp [phase, ReplayPhase.atTurn]
  · simp [phase, ReplayPhase.reading]

/-- Every step of a replay follows the recording. -/
theorem Following.step (following : Following recording s done ahead)
    (categories : ∀ e ∈ recording.stream, SameCategory e)
    (separated : InputsSeparated recording.stream)
    (taped : recording.tape = entriesOf recording.stream)
    (stepped : s.step (replaySetup keys recording) t = some s') :
    ∃ later ahead', Following recording s' later ahead' := by
  have mine := following.follows t
  simp only [Replay.step] at stepped
  split at stepped
  · cases stepped
  · rename_i phase next
    exact ⟨_, _, following.beginEvent categories phase next stepped⟩
  · rename_i phase next
    exact ⟨_, _, following.takeEntry separated taped phase next stepped⟩
  · rename_i phase
    obtain rfl := Option.some.inj stepped
    exact following.endEvent phase
  · rename_i phase
    exact ⟨_, _, following.beginInput phase stepped⟩
  · rename_i phase
    obtain rfl := Option.some.inj stepped
    exact following.endInput phase
  · rename_i phase
    obtain rfl := Option.some.inj stepped
    exact ⟨_, _, following.leave phase⟩
  · rename_i phase
    simp [Follows, phase] at mine

theorem Following.start {program : Thread → List BridgeCall}
    (programs : program = fun t => callsOf t recording.stream) :
    Following recording (Replay.start program) [] recording.stream where
  split := rfl
  cursor := rfl
  follows t := ⟨congrFun programs t, rfl⟩
  holder t held := by cases held
  writer busy := by cases busy
  settled _ := rfl
  reading t reads := by cases reads

/-- The turnstile admits or rejects the thread whose event is next. -/
theorem Following.turn_open {e : Emitted} (keys : ThreadKeys Thread)
    (following : Following recording s done ((t, e) :: ahead)) (free : s.turn.writing = false)
    (rawType : String) :
    s.turn.before (replaySetup keys recording).schedule rawType
      ((replaySetup keys recording).key t) ≠ .waits := by
  have place : s.turn = ⟨done.length, false⟩ := by rw [← following.cursor, ← free]
  rw [place, show (replaySetup keys recording).key t = keys.key t from rfl,
    before_at keys following.split]
  simp only [Bool.false_eq_true, ne_eq, not_true_eq_false, or_self, if_false]
  split <;> simp

/-- The owner of the next event can move when nobody is at the turnstile or leaving. -/
theorem Following.head_moves {e : Emitted} (keys : ThreadKeys Thread)
    (following : Following recording s done ((t, e) :: ahead)) (free : s.turn.writing = false)
    (resting : ∀ u, (s.threads u).phase = .idle ∨ ∃ encoded, (s.threads u).phase = .holding encoded) :
    s.step (replaySetup keys recording) t ≠ none := by
  have mine := following.follows t
  have turn := fun rawType => following.turn_open keys free rawType
  rcases resting t with phase | ⟨encoded, phase⟩
  · simp only [Follows, phase, callsOf_cons, if_true] at mine
    cases e with
    | event rawType =>
      simp only [Replay.step, phase, mine.1, Emitted.call, Replay.beginEvent]
      split
      · rename_i waits
        exact absurd waits (turn rawType)
      · simp
      · simp
    | input entry =>
      -- Whoever holds the monitor would hold the entry of this very input.
      have unheld : s.monitor = none := by
        by_contra held
        obtain ⟨u, held⟩ := Option.ne_none_iff_exists'.mp held
        have inside := following.holder u held
        rcases resting u with idle | ⟨encoded, holding⟩
        · simp [idle, ReplayPhase.inMonitor] at inside
        · have theirs := following.follows u
          simp only [Follows, holding] at theirs
          obtain ⟨-, -, between, kind, more, shape, first, -⟩ := theirs
          cases between with
          | nil =>
            have same : t = u := congrArg Prod.fst (List.cons.inj shape).1
            rw [← same, phase] at holding
            cases holding
          | cons x between =>
            obtain ⟨rfl, -⟩ := List.cons.inj shape
            simp [Emitted.tapeEntry] at first
      simp only [Replay.step, phase, mine.1, Emitted.call, Replay.takeEntry, unheld]
      split
      · rename_i held
        exact absurd rfl held
      · split
        · simp
        · split <;> simp
  · simp only [Replay.step, phase, Replay.beginInput]
    split
    · rename_i waits
      exact absurd waits (turn "INPUT")
    · simp
    · simp

/-- A replay that follows its recording is finished or can move. -/
theorem Following.progress (keys : ThreadKeys Thread) (following : Following recording s done ahead) :
    s.Finished ∨ ∃ t, s.step (replaySetup keys recording) t ≠ none := by
  by_cases busy : ∃ t, (s.threads t).phase.atTurn = true ∨
      ∃ encoded, (s.threads t).phase = .leaving encoded
  · obtain ⟨t, inside⟩ := busy
    refine .inr ⟨t, ?_⟩
    cases phase : (s.threads t).phase <;>
      simp [phase, ReplayPhase.atTurn, Replay.step] at inside ⊢
  · simp only [not_exists, not_or, Bool.not_eq_true] at busy
    have resting : ∀ t, (s.threads t).phase = .idle ∨
        ∃ encoded, (s.threads t).phase = .holding encoded := by
      intro t
      have mine := following.follows t
      cases phase : (s.threads t).phase with
      | idle => exact .inl rfl
      | holding encoded => exact .inr ⟨encoded, rfl⟩
      | leaving encoded => exact absurd phase ((busy t).2 encoded)
      | failed => simp [Follows, phase] at mine
      | writing => simpa [phase, ReplayPhase.atTurn] using (busy t).1
      | writingInput encoded => simpa [phase, ReplayPhase.atTurn] using (busy t).1
    have free : s.turn.writing = false := by
      by_contra writing
      obtain ⟨t, at_turn⟩ := following.writer (by simpa using writing)
      rw [(busy t).1] at at_turn
      cases at_turn
    cases ahead with
    | cons e ahead => exact .inr ⟨e.1, following.head_moves keys free resting⟩
    | nil =>
      refine .inl fun t => ?_
      have mine := following.follows t
      rcases resting t with phase | ⟨encoded, phase⟩
      · simp only [Follows, phase] at mine
        exact ⟨phase, mine.1⟩
      · simp only [Follows, phase] at mine
        obtain ⟨-, -, between, kind, more, shape, -⟩ := mine
        simp at shape

theorem Following.returned (following : Following recording s done ahead) (t : Thread) :
    (s.threads t).returned <+: valuesOf t recording.stream := by
  have mine := following.follows t
  have earlier : valuesOf t done <+: valuesOf t recording.stream := by
    rw [following.split, valuesOf_append]
    exact List.prefix_append _ _
  unfold Follows at mine
  cases phase : (s.threads t).phase with
  | idle | writing | holding encoded | writingInput encoded =>
    simp only [phase] at mine
    simpa [mine] using earlier
  | leaving encoded =>
    simp only [phase] at mine
    exact (List.prefix_append _ _).trans (mine.2.2 ▸ earlier)
  | failed => simp [phase] at mine

end Steps

end Walaru.Agent
