import Walaru.Source.Client.PipeReading

/-!
# What the client reads of a response

The reader takes an empty pipe and then a set flag as the end of the output. A line that is
written, and the exit behind it, between the two observations is lost. When nothing of the
line is left in the pipe wherever the reader ends at the flag, every result is the first
line, up to the bound.
-/
namespace Walaru.Client
open Lib.Trace

def firstLine (bytes : List UInt8) : List UInt8 := bytes.takeWhile (· ≠ 10)

/-- A line up to the bound, and whether it is longer. -/
def bounded (maximum : Nat) (line : List UInt8) : BoundedBytes :=
  ⟨line.take maximum, decide (maximum < line.length)⟩

/-- What the reader has returned is the first line of what has been written. -/
def ReturnsLine (maximum : Nat) (s : Exchange) : Prop :=
  ∀ result, s.reader = .returned result → result = bounded maximum (firstLine s.written)

/-- Nothing of the line is in the pipe, unless the bound is exceeded already. -/
def Drained (maximum : Nat) (s : Exchange) : Prop := firstLine s.pipe = [] ∨ maximum < s.total

instance (maximum : Nat) (s : Exchange) : Decidable (Drained maximum s) :=
  inferInstanceAs (Decidable (_ ∨ _))

/-- The reader ends at the flag only when the pipe is drained. -/
def EndsDrained (maximum : Nat) (s : Exchange) (action : PipeAction) : Prop :=
  action = .check → s.reader = .checking → s.processFinished = true → Drained maximum s

theorem firstLine_append {before : List UInt8} (silent : 10 ∉ before) (after : List UInt8) :
    firstLine (before ++ after) = before ++ firstLine after := by
  unfold firstLine
  exact List.takeWhile_append_of_pos fun byte inside =>
    decide_eq_true fun same => silent (same ▸ inside)

theorem firstLine_of_silent {bytes : List UInt8} (silent : 10 ∉ bytes) : firstLine bytes = bytes := by
  have whole := firstLine_append silent []
  rwa [List.append_nil, show firstLine [] = [] from rfl, List.append_nil] at whole

theorem firstLine_of_ended {bytes : List UInt8} (ended : 10 ∈ bytes) (after : List UInt8) :
    firstLine (bytes ++ after) = firstLine bytes := by
  induction bytes with
  | nil => cases ended
  | cons byte rest ih =>
    unfold firstLine at ih ⊢
    rw [List.cons_append]
    by_cases newline : byte = 10
    · rw [List.takeWhile_cons_of_neg (by simp [newline]), List.takeWhile_cons_of_neg (by simp [newline])]
    · have later : 10 ∈ rest := (List.mem_cons.mp ended).resolve_left fun same => newline same.symm
      rw [List.takeWhile_cons_of_pos (by simp [newline]), List.takeWhile_cons_of_pos (by simp [newline]),
        ih later]

/-- A chunk behind bytes without a newline. -/
theorem keepChunk_eq (maximum : Nat) (seen chunk : List UInt8) :
    keepChunk maximum (seen.take maximum) seen.length chunk =
      ((seen ++ firstLine chunk).take maximum, (seen ++ firstLine chunk).length,
        decide (10 ∈ chunk)) := by
  induction chunk generalizing seen with
  | nil => simp [keepChunk, firstLine]
  | cons byte rest ih =>
    rw [keepChunk]
    by_cases newline : byte = 10
    · have line : firstLine (byte :: rest) = [] := by
        unfold firstLine
        exact List.takeWhile_cons_of_neg (by simp [newline])
      rw [if_pos newline, line, List.append_nil, decide_eq_true (newline ▸ List.mem_cons_self)]
    · have line : firstLine (byte :: rest) = byte :: firstLine rest := by
        unfold firstLine
        exact List.takeWhile_cons_of_pos (by simp [newline])
      have kept : (if seen.length < maximum then seen.take maximum ++ [byte] else seen.take maximum) =
          (seen ++ [byte]).take maximum := by
        by_cases room : seen.length < maximum
        · rw [if_pos room, List.take_of_length_le (by omega), List.take_of_length_le (by simp; omega)]
        · rw [if_neg room, List.take_append_of_le_length (by omega)]
      have total : seen.length + 1 = (seen ++ [byte]).length := by simp
      have same : (10 ∈ byte :: rest) ↔ 10 ∈ rest := by
        rw [List.mem_cons]
        exact or_iff_right fun same => newline same.symm
      rw [if_neg newline, kept, total, ih, line, List.append_assoc, List.singleton_append]
      simp only [same]

/-- The reader has read all of the written bytes but those in the pipe, without a newline. -/
def Follows (maximum : Nat) (s : Exchange) : Prop :=
  ∃ seen, 10 ∉ seen ∧ s.written = seen ++ s.pipe ∧ s.kept = seen.take maximum ∧ s.total = seen.length

structure Consistent (maximum : Nat) (s : Exchange) : Prop where
  exited : s.processFinished = true → s.exited = true
  running : (∀ result, s.reader ≠ .returned result) → Follows maximum s
  /-- No more is written to the line. -/
  settled : ∀ result, s.reader = .returned result → s.exited = true ∨ 10 ∈ s.written

theorem init_consistent (maximum : Nat) : Consistent maximum Exchange.init where
  exited := nofun
  running := fun _ => ⟨[], List.not_mem_nil, rfl, List.take_nil.symm, rfl⟩
  settled := nofun

/-- Some bytes are read: the line ends in them, or they belong to it. -/
theorem Follows.readSome {maximum : Nat} {s : Exchange} (follows : Follows maximum s) (count : Nat) :
    10 ∈ s.written ∧
        (s.readSome maximum count).reader = .returned (bounded maximum (firstLine s.written)) ∨
      (s.readSome maximum count).reader = .polling ∧ Follows maximum (s.readSome maximum count) := by
  obtain ⟨seen, silent, written, kept, total⟩ := follows
  have chunk : s.pipe.take count ++ s.pipe.drop count = s.pipe := List.take_append_drop count s.pipe
  unfold Exchange.readSome
  rw [kept, total, keepChunk_eq]
  dsimp only
  by_cases ended : 10 ∈ s.pipe.take count
  · refine Or.inl ⟨?_, ?_⟩
    · rw [written]
      exact List.mem_append_right _ (List.mem_of_mem_take ended)
    · have line : firstLine s.written = seen ++ firstLine (s.pipe.take count) := by
        rw [written, ← chunk, firstLine_append silent, firstLine_of_ended ended, chunk]
      rw [line, if_pos (decide_eq_true ended)]
      rfl
  · refine Or.inr ⟨if_neg (by simpa using ended), seen ++ s.pipe.take count, ?_, ?_, ?_, ?_⟩
    · exact fun inside => (List.mem_append.mp inside).elim silent ended
    · dsimp only
      rw [written, List.append_assoc, chunk]
    · dsimp only
      rw [firstLine_of_silent ended]
    · dsimp only
      rw [firstLine_of_silent ended]

/-- The result at the flag is the first line exactly when the pipe is drained. -/
theorem Follows.result_iff {maximum : Nat} {s : Exchange} (follows : Follows maximum s) :
    s.result maximum = bounded maximum (firstLine s.written) ↔ Drained maximum s := by
  obtain ⟨seen, silent, written, kept, total⟩ := follows
  unfold Exchange.result bounded Drained
  rw [written, firstLine_append silent, kept, total, List.length_append]
  constructor
  · intro same
    obtain ⟨bytes, exceeded⟩ := BoundedBytes.mk.inj same
    by_cases beyond : maximum < seen.length
    · exact Or.inr beyond
    · have fits : ¬maximum < seen.length + (firstLine s.pipe).length := by
        rw [← decide_eq_decide.mp exceeded]
        exact beyond
      rw [List.take_of_length_le (by omega), List.take_of_length_le (by simp; omega)] at bytes
      exact Or.inl (List.append_right_eq_self.mp bytes.symm)
  · rintro (empty | beyond)
    · rw [empty, List.append_nil, List.length_nil, Nat.add_zero]
    · rw [List.take_append_of_le_length (by omega), decide_eq_true beyond,
        decide_eq_true (show maximum < seen.length + (firstLine s.pipe).length by omega)]

/-- What one step does. -/
inductive Steps (maximum : Nat) (s : Exchange) : PipeAction → Exchange → Prop
  | write (bytes : List UInt8) (running : s.exited = false) :
      Steps maximum s (.write bytes)
        { s with written := s.written ++ bytes, pipe := s.pipe ++ bytes }
  | exit : Steps maximum s .exit { s with exited := true }
  | finish (exited : s.exited = true) : Steps maximum s .finish { s with processFinished := true }
  | available (polling : s.reader = .polling) (reader : PipeReader)
      (waits : ∀ result, reader ≠ .returned result) :
      Steps maximum s .available { s with reader := reader }
  | check (checking : s.reader = .checking) :
      Steps maximum s .check
        { s with reader := if s.processFinished then .returned (s.result maximum) else .polling }
  | read (count available : Nat) (reading : s.reader = .reading available) :
      Steps maximum s (.read count) (s.readSome maximum count)

theorem step_cases {maximum : Nat} {s s' : Exchange} {action : PipeAction}
    (stepped : s.step maximum action = some s') : Steps maximum s action s' := by
  cases action with
  | write bytes =>
    simp only [Exchange.step] at stepped
    split at stepped
    · cases stepped
    · rename_i running
      cases stepped
      exact .write bytes (by simpa using running)
  | exit =>
    simp only [Exchange.step] at stepped
    split at stepped
    · cases stepped
    · cases stepped
      exact .exit
  | finish =>
    simp only [Exchange.step] at stepped
    split at stepped
    · rename_i ready
      cases stepped
      exact .finish (by simpa using (Bool.and_eq_true _ _ ▸ ready).1)
    · cases stepped
  | available =>
    simp only [Exchange.step] at stepped
    split at stepped
    · rename_i polling
      cases stepped
      refine .available polling _ fun result => ?_
      split <;> exact nofun
    · cases stepped
  | check =>
    simp only [Exchange.step] at stepped
    split at stepped
    · rename_i checking
      cases stepped
      exact .check checking
    · cases stepped
  | read count =>
    simp only [Exchange.step] at stepped
    split at stepped
    · rename_i available reading
      split at stepped
      · cases stepped
        exact .read count available reading
      · cases stepped
    · cases stepped

theorem readSome_frame (maximum count : Nat) (s : Exchange) :
    (s.readSome maximum count).exited = s.exited ∧
      (s.readSome maximum count).processFinished = s.processFinished ∧
      (s.readSome maximum count).written = s.written := ⟨rfl, rfl, rfl⟩

theorem Follows.write {maximum : Nat} {s : Exchange} (follows : Follows maximum s) (bytes : List UInt8) :
    Follows maximum { s with written := s.written ++ bytes, pipe := s.pipe ++ bytes } := by
  obtain ⟨seen, silent, written, kept, total⟩ := follows
  exact ⟨seen, silent, by dsimp only; rw [written, List.append_assoc], kept, total⟩

theorem step_consistent {maximum : Nat} (s : Exchange) (action : PipeAction) (s' : Exchange)
    (consistent : Consistent maximum s) (stepped : s.step maximum action = some s') :
    Consistent maximum s' := by
  cases step_cases stepped with
  | write bytes running =>
    refine ⟨consistent.exited, fun waits => (consistent.running waits).write bytes, ?_⟩
    intro result returned
    exact (consistent.settled result returned).imp_right fun ended =>
      List.mem_append_left _ ended
  | exit => exact ⟨fun _ => rfl, consistent.running, fun _ _ => Or.inl rfl⟩
  | finish exited => exact ⟨fun _ => exited, consistent.running, consistent.settled⟩
  | available polling reader waits =>
    refine ⟨consistent.exited, fun _ => consistent.running (by rw [polling]; exact nofun), ?_⟩
    exact fun result returned => absurd returned (waits result)
  | check checking =>
    have follows := consistent.running (by rw [checking]; exact nofun)
    refine ⟨consistent.exited, fun _ => follows, fun result returned => ?_⟩
    cases finished : s.processFinished with
    | true => exact Or.inl (consistent.exited finished)
    | false =>
      dsimp only at returned
      rw [finished] at returned
      cases returned
  | read count available reading =>
    obtain ⟨exited, finished, written⟩ := readSome_frame maximum count s
    have follows := consistent.running (by rw [reading]; exact nofun)
    rcases follows.readSome count with ⟨ended, returned⟩ | ⟨polling, follows⟩
    · refine ⟨by rw [finished, exited]; exact consistent.exited, fun waits => ?_, fun _ _ => ?_⟩
      · exact absurd returned (waits _)
      · rw [written]
        exact Or.inr ended
    · refine ⟨by rw [finished, exited]; exact consistent.exited, fun _ => follows, ?_⟩
      intro result returned
      rw [polling] at returned
      cases returned

theorem step_returns {maximum : Nat} (s : Exchange) (action : PipeAction) (s' : Exchange)
    (consistent : Consistent maximum s) (returns : ReturnsLine maximum s)
    (drained : EndsDrained maximum s action) (stepped : s.step maximum action = some s') :
    ReturnsLine maximum s' := by
  cases step_cases stepped with
  | write bytes running =>
    intro result returned
    have ended := (consistent.settled result returned).resolve_left (by rw [running]; decide)
    dsimp only
    rw [firstLine_of_ended ended]
    exact returns result returned
  | exit => exact returns
  | finish => exact returns
  | available polling reader waits => exact fun result returned => absurd returned (waits result)
  | check checking =>
    have follows := consistent.running (by rw [checking]; exact nofun)
    intro result returned
    dsimp only at returned ⊢
    cases finished : s.processFinished with
    | true =>
      rw [finished, if_pos rfl] at returned
      cases returned
      exact follows.result_iff.mpr (drained rfl checking finished)
    | false =>
      rw [finished] at returned
      cases returned
  | read count available reading =>
    have follows := consistent.running (by rw [reading]; exact nofun)
    intro result returned
    rw [(readSome_frame maximum count s).2.2]
    rcases follows.readSome count with ⟨-, whole⟩ | ⟨polling, -⟩
    · rw [whole] at returned
      cases returned
      rfl
    · rw [polling] at returned
      cases returned

theorem step_drained {maximum : Nat} (s : Exchange) (action : PipeAction) (s' : Exchange)
    (consistent : Consistent maximum s) (stepped : s.step maximum action = some s')
    (returns : ReturnsLine maximum s') : EndsDrained maximum s action := by
  rintro rfl checking finished
  have follows := consistent.running (by rw [checking]; exact nofun)
  cases step_cases stepped with
  | check =>
    refine follows.result_iff.mp (returns _ ?_)
    dsimp only
    rw [finished, if_pos rfl]

/-- Whatever the reader returns in the course of a run is the first line exactly when it ends at
the flag only with a drained pipe. -/
theorem returns_line_iff (maximum : Nat) {actions : List PipeAction} {s : Exchange}
    (ran : run (Exchange.step maximum) Exchange.init actions = some s) :
    (∀ pre t, pre <+: actions → run (Exchange.step maximum) Exchange.init pre = some t →
        ReturnsLine maximum t) ↔
      Along (Exchange.step maximum) (EndsDrained maximum) Exchange.init actions :=
  (along_iff_always _ ran (init_consistent maximum) nofun step_consistent step_returns
    step_drained).symm

/-- The line is written, the child exits and the flag is set behind the last look at the pipe. -/
def lineLost : List PipeAction :=
  [.available, .write [91, 93, 10], .exit, .finish, .check]

theorem lineLost_returns :
    ∃ s, run (Exchange.step 1024) Exchange.init lineLost = some s ∧
      ((∀ pre t, pre <+: lineLost → run (Exchange.step 1024) Exchange.init pre = some t →
          ReturnsLine 1024 t) ↔
        Along (Exchange.step 1024) (EndsDrained 1024) Exchange.init lineLost) :=
  ⟨_, rfl, returns_line_iff 1024 rfl⟩

/-- The response of that run is empty. -/
theorem lineLost_empty :
    ¬ ∀ (maximum : Nat) (actions : List PipeAction) (s : Exchange),
      run (Exchange.step maximum) Exchange.init actions = some s → ReturnsLine maximum s := by
  intro claim
  have line := claim 1024 lineLost _ rfl _ rfl
  revert line
  decide

end Walaru.Client
