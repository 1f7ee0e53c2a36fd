import Walaru.Source.Agent.InputTape
import Walaru.Source.Daemon.Tape

/-!
# The input tape from the agent to the daemon and back

A tape is written by the agent, validated and decoded by the daemon, written again
for a replay and read by the agent. What comes back is what was recorded unless a
payload was empty.
-/
namespace Walaru.Agent
open Lib.Text

/-- The tape of these inputs is accepted, and every recording with the inputs that the
daemon read, and without input events when there are none, replays them in order. -/
def RoundTrips (inputs : List TapeInput) : Prop :=
  ∃ recorded, recordedInputs (.text (recordTape inputs)) = .ok recorded ∧
    ∀ recording : Recording, recording.inputs = recorded →
      (inputs = [] → ∀ event ∈ recording.events, event.kind ≠ .input) →
      ∃ text tape, writeReplayInputs recording = .ok text ∧ replay text = some tape ∧
        tape.length = inputs.length ∧
        nextReplayed tape (inputs.map fun input => input.kind.text) =
          some (inputs.map fun input => input.bytes)

/-- A character of a kind. -/
def kindChar (c : Char) : Bool := (c.toNat < 128 && c.isAlphanum) || c = '.'

theorem hexEncode_kindChar {bytes : List UInt8} {c : Char} (inside : c ∈ (hexEncode bytes).toList) :
    kindChar c = true := by
  have table : ∀ n : Fin 16, kindChar (hexDigit n) = true := by decide
  simp only [hexEncode, String.toList_ofList, List.mem_flatMap, List.mem_cons, List.not_mem_nil,
    or_false] at inside
  obtain ⟨byte, -, rfl | rfl⟩ := inside
  · have bound := byte.toNat_lt
    exact table ⟨byte.toNat / 16, by omega⟩
  · exact table ⟨byte.toNat % 16, by omega⟩

theorem InputKind.text_plain (kind : InputKind) :
    kind.text ≠ "" ∧ ∀ c ∈ kind.text.toList, kindChar c = true := by
  have table : (("io.file.readAllBytes." :: "io.file.readString." ::
      "io.file.readStringCharset." :: "." :: boundaryKinds).all fun name =>
      name != "" && name.toList.all kindChar) = true := by
    decide
  have literals : ∀ name ∈ "io.file.readAllBytes." :: "io.file.readString." ::
      "io.file.readStringCharset." :: "." :: boundaryKinds,
      name ≠ "" ∧ ∀ c ∈ name.toList, kindChar c = true := by
    intro name member
    have both := List.all_eq_true.mp table name member
    rw [Bool.and_eq_true, bne_iff_ne, List.all_eq_true] at both
    exact both
  have joined : ∀ {a b : String}, (a ≠ "" ∧ ∀ c ∈ a.toList, kindChar c = true) →
      (∀ c ∈ b.toList, kindChar c = true) →
      a ++ b ≠ "" ∧ ∀ c ∈ (a ++ b).toList, kindChar c = true := by
    intro a b first second
    refine ⟨?_, ?_⟩
    · intro empty
      have chars := congrArg String.toList empty
      rw [String.toList_append] at chars
      exact first.1 (String.toList_eq_nil_iff.mp (List.append_eq_nil_iff.mp chars).1)
    · intro c inside
      rw [String.toList_append] at inside
      exact (List.mem_append.mp inside).elim (first.2 c) (second c)
  cases kind with
  | boundary name => exact literals name (by simp [name.2])
  | readAllBytes file =>
    exact joined (literals _ (by simp)) fun c inside => hexEncode_kindChar inside
  | readString file =>
    exact joined (literals _ (by simp)) fun c inside => hexEncode_kindChar inside
  | readStringCharset file charset =>
    have path := joined (literals "io.file.readStringCharset." (by simp))
      fun c (inside : c ∈ (hexEncode file).toList) => hexEncode_kindChar inside
    exact joined (joined path (literals "." (by simp)).2) fun c inside => hexEncode_kindChar inside

theorem encode_base64Char {bytes : List UInt8} {c : Char}
    (inside : c ∈ Lib.Base64.encode bytes) : base64Char c = true := by
  have table : ∀ n : Fin 64, base64Char (Lib.Base64.digit n) = true := by decide
  rcases Lib.Base64.mem_encode inside with rfl | ⟨n, bound, rfl⟩
  · decide
  · exact table ⟨n, bound⟩

/-- What the two alphabets leave out. -/
theorem kindChar_apart {c : Char} (plain : kindChar c = true) :
    tapeSeparator c = false ∧ isJavaWhitespace c = false := by
  have ascii : c.toNat < 128 := by
    simp only [kindChar, Bool.or_eq_true, Bool.and_eq_true, decide_eq_true_eq] at plain
    rcases plain with ⟨bound, -⟩ | rfl
    · exact bound
    · decide
  exact ascii_forall (P := fun c => kindChar c = true →
    tapeSeparator c = false ∧ isJavaWhitespace c = false) (by decide +kernel) ascii plain

theorem base64Char_apart {c : Char} (plain : base64Char c = true) : tapeSeparator c = false := by
  have ascii : c.toNat < 128 := by
    simp only [base64Char, Bool.or_eq_true, Bool.and_eq_true, decide_eq_true_eq] at plain
    rcases plain with ((⟨bound, -⟩ | rfl) | rfl) | rfl
    · exact bound
    · decide
    · decide
    · decide
  exact ascii_forall (P := fun c => base64Char c = true → tapeSeparator c = false)
    (by decide +kernel) ascii plain

theorem separators_ne {chars : List Char} (plain : ∀ c ∈ chars, tapeSeparator c = false) :
    '\t' ∉ chars ∧ '\n' ∉ chars ∧ '\r' ∉ chars := by
  refine ⟨?_, ?_, ?_⟩
  all_goals
    intro inside
    exact absurd (plain _ inside) (by decide)

/-- An entry of the agent is valid for the daemon exactly when its payload is not empty. -/
theorem validTapeEntry_iff (input : TapeInput) :
    validTapeEntry input.entry.kind input.entry.encoded = true ↔ input.bytes ≠ [] := by
  obtain ⟨named, plain⟩ := input.kind.text_plain
  have separators : (input.kind.text.toList.any tapeSeparator) = false := by
    rw [List.any_eq_false]
    intro c inside
    simp [(kindChar_apart (plain c inside)).1]
  have alphabet : (Lib.Base64.encode input.bytes).all base64Char = true := by
    rw [List.all_eq_true]
    intro c inside
    exact encode_base64Char inside
  simp only [validTapeEntry, TapeInput.entry, String.toList_ofList, separators, alphabet]
  have chars : input.kind.text.toList ≠ [] := fun empty => named (String.toList_eq_nil_iff.mp empty)
  simp [← String.toList_eq_nil_iff, Lib.Base64.encode_eq_nil, chars]

/-- An entry's line holds its one separator only. -/
theorem entry_plain (input : TapeInput) :
    '\t' ∉ input.entry.kind.toList ∧
    '\n' ∉ input.entry.kind.toList ++ '\t' :: input.entry.encoded.toList ∧
    '\r' ∉ input.entry.kind.toList ++ '\t' :: input.entry.encoded.toList := by
  have kinds := separators_ne fun c inside =>
    (kindChar_apart ((input.kind.text_plain).2 c inside)).1
  have payload := @separators_ne (Lib.Base64.encode input.bytes) fun c inside =>
    base64Char_apart (encode_base64Char inside)
  simp only [TapeInput.entry, String.toList_ofList, List.mem_append, List.mem_cons, not_or]
  exact ⟨kinds.1, ⟨kinds.2.1, by decide, payload.2.1⟩, ⟨kinds.2.2, by decide, payload.2.2⟩⟩

theorem mapM_ok {ε α β : Type} {read : α → Except ε β} {items : List α} {answers : List β}
    (success : items.mapM read = .ok answers) : ∀ item ∈ items, ∃ answer, read item = .ok answer := by
  induction items generalizing answers with
  | nil => simp
  | cons item rest ih =>
    rw [List.mapM_cons] at success
    cases first : read item with
    | error e => rw [first] at success; cases success
    | ok answer =>
      rw [first] at success
      cases later : rest.mapM read with
      | error e => rw [later] at success; cases success
      | ok others =>
        rw [List.forall_mem_cons]
        exact ⟨⟨answer, first⟩, ih later⟩

theorem mapM_map_ok {ε α β γ : Type} {read : β → Except ε γ} {line : α → β} {answer : α → γ}
    {items : List α} (each : ∀ item ∈ items, read (line item) = .ok (answer item)) :
    (items.map line).mapM read = .ok (items.map answer) := by
  induction items with
  | nil => rfl
  | cons item rest ih =>
    rw [List.forall_mem_cons] at each
    rw [List.map_cons, List.mapM_cons, each.1, ih each.2]
    rfl

def entryLine (entry : TapeEntry) : String := entry.kind ++ "\t" ++ entry.encoded

theorem tape_text (entries : List TapeEntry) (tape : String) :
    entries.foldl appendEntry tape = tape ++
      String.ofList ((entries.map entryLine).flatMap fun l => l.toList ++ ['\n']) := by
  induction entries generalizing tape with
  | nil => simp
  | cons entry rest ih =>
    rw [List.foldl_cons, ih]
    apply String.toList_inj.mp
    simp [appendEntry, entryLine]

theorem recordTape_text (inputs : List TapeInput) :
    recordTape inputs = String.ofList
      (((inputs.map TapeInput.entry).map entryLine).flatMap fun l => l.toList ++ ['\n']) := by
  rw [recordTape, tape_text]
  exact String.toList_inj.mp (by simp)

theorem entryLine_plain (input : TapeInput) :
    '\n' ∉ (entryLine input.entry).toList ∧ '\r' ∉ (entryLine input.entry).toList := by
  obtain ⟨-, newline, carriage⟩ := entry_plain input
  have chars : (entryLine input.entry).toList =
      input.entry.kind.toList ++ '\t' :: input.entry.encoded.toList := by
    simp [entryLine]
  rw [chars]
  exact ⟨newline, carriage⟩

/-- The daemon's reading of one line of the agent. -/
theorem recordedInput_entry (input : TapeInput) :
    recordedInput (entryLine input.entry) =
      if input.bytes = [] then .error invalidInputTape
      else .ok ⟨input.entry.kind, input.entry.encoded, startsWith "io." input.entry.kind⟩ := by
  have apart : splitOnce '\t' (entryLine input.entry) =
      some (input.entry.kind, input.entry.encoded) :=
    splitOnce_append (entry_plain input).1 input.entry.encoded
  have valid := validTapeEntry_iff input
  rw [recordedInput, apart]
  by_cases empty : input.bytes = []
  · simp only [empty, ne_eq, not_true, iff_false] at valid
    simp [valid, empty]
  · simp [valid.mpr empty, empty]

/-- The lines of the daemon's reading are the entries' lines. -/
theorem recordedInputs_tape (inputs : List TapeInput) :
    recordedInputs (.text (recordTape inputs)) =
      (inputs.map fun input => entryLine input.entry).mapM recordedInput := by
  have plain : ∀ l ∈ (inputs.map TapeInput.entry).map entryLine, '\n' ∉ l.toList ∧ '\r' ∉ l.toList := by
    intro l member
    simp only [List.map_map, List.mem_map, Function.comp_apply] at member
    obtain ⟨input, -, rfl⟩ := member
    exact entryLine_plain input
  have occupied : ((inputs.map TapeInput.entry).map entryLine).filter (· ≠ "") =
      inputs.map fun input => entryLine input.entry := by
    rw [List.map_map, List.filter_eq_self.mpr]
    · rfl
    · intro l member
      simp only [List.mem_map, Function.comp_apply] at member
      obtain ⟨input, -, rfl⟩ := member
      have tab : '\t' ∈ (entryLine input.entry).toList := by simp [entryLine]
      have filled : entryLine input.entry ≠ "" := by
        intro empty
        simp [empty] at tab
      simpa using filled
  rw [recordedInputs, recordTape_text, lines_ended plain, occupied]

/-- Lines that were each ended by a newline, as Java reads them. -/
theorem readAllLines_ended {ls : List (List Char)} (plain : ∀ l ∈ ls, '\n' ∉ l ∧ '\r' ∉ l) :
    readAllLines [] (ls.flatMap fun l => l ++ ['\n']) = ls := by
  have pass : ∀ (l line rest : List Char), '\n' ∉ l → '\r' ∉ l →
      readAllLines line (l ++ '\n' :: rest) = (line.reverse ++ l) :: readAllLines [] rest := by
    intro l
    induction l with
    | nil => intro line rest _ _; simp [readAllLines]
    | cons c l ih =>
      intro line rest newline carriage
      rw [List.mem_cons, not_or] at newline carriage
      rw [List.cons_append, readAllLines, ih _ _ newline.2 carriage.2]
      · simp
      · intro tail same
        exact absurd same (Ne.symm carriage.1)
      · intro same
        exact absurd same (Ne.symm carriage.1)
      · intro same
        exact absurd same (Ne.symm newline.1)
  induction ls with
  | nil => rfl
  | cons l ls ih =>
    rw [List.forall_mem_cons] at plain
    rw [List.flatMap_cons, List.append_assoc, List.singleton_append,
      pass l [] _ plain.1.1 plain.1.2, ih plain.2]
    rfl

/-- The agent reads the entries of a tape back. -/
theorem replay_tape (inputs : List TapeInput) :
    replay (recordTape inputs) = some (inputs.map TapeInput.entry) := by
  have text : (recordTape inputs).toList =
      ((inputs.map fun input => (entryLine input.entry).toList).flatMap fun l => l ++ ['\n']) := by
    rw [recordTape_text, String.toList_ofList, List.map_map, List.flatMap_map, List.flatMap_map]
    rfl
  have plain : ∀ l ∈ inputs.map fun input => (entryLine input.entry).toList,
      '\n' ∉ l ∧ '\r' ∉ l := by
    intro l member
    obtain ⟨input, -, rfl⟩ := List.mem_map.mp member
    exact entryLine_plain input
  have written : ∀ l ∈ inputs.map fun input => (entryLine input.entry).toList,
      (!isBlank l) = true := by
    intro l member
    obtain ⟨input, -, rfl⟩ := List.mem_map.mp member
    obtain ⟨named, kinds⟩ := input.kind.text_plain
    obtain ⟨c, first⟩ := List.exists_mem_of_ne_nil input.kind.text.toList
      fun empty => named (String.toList_eq_nil_iff.mp empty)
    have dark := (kindChar_apart (kinds c first)).2
    rw [Bool.not_eq_true', isBlank, List.all_eq_false]
    exact ⟨c, by simp [entryLine, TapeInput.entry, first], by simp [dark]⟩
  rw [replay, text, readAllLines_ended plain, List.filter_eq_self.mpr written]
  clear text plain written
  induction inputs with
  | nil => rfl
  | cons input rest ih =>
    have apart : replayEntry (entryLine input.entry).toList = some input.entry := by
      rw [replayEntry, String.ofList_toList]
      have split_ : splitOnce '\t' (entryLine input.entry) =
          some (input.entry.kind, input.entry.encoded) :=
        splitOnce_append (entry_plain input).1 input.entry.encoded
      rw [split_]
      rfl
    rw [List.map_cons, List.mapM_cons, apart, ih]
    rfl

/-- The calls of the recorded run get the recorded bytes. -/
theorem nextReplayed_entries (inputs : List TapeInput) :
    nextReplayed (inputs.map TapeInput.entry) (inputs.map fun input => input.kind.text) =
      some (inputs.map fun input => input.bytes) := by
  induction inputs with
  | nil => rfl
  | cons input rest ih =>
    have bytes : Lib.Base64.decode input.entry.encoded.toList = some input.bytes := by
      rw [TapeInput.entry, String.toList_ofList, Lib.Base64.decode_encode]
    have kind : input.entry.kind = input.kind.text := rfl
    rw [List.map_cons, List.map_cons, List.map_cons, nextReplayed, if_pos kind, bytes, ih]
    rfl

/-- With every payload occupied, the daemon writes the agent's text again. -/
theorem writeReplayInputs_eq {recording : Recording} {entries : List TapeEntry}
    (same : replayTapeEntries recording = entries.map fun e => (e.kind, e.encoded))
    (valid : ∀ e ∈ entries, validTapeEntry e.kind e.encoded = true) :
    writeReplayInputs recording = .ok (entries.foldl appendEntry "") := by
  have fold : ∀ (es : List TapeEntry) (tape : String),
      (∀ e ∈ es, validTapeEntry e.kind e.encoded = true) →
      (es.map fun e => (e.kind, e.encoded)).foldlM
        (fun tape entry => appendTapeEntry tape entry.1 entry.2) tape =
      .ok (es.foldl appendEntry tape) := by
    intro es
    induction es with
    | nil => intro tape _; rfl
    | cons e es ih =>
      intro tape valid
      rw [List.forall_mem_cons] at valid
      rw [List.map_cons, List.foldlM_cons, appendTapeEntry, if_pos valid.1, List.foldl_cons]
      exact ih _ valid.2
  rw [writeReplayInputs, same, fold entries "" valid]

/-- The round trip gives back what was recorded exactly when no recorded payload is
empty. -/
theorem tape_round_trips_iff (inputs : List TapeInput) :
    RoundTrips inputs ↔ ∀ input ∈ inputs, input.bytes ≠ [] := by
  constructor
  · intro ⟨recorded, accepted, _⟩ input member empty
    rw [recordedInputs_tape] at accepted
    have each := mapM_ok accepted (entryLine input.entry) (List.mem_map.mpr ⟨input, member, rfl⟩)
    obtain ⟨answer, read⟩ := each
    rw [recordedInput_entry, if_pos empty] at read
    cases read
  · intro occupied
    have accepted : recordedInputs (.text (recordTape inputs)) = .ok (inputs.map fun input =>
        ⟨input.entry.kind, input.entry.encoded, startsWith "io." input.entry.kind⟩) := by
      rw [recordedInputs_tape]
      exact mapM_map_ok fun input member => by rw [recordedInput_entry, if_neg (occupied input member)]
    refine ⟨_, accepted, ?_⟩
    intro recording held quiet
    have entries : replayTapeEntries recording =
        (inputs.map TapeInput.entry).map fun e => (e.kind, e.encoded) := by
      cases inputs with
      | nil =>
        have none_ : recording.inputs = [] := held
        have silent : (recording.events.filter fun event => event.kind = .input) = [] := by
          rw [List.filter_eq_nil_iff]
          intro event member
          simpa using quiet rfl event member
        simp [replayTapeEntries, none_, silent]
      | cons input rest =>
        rw [replayTapeEntries, held]
        simp
    refine ⟨recordTape inputs, inputs.map TapeInput.entry, ?_, replay_tape inputs, by simp,
      nextReplayed_entries inputs⟩
    refine writeReplayInputs_eq entries ?_
    intro entry member
    obtain ⟨input, here, rfl⟩ := List.mem_map.mp member
    exact (validTapeEntry_iff input).mpr (occupied input here)

/-- A read of the empty file `/empty.txt`, with the key of its path. -/
def emptyRead : TapeInput :=
  ⟨.readAllBytes [0x44, 0x74, 0x31, 0x4a, 0x53, 0x31, 0xce, 0x0d, 0x78, 0xea, 0x52, 0x3e], []⟩

/-- A test that reads an empty file: the daemon refuses the tape. -/
theorem empty_payload_refused :
    recordTape [emptyRead] = "io.file.readAllBytes.4474314a5331ce0d78ea523e\t\n" ∧
    recordedInputs (.text (recordTape [emptyRead])) = .error invalidInputTape ∧
    replay (recordTape [emptyRead]) = some [⟨"io.file.readAllBytes.4474314a5331ce0d78ea523e", ""⟩] := by
  decide +kernel

end Walaru.Agent
