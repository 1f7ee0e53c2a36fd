import Walaru.Guarantees.CapabilityHonesty
import Walaru.Guarantees.TapeRoundTrip
import Walaru.Source.Agent.FileReads

/-!
# File reads keep their meaning

What the bridge answers to a read is what `Files` answers when no charset meets malformed
bytes. A read that fails, or whose file is too large, leaves no entry on the tape and no
`INPUT` event beside its `CALL`, so a run with one is not complete; a replay of a complete
run answers every read as the run did.
-/
namespace Walaru.Agent
open Lib.Text

/-- The input that a call leaves on a tape. -/
def TapeCall.recorded : TapeCall → Option TapeInput
  | file read (.ok bytes) => if maxCapturedFileBytes < bytes.length then none else some ⟨read.kind, bytes⟩
  | file _ (.error _) => none
  | input name actual => some ⟨.boundary name, actual⟩

def TapeCall.recordResult : TapeCall → Except ReadFailure ReadValue
  | file read (.ok bytes) => .ok (read.value bytes)
  | file _ (.error exception) => .error (.io exception)
  | input _ actual => .ok (.bytes actual)

/-- The event of a recorded input. -/
def TapeInput.shown (input : TapeInput) : ObservedInput :=
  match input.kind with
  | .boundary name => .value name input.bytes
  | kind => .sensitive kind.text input.bytes.length

theorem perform_file (read : FileRead) (content : Except String (List UInt8)) (tape : InputTape) :
    (TapeCall.file read content).perform tape = read.bridge true content tape := by
  cases read <;> rfl

/-- A tape in record mode that holds these inputs. -/
structure Records (inputs : List TapeInput) (tape : InputTape) : Prop where
  mode : tape.mode = .record
  text : tape.text = recordTape inputs
  observed : tape.observed = inputs.map TapeInput.shown

theorem recordTape_concat (inputs : List TapeInput) (input : TapeInput) :
    recordTape (inputs ++ [input]) = appendEntry (recordTape inputs) input.entry := by
  unfold recordTape
  rw [List.map_append, List.foldl_append]
  rfl

theorem decodeBytes_encode (bytes : List UInt8) :
    decodeBytes (String.ofList (Lib.Base64.encode bytes)) = .ok bytes := by
  unfold decodeBytes
  rw [String.toList_ofList, Lib.Base64.decode_encode]

/-- The tape behind an input that was appended and observed. -/
theorem Records.push {inputs : List TapeInput} {tape : InputTape} (records : Records inputs tape)
    (input : TapeInput) (event : List UInt8 → ObservedInput)
    (shown : event input.bytes = input.shown) :
    Records (inputs ++ [input])
      ((tape.append input.kind.text (String.ofList (Lib.Base64.encode input.bytes))).observe event
        (.ok input.bytes)) := by
  have text : appendEntry tape.text input.entry = recordTape (inputs ++ [input]) := by
    rw [records.text, recordTape_concat]
  have observed : tape.observed ++ [event input.bytes] = (inputs ++ [input]).map TapeInput.shown := by
    rw [records.observed, shown, List.map_append, List.map_singleton]
  unfold InputTape.append
  rw [if_pos records.mode]
  exact ⟨records.mode, text, observed⟩

theorem FileRead.shown (read : FileRead) (bytes : List UInt8) :
    TapeInput.shown ⟨read.kind, bytes⟩ = .sensitive read.kind.text bytes.length := by
  cases read <;> rfl

theorem perform_record {inputs : List TapeInput} {tape : InputTape} (records : Records inputs tape)
    (call : TapeCall) :
    (call.perform tape).1 = call.recordResult ∧
      Records (inputs ++ call.recorded.toList) (call.perform tape).2 := by
  have recording : ¬tape.mode = .replay := by
    rw [records.mode]
    decide
  cases call with
  | input name actual =>
    unfold TapeCall.perform InputTape.next
    dsimp only
    rw [if_neg recording]
    dsimp only [Except.bind]
    rw [decodeBytes_encode]
    exact ⟨rfl, records.push ⟨.boundary name, actual⟩ (.value name) rfl⟩
  | file read content =>
    rw [perform_file]
    unfold FileRead.bridge InputTape.nextBytes
    rw [if_neg (show ¬(!true) = true by decide), if_neg recording]
    cases content with
    | error exception =>
      have unrecorded : (TapeCall.file read (.error exception)).recorded = none := rfl
      rw [unrecorded, Option.toList_none, List.append_nil]
      exact ⟨rfl, records⟩
    | ok bytes =>
      simp only [TapeCall.recordResult, TapeCall.recorded]
      by_cases large : maxCapturedFileBytes < bytes.length
      · rw [if_pos large, if_pos large, Option.toList_none, List.append_nil]
        exact ⟨rfl, records.mode, records.text, records.observed⟩
      · rw [if_neg large, if_neg large, Option.toList_some, decodeBytes_encode]
        exact ⟨rfl, records.push ⟨read.kind, bytes⟩
          (fun value => .sensitive read.kind.text value.length) (read.shown bytes).symm⟩

theorem performAll_record {inputs : List TapeInput} {tape : InputTape} (records : Records inputs tape)
    (calls : List TapeCall) :
    (performAll calls tape).1 = calls.map TapeCall.recordResult ∧
      Records (inputs ++ calls.filterMap TapeCall.recorded) (performAll calls tape).2 := by
  induction calls generalizing inputs tape with
  | nil =>
    rw [List.filterMap_nil, List.append_nil]
    exact ⟨rfl, records⟩
  | cons call calls ih =>
    obtain ⟨result, next⟩ := perform_record records call
    obtain ⟨results, final⟩ := ih next
    have inputs_ : call.recorded.toList ++ calls.filterMap TapeCall.recorded =
        (call :: calls).filterMap TapeCall.recorded := by
      cases recorded : call.recorded with
      | none => rw [List.filterMap_cons_none recorded, Option.toList_none, List.nil_append]
      | some input =>
        rw [List.filterMap_cons_some recorded, Option.toList_some, List.singleton_append]
    rw [List.append_assoc, inputs_] at final
    refine ⟨?_, final⟩
    change (call.perform tape).1 :: (performAll calls (call.perform tape).2).1 = _
    rw [result, results, List.map_cons]

theorem records_start : Records [] .recording := ⟨rfl, rfl, rfl⟩

/-- What a replay reads from the entry that a call takes. -/
def readEntry (entry : Option TapeEntry) (kind : String) : Except ReadFailure (List UInt8) :=
  match entry with
  | none => .error .tapeEnded
  | some entry => if entry.kind = kind then decodeBytes entry.encoded else .error .tapeMismatch

def TapeCall.replayResult (entry : Option TapeEntry) : TapeCall → Except ReadFailure ReadValue
  | file read _ => (readEntry entry read.kind.text).map read.value
  | input name _ => (readEntry entry name).map .bytes

/-- A tape in replay mode before these entries. -/
structure Replays (rest : List TapeEntry) (tape : InputTape) : Prop where
  mode : tape.mode = .replay
  rest : tape.replay.drop tape.cursor = rest

theorem Replays.take {rest : List TapeEntry} {tape : InputTape} (replays : Replays rest tape)
    (kind : String) :
    (tape.take kind).1.bind decodeBytes = readEntry rest.head? kind ∧ Replays rest.tail (tape.take kind).2 := by
  have head : tape.replay[tape.cursor]? = rest.head? := by
    rw [← replays.rest, List.head?_drop]
  have tail : tape.replay.drop (tape.cursor + 1) = rest.tail := by
    rw [← replays.rest, List.tail_drop]
  unfold InputTape.take
  rw [head]
  cases rest with
  | nil => exact ⟨rfl, replays.mode, replays.rest⟩
  | cons entry rest =>
    refine ⟨?_, replays.mode, tail⟩
    change (if entry.kind = kind then Except.ok entry.encoded else .error .tapeMismatch).bind decodeBytes =
      if entry.kind = kind then decodeBytes entry.encoded else .error .tapeMismatch
    split <;> rfl

theorem Replays.observe {rest : List TapeEntry} {tape : InputTape} (replays : Replays rest tape)
    (event : List UInt8 → ObservedInput) (result : Except ReadFailure (List UInt8)) :
    Replays rest (tape.observe event result) := by
  cases result with
  | error failure => exact replays
  | ok value => exact ⟨replays.mode, replays.rest⟩

theorem perform_replay {rest : List TapeEntry} {tape : InputTape} (replays : Replays rest tape)
    (call : TapeCall) :
    (call.perform tape).1 = call.replayResult rest.head? ∧ Replays rest.tail (call.perform tape).2 := by
  cases call with
  | input name actual =>
    obtain ⟨result, next⟩ := replays.take name
    unfold TapeCall.perform InputTape.next
    dsimp only
    rw [if_pos replays.mode, result]
    exact ⟨rfl, next.observe _ _⟩
  | file read content =>
    obtain ⟨result, next⟩ := replays.take read.kind.text
    rw [perform_file]
    unfold FileRead.bridge InputTape.nextBytes
    rw [if_neg (show ¬(!true) = true by decide), if_pos replays.mode]
    dsimp only
    rw [result]
    exact ⟨rfl, next.observe _ _⟩

theorem performAll_replay {rest : List TapeEntry} {tape : InputTape} (replays : Replays rest tape)
    (calls : List TapeCall) (i : Nat) :
    (performAll calls tape).1[i]? = calls[i]?.map (TapeCall.replayResult rest[i]?) := by
  induction calls generalizing rest tape i with
  | nil => rfl
  | cons call calls ih =>
    obtain ⟨result, next⟩ := perform_replay replays call
    change ((call.perform tape).1 :: (performAll calls (call.perform tape).2).1)[i]? = _
    cases i with
    | zero =>
      rw [List.getElem?_cons_zero, List.getElem?_cons_zero, result, ← List.head?_eq_getElem?]
      rfl
    | succ i =>
      rw [List.getElem?_cons_succ, List.getElem?_cons_succ, ih next i, List.getElem?_tail]

def FileRead.method : FileRead → String
  | readAllBytes _ => "readAllBytes"
  | readString _ | readStringCharset _ _ => "readString"

def ObservedInput.kind : ObservedInput → String
  | value kind _ | sensitive kind _ => kind

/-- The `CALL` event in front of a read. -/
structure Announces (read : FileRead) (raw : Json) : Prop where
  kind : kindName raw = "CALL"
  owner : raw.getStr "targetOwner" = some "java/nio/file/Files"
  method : raw.getStr "targetMethod" = some read.method

/-- The `INPUT` event of an observed input. -/
structure Reports (input : ObservedInput) (raw : Json) : Prop where
  kind : kindName raw = "INPUT"
  input : valueStr "kind" raw = some input.kind

def TapeCall.read? : TapeCall → Option FileRead
  | file read _ => some read
  | input _ _ => none

/-- A stream of the run that makes these calls. In some order it has a `CALL` for each read, an
`INPUT` for each input that the tape observed, and events of other kinds; a read of an oversized
file reports among them that `io` is missing. -/
structure RunStream (calls : List TapeCall) where
  raws : List Json
  announced : List Json
  inputs : List Json
  others : List Json
  whole : raws.Perm (announced ++ (inputs ++ others))
  announces : List.Forall₂ Announces (calls.filterMap TapeCall.read?) announced
  reports : List.Forall₂ Reports (performAll calls .recording).2.observed inputs
  silent : ∀ raw ∈ others, kindName raw ≠ "INPUT"
  missing : (performAll calls .recording).2.missing = true →
    ∃ raw ∈ others, capabilityLost raw ∧ capabilityName raw = "io"

/-- The daemon takes the run of this stream for complete. -/
def RunStream.Complete {calls : List TapeCall} (run : RunStream calls) (ctx : IngestContext) : Prop :=
  (evidence ctx (.lines (run.raws.map .event))).capabilities.completeness = .complete

/-- The same call, whatever its file holds by then. -/
def TapeCall.Repeats : TapeCall → TapeCall → Prop
  | file read _, file again _ => again = read
  | input name _, input again _ => again = name
  | _, _ => False

/-- Every read is answered as `Files` answers it, and where the recording is complete a replay of
its tape answers each read as the recording did, whatever the files hold by then. -/
structure ReadsKept (calls : List TapeCall) : Prop where
  recorded : ∀ (i : Nat) (read : FileRead) (content : Except String (List UInt8)),
    calls[i]? = some (.file read content) →
      (performAll calls .recording).1[i]? = some (read.files content)
  replayed : ∀ (ctx : IngestContext) (run : RunStream calls), run.Complete ctx →
    ∃ entries, replay (performAll calls .recording).2.text = some entries ∧
      ∀ again, List.Forall₂ TapeCall.Repeats calls again →
        ∀ (i : Nat) (read : FileRead) (content : Except String (List UInt8)),
          calls[i]? = some (.file read content) →
            (performAll again (.replaying entries)).1[i]? = (performAll calls .recording).1[i]?

def WellFormedReads (calls : List TapeCall) : Prop :=
  ∀ read bytes charset, TapeCall.file read (.ok bytes) ∈ calls → read.charset = some charset →
    (charset.decode bytes).isSome = true

theorem recordResult_files (read : FileRead) (content : Except String (List UInt8)) :
    (TapeCall.file read content).recordResult = read.files content ↔
      ∀ bytes charset, content = .ok bytes → read.charset = some charset →
        (charset.decode bytes).isSome = true := by
  cases content with
  | error exception =>
    refine iff_of_true rfl ?_
    rintro bytes charset ⟨⟩
  | ok bytes =>
    unfold FileRead.files
    simp only [TapeCall.recordResult, FileRead.value]
    cases read.charset with
    | none =>
      refine iff_of_true rfl ?_
      rintro bytes charset - ⟨⟩
    | some charset =>
      dsimp only
      cases decoded : charset.decode bytes with
      | none =>
        refine iff_of_false nofun fun formed => ?_
        have some_ := formed bytes charset rfl rfl
        rw [decoded] at some_
        cases some_
      | some text =>
        rw [charset.replace_of_decode bytes text decoded]
        refine iff_of_true rfl ?_
        rintro bytes' charset' ⟨⟩ ⟨⟩
        rw [decoded]
        rfl

theorem recorded_iff (calls : List TapeCall) :
    (∀ (i : Nat) (read : FileRead) (content : Except String (List UInt8)),
      calls[i]? = some (.file read content) →
        (performAll calls .recording).1[i]? = some (read.files content)) ↔ WellFormedReads calls := by
  rw [(performAll_record records_start calls).1]
  constructor
  · intro kept read bytes charset inside own
    obtain ⟨i, here⟩ := List.mem_iff_getElem?.mp inside
    have same := kept i _ _ here
    rw [List.getElem?_map, here, Option.map_some, Option.some_inj] at same
    exact (recordResult_files read (.ok bytes)).mp same bytes charset rfl own
  · intro formed i read content here
    rw [List.getElem?_map, here, Option.map_some, Option.some_inj, recordResult_files]
    rintro bytes charset rfl own
    exact formed read bytes charset (List.mem_of_getElem? here) own

/-- A read takes its own entry when every call before it left one. -/
theorem replayResult_own {calls : List TapeCall} {i : Nat} {read : FileRead} {bytes : List UInt8}
    (here : calls[i]? = some (.file read (.ok bytes))) (small : bytes.length ≤ maxCapturedFileBytes)
    (left : ∀ call ∈ calls.take i, call.recorded.isSome = true) :
    (TapeCall.file read (.ok bytes)).replayResult
      ((calls.filterMap TapeCall.recorded).map TapeInput.entry)[i]? = .ok (read.value bytes) := by
  obtain ⟨inside, own⟩ := List.getElem?_eq_some_iff.mp here
  have split : calls = calls.take i ++ .file read (.ok bytes) :: calls.drop (i + 1) := by
    rw [← own, ← List.drop_eq_getElem_cons inside, List.take_append_drop]
  have recorded : (TapeCall.file read (.ok bytes)).recorded = some ⟨read.kind, bytes⟩ := by
    unfold TapeCall.recorded
    dsimp only
    rw [if_neg (by omega)]
  have size : ((calls.take i).filterMap TapeCall.recorded).length = i := by
    rw [List.filterMap_length_eq_length.mpr left, List.length_take]
    omega
  have entry : ((calls.filterMap TapeCall.recorded).map TapeInput.entry)[i]? =
      some (TapeInput.entry ⟨read.kind, bytes⟩) := by
    rw [split, List.filterMap_append, List.filterMap_cons_some recorded, List.getElem?_map,
      List.getElem?_append_right (by rw [size]), size, Nat.sub_self]
    rfl
  rw [entry]
  unfold TapeCall.replayResult readEntry TapeInput.entry
  dsimp only
  rw [if_pos rfl, decodeBytes_encode]
  rfl

section Complete

variable {calls : List TapeCall} {ctx : IngestContext}

def TapeInput.ofFile (input : TapeInput) : Bool :=
  match input.kind with
  | .boundary _ => false
  | _ => true

theorem boundary_not_file (name : {name : String // name ∈ boundaryKinds}) :
    startsWith "io.file." name = false := by
  have table : (boundaryKinds.all fun name => !startsWith "io.file." name) = true := by decide
  simpa using List.all_eq_true.mp table name name.2

/-- At most the reads that left an entry have an `INPUT` event of a file. -/
theorem countP_reports {inputs : List TapeInput} {raws : List Json}
    (reports : List.Forall₂ Reports (inputs.map TapeInput.shown) raws) :
    raws.countP fileReadInput ≤ inputs.countP TapeInput.ofFile := by
  rw [List.forall₂_map_left_iff] at reports
  induction reports with
  | nil => exact Nat.le_refl 0
  | @cons input raw inputs raws report _ ih =>
    rw [List.countP_cons, List.countP_cons]
    have own : fileReadInput raw = true → input.ofFile = true := by
      intro file
      simp only [fileReadInput, fileInput, report.input, Option.any_some, Bool.and_eq_true] at file
      cases shape : input.kind with
      | boundary name =>
        have kind : input.shown.kind = name := by simp [TapeInput.shown, shape, ObservedInput.kind]
        rw [kind, boundary_not_file] at file
        cases file.2
      | _ => simp [TapeInput.ofFile, shape]
    by_cases file : fileReadInput raw = true
    · rw [if_pos file, if_pos (own file)]
      omega
    · rw [if_neg file]
      omega

theorem countP_announced {reads : List FileRead} {raws : List Json}
    (announces : List.Forall₂ Announces reads raws) : raws.countP fileReadCall = reads.length := by
  induction announces with
  | nil => rfl
  | @cons read raw reads raws announce _ ih =>
    have own : fileReadCall raw = true := by
      cases read <;>
        simp [fileReadCall, supportedFileIoBoundary, announce.kind, announce.owner, announce.method,
          FileRead.method]
    rw [List.countP_cons_of_pos own, ih, List.length_cons]

/-- The `INPUT` events of files are those of the recorded reads, and every read has a `CALL`. -/
theorem RunStream.counts (run : RunStream calls) :
    run.raws.countP fileReadInput ≤ (calls.filterMap TapeCall.recorded).countP TapeInput.ofFile ∧
      (calls.filterMap TapeCall.read?).length ≤ run.raws.countP fileReadCall := by
  have announced := countP_announced run.announces
  have reports := run.reports
  rw [(performAll_record records_start calls).2.observed, List.nil_append] at reports
  have inputs := countP_reports reports
  have called : run.announced.countP fileReadInput = 0 := by
    rw [List.countP_eq_zero]
    intro raw member input
    have call := List.countP_eq_length.mp (announced.trans run.announces.length_eq) raw member
    simp only [fileReadInput, fileReadCall, Bool.and_eq_true, decide_eq_true_eq] at input call
    rw [input.1] at call
    exact absurd call.1 (by decide)
  have others : run.others.countP fileReadInput = 0 := by
    rw [List.countP_eq_zero]
    intro raw member input
    simp only [fileReadInput, Bool.and_eq_true, decide_eq_true_eq] at input
    exact run.silent raw member input.1
  constructor
  · rw [run.whole.countP_eq, List.countP_append, List.countP_append, called, others]
    omega
  · rw [run.whole.countP_eq, List.countP_append, announced]
    omega

/-- Where the inputs of files are as many as the reads, every call left an entry. -/
theorem recorded_of_counts (enough : (calls.filterMap TapeCall.read?).length ≤
    (calls.filterMap TapeCall.recorded).countP TapeInput.ofFile) :
    ∀ call ∈ calls, call.recorded.isSome = true := by
  rw [List.length_filterMap_eq_countP, List.countP_filterMap, List.countP_eq_length_filter,
    List.countP_eq_length_filter] at enough
  have within := List.monotone_filter_right calls
    (p := fun call => ((call.recorded).map TapeInput.ofFile).getD false)
    (q := fun call => call.read?.isSome) (by
      intro call recorded
      cases call with
      | file read content => rfl
      | input name actual => cases recorded)
  have same := within.eq_of_length_le enough
  intro call member
  cases call with
  | input name actual => rfl
  | file read content =>
    have kept : TapeCall.file read content ∈
        calls.filter fun call => ((call.recorded).map TapeInput.ofFile).getD false := by
      rw [same]
      exact List.mem_filter.mpr ⟨member, rfl⟩
    have shown := (List.mem_filter.mp kept).2
    cases recorded : (TapeCall.file read content).recorded with
    | none => simp [recorded] at shown
    | some _ => rfl

/-- In a complete run no read failed and none met an oversized file. -/
theorem RunStream.all_recorded (run : RunStream calls) (complete : run.Complete ctx) :
    ∀ call ∈ calls, call.recorded.isSome = true := by
  have raws : (EventFile.lines (run.raws.map .event)).raws = run.raws := by
    simp [EventFile.raws, List.filterMap_map, Function.comp_def, StreamLine.raw?]
  obtain ⟨inputs, reads⟩ := run.counts
  apply recorded_of_counts
  by_cases unread : run.raws.countP fileReadCall = 0
  · omega
  -- a read has a `CALL`, so the inputs of files are as many as the calls
  · obtain ⟨raw, present, called⟩ := List.countP_pos_iff.mp (Nat.pos_of_ne_zero unread)
    have settled := settled_of_complete complete
    have crossed : crosses "io" raw := by
      simp only [fileReadCall, Bool.and_eq_true, decide_eq_true_eq] at called
      exact crosses_io called.1 (ioBoundary_of_supported called.2)
    have equal := (settled.reads (raws.symm ▸ present) crossed).1
    rw [raws] at equal
    omega

/-- A test that reads one file. -/
def oneRead : List TapeCall := [.file (.readString "/data.txt") (.ok [0x61])]

def oneReadRun : RunStream oneRead :=
  let call := rawEvent "CALL" "demo.AppTest#load"
    [("targetOwner", .string "java/nio/file/Files"), ("targetMethod", .string "readString")]
  let input := rawEvent "INPUT" "demo.AppTest#load"
    [("values", .object [("kind", .string (FileRead.readString "/data.txt").kind.text)])]
  { raws := [rawStart "demo.AppTest#load", call, input, rawFinish "demo.AppTest#load" "successful"]
    announced := [call]
    inputs := [input]
    others := [rawStart "demo.AppTest#load", rawFinish "demo.AppTest#load" "successful"]
    whole := (List.Perm.swap _ _ _).trans ((List.Perm.swap _ _ _).cons _)
    announces := .cons ⟨rfl, rfl, rfl⟩ .nil
    reports := .cons ⟨rfl, rfl⟩ .nil
    silent := by decide
    missing := by decide +kernel }

example : oneReadRun.Complete demoContext := by
  unfold RunStream.Complete
  decide +kernel

end Complete

/-- A read that left an entry found a file that was not too large. -/
theorem content_of_recorded {read : FileRead} {content : Except String (List UInt8)}
    (recorded : (TapeCall.file read content).recorded.isSome = true) :
    ∃ bytes, bytes.length ≤ maxCapturedFileBytes ∧ content = .ok bytes := by
  cases content with
  | error exception => cases recorded
  | ok bytes =>
    refine ⟨bytes, ?_, rfl⟩
    unfold TapeCall.recorded at recorded
    by_contra large
    simp [show maxCapturedFileBytes < bytes.length by omega] at recorded

/-- A read is repeated by one of the same file. -/
theorem repeated_file {calls again : List TapeCall}
    (repeats : List.Forall₂ TapeCall.Repeats calls again) {i : Nat} {read : FileRead}
    {content : Except String (List UInt8)} (here : calls[i]? = some (.file read content)) :
    ∃ content', again[i]? = some (.file read content') := by
  obtain ⟨inside, own⟩ := List.getElem?_eq_some_iff.mp here
  have inside' : i < again.length := by
    rw [← repeats.length_eq]
    exact inside
  have repeated := repeats.get inside inside'
  have own' : calls.get ⟨i, inside⟩ = TapeCall.file read content := own
  rw [own'] at repeated
  rw [List.getElem?_eq_getElem inside']
  cases shape : again.get ⟨i, inside'⟩ with
  | input name actual =>
    rw [shape] at repeated
    exact repeated.elim
  | file other content' =>
    rw [shape] at repeated
    obtain rfl : other = read := repeated
    exact ⟨content', congrArg some shape⟩

/-- Where every call left an entry, a replay answers each read from its own. -/
theorem replayed_of_recorded {calls : List TapeCall}
    (left : ∀ call ∈ calls, call.recorded.isSome = true) :
    ∃ entries, replay (performAll calls .recording).2.text = some entries ∧
      ∀ again, List.Forall₂ TapeCall.Repeats calls again →
        ∀ (i : Nat) (read : FileRead) (content : Except String (List UInt8)),
          calls[i]? = some (.file read content) →
            (performAll again (.replaying entries)).1[i]? = (performAll calls .recording).1[i]? := by
  obtain ⟨results, tape⟩ := performAll_record records_start calls
  rw [List.nil_append] at tape
  rw [tape.text, replay_tape, results]
  refine ⟨_, rfl, fun again repeats i read content here => ?_⟩
  obtain ⟨bytes, small, rfl⟩ := content_of_recorded (left _ (List.mem_of_getElem? here))
  obtain ⟨content', there⟩ := repeated_file repeats here
  rw [performAll_replay (⟨rfl, rfl⟩ : Replays _ (.replaying _)), there, List.getElem?_map, here,
    Option.map_some, Option.map_some]
  exact congrArg some (replayResult_own here small
    fun call before => left call (List.mem_of_mem_take before))

/-- Reads keep their meaning exactly when no charset meets malformed bytes. -/
theorem reads_kept_iff (calls : List TapeCall) : ReadsKept calls ↔ WellFormedReads calls := by
  rw [← recorded_iff]
  constructor
  · exact fun kept => kept.recorded
  · intro recorded
    refine ⟨recorded, fun ctx run complete => ?_⟩
    exact replayed_of_recorded (run.all_recorded complete)

/-- A byte that is no UTF-8: `Files.readString` throws, the bridge returns a replacement character. -/
theorem malformed_read_returns :
    (FileRead.readString "/data.txt").files (.ok [0xFF]) = .error .malformedInput ∧
      (fileReadString "/data.txt" true (.ok [0xFF]) .recording).1 = .ok (.text "\uFFFD") := by
  refine ⟨by decide +kernel, by decide +kernel⟩

end Walaru.Agent
