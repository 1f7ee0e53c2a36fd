import Walaru.Source.Daemon.Request

/-!
# The private input tape and the replay schedule

The text files that the daemon writes for a replay and reads after a recording:
one `kind TAB encoded` line for each deterministic input, and one
`category TAB hex(thread key)` line for each scheduled event.
-/
namespace Walaru
open Lib.Text

def invalidInputTape : VerifierError := .io "recording contains a malformed deterministic input"

def tapeSeparator (c : Char) : Bool := c = '\t' || c = '\n' || c = '\r'

/-- A character of the Base64 alphabet or its padding. -/
def base64Char (c : Char) : Bool :=
  (c.toNat < 128 && c.isAlphanum) || c = '+' || c = '/' || c = '='

def validTapeEntry (kind encoded : String) : Bool :=
  kind ≠ "" && encoded ≠ "" && !kind.toList.any tapeSeparator && encoded.toList.all base64Char

def appendTapeEntry (tape kind encoded : String) : Except VerifierError String :=
  if validTapeEntry kind encoded then .ok (tape ++ kind ++ "\t" ++ encoded ++ "\n")
  else .error invalidInputTape

/-- The inputs that a replay reads: the recording's own, or those of its events. -/
def replayTapeEntries (recording : Recording) : List (String × String) :=
  if recording.inputs ≠ [] then recording.inputs.map fun input => (input.kind, input.encoded)
  else
    (recording.events.filter fun event => event.kind = .input).map fun event =>
      ((event.values.getStr "kind").getD "", (event.values.getStr "encoded").getD "")

/-- The text of `inputs.tape` for a replay. -/
def writeReplayInputs (recording : Recording) : Except VerifierError String :=
  (replayTapeEntries recording).foldlM (fun tape entry => appendTapeEntry tape entry.1 entry.2) ""

/-- What `inputs.tape` holds after a run. -/
inductive InputFile where
  | missing
  | unreadable (message : String)
  | text (contents : String)
  deriving DecidableEq, Repr

def recordedInput (line : String) : Except VerifierError RecordedInput :=
  match splitOnce '\t' line with
  | none => .error invalidInputTape
  | some (kind, encoded) =>
    if validTapeEntry kind encoded then .ok ⟨kind, encoded, startsWith "io." kind⟩
    else .error invalidInputTape

def recordedInputs : InputFile → Except VerifierError (List RecordedInput)
  | .missing => .ok []
  | .unreadable message => .error (.io message)
  | .text contents => ((lines contents).filter (· ≠ "")).mapM recordedInput

def scheduleCategory : EventKind → String
  | .testStart => "TEST_START"
  | .line => "LINE"
  | .call => "CALL"
  | .write => "WRITE"
  | .read => "READ"
  | .monitor => "MONITOR"
  | .testFinish => "TEST_FINISH"
  | .output => "OUTPUT"
  | .input => "INPUT"
  | .checkpoint => "CHECKPOINT"
  | .capture => "CAPTURE"
  | .note => "NOTE"
  | .spanStart => "SPAN_START"
  | .spanValue => "SPAN_VALUE"
  | .spanEnd => "SPAN_END"

/-- The text of `schedule.tape`; it is used only when it is not empty. -/
def writeReplaySchedule (recording : Recording) : String :=
  (recording.events.filter fun event => event.threadKey ≠ "").foldl
    (fun schedule event => schedule ++ scheduleCategory event.kind ++ "\t" ++
      hexEncode (utf8 event.threadKey) ++ "\n") ""

/-- Checkpoints at the first, every 256th and the last event. -/
def replayCheckpoints (events : List Event) : List ReplayCheckpoint :=
  ((events.zipIdx).filter fun item =>
    item.2 = 0 || item.2 % 256 = 0 || item.2 + 1 = events.length).map fun item =>
      ⟨item.1.sequence, item.1.id, item.1.stateHash, item.1.outputIndex⟩

end Walaru
