import Walaru.Lib.Sha256
import Walaru.Lib.Utf8
import Walaru.Source.Agent.InputTape

/-!
# File reads under the bridge

`AgentBridge.fileReadAllBytes` and `fileReadString` with the tape of `InputTape.java`, beside
the methods of `Files` that they stand for. A path is what its absolute and normalised form
shows, and an entry is written to the tape without a failure.
-/
namespace Walaru.Agent
open Lib.Text

def maxCapturedFileBytes : Nat := 1024 * 1024

inductive ReadFailure where
  | io (exception : String)
  | malformedInput
  | tapeEnded
  | tapeMismatch
  | malformedEncoding
  deriving DecidableEq, Repr

/-- A charset: the decoder of `Files.readString` reports malformed input, the one of
`new String` replaces it. -/
structure Charset where
  name : String
  decode : List UInt8 → Option String
  replace : List UInt8 → String
  replace_of_decode : ∀ bytes text, decode bytes = some text → replace bytes = text

/-- Well-formed UTF-8 is what its characters are encoded as. -/
def Charset.utf8 : Charset where
  name := "UTF-8"
  decode bytes :=
    let text := Lib.Utf8.decodeLossy bytes
    if Lib.Text.utf8 text = bytes then some text else none
  replace := Lib.Utf8.decodeLossy
  replace_of_decode := by
    intro bytes text decoded
    exact Option.some.inj (Option.ite_none_right_eq_some.mp decoded).2

/-- A call of a method of `Files` that the instrumenter rewrites. -/
inductive FileRead where
  | readAllBytes (path : String)
  | readString (path : String)
  | readStringCharset (path : String) (charset : Charset)

inductive ReadValue where
  | bytes (value : List UInt8)
  | text (value : String)
  deriving DecidableEq, Repr

def FileRead.charset : FileRead → Option Charset
  | readAllBytes _ => none
  | readString _ => some .utf8
  | readStringCharset _ charset => some charset

/-- The method of `Files`, on a file with this content. -/
def FileRead.files (read : FileRead) (content : Except String (List UInt8)) : Except ReadFailure ReadValue :=
  match content with
  | .error exception => .error (.io exception)
  | .ok bytes =>
    match read.charset with
    | none => .ok (.bytes bytes)
    | some charset =>
      match charset.decode bytes with
      | none => .error .malformedInput
      | some text => .ok (.text text)

inductive TapeMode where
  | disabled | record | replay
  deriving DecidableEq, Repr

/-- An `INPUT` event: the value of an input, or only the number of bytes of a file. -/
inductive ObservedInput where
  | value (kind : String) (value : List UInt8)
  | sensitive (kind : String) (byteCount : Nat)
  deriving DecidableEq, Repr

structure InputTape where
  mode : TapeMode
  /-- The file of the record mode. -/
  text : String
  replay : List TapeEntry
  cursor : Nat
  /-- The `io` capability was reported missing. -/
  missing : Bool
  observed : List ObservedInput
  deriving DecidableEq, Repr

def InputTape.recording : InputTape := ⟨.record, "", [], 0, false, []⟩

def InputTape.replaying (entries : List TapeEntry) : InputTape := ⟨.replay, "", entries, 0, false, []⟩

/-- The next entry of a replay, which has to be of the kind that is asked for. -/
def InputTape.take (tape : InputTape) (kind : String) : Except ReadFailure String × InputTape :=
  match tape.replay[tape.cursor]? with
  | none => (.error .tapeEnded, tape)
  | some entry =>
    (if entry.kind = kind then .ok entry.encoded else .error .tapeMismatch,
      { tape with cursor := tape.cursor + 1 })

def InputTape.append (tape : InputTape) (kind encoded : String) : InputTape :=
  if tape.mode = .record then { tape with text := appendEntry tape.text ⟨kind, encoded⟩ } else tape

def decodeBytes (encoded : String) : Except ReadFailure (List UInt8) :=
  match Lib.Base64.decode encoded.toList with
  | none => .error .malformedEncoding
  | some value => .ok value

def InputTape.observe (tape : InputTape) (event : List UInt8 → ObservedInput)
    (result : Except ReadFailure (List UInt8)) : InputTape :=
  match result with
  | .error _ => tape
  | .ok value => { tape with observed := tape.observed ++ [event value] }

/-- `InputTape.next`, on the bytes of the text. -/
def InputTape.next (tape : InputTape) (kind : String) (actual : List UInt8) :
    Except ReadFailure (List UInt8) × InputTape :=
  let encoded := String.ofList (Lib.Base64.encode actual)
  let taken := if tape.mode = .replay then tape.take kind else (.ok encoded, tape.append kind encoded)
  let result := taken.1.bind decodeBytes
  (result, taken.2.observe (.value kind) result)

def InputTape.nextBytes (tape : InputTape) (kind : String) (actual : Except String (List UInt8))
    (maxBytes : Nat) : Except ReadFailure (List UInt8) × InputTape :=
  if tape.mode = .replay then
    let taken := tape.take kind
    let result := taken.1.bind decodeBytes
    (result, taken.2.observe (fun value => .sensitive kind value.length) result)
  else
    match actual with
    | .error exception => (.error (.io exception), tape)
    | .ok value =>
      if maxBytes < value.length then (.ok value, { tape with missing := true })
      else
        let encoded := String.ofList (Lib.Base64.encode value)
        let result := decodeBytes encoded
        (result, (tape.append kind encoded).observe (fun value => .sensitive kind value.length) result)

def shortDigest (value : String) : List UInt8 := (Lib.Sha256.sha256 (utf8 value)).take 12

def fileKey (path : String) : List UInt8 := shortDigest (replaceChar '\\' '/' path)

def FileRead.kind : FileRead → InputKind
  | readAllBytes path => .readAllBytes (fileKey path)
  | readString path => .readString (fileKey path)
  | readStringCharset path charset => .readStringCharset (fileKey path) (shortDigest charset.name)

/-- What a read makes of the bytes. -/
def FileRead.value (read : FileRead) (bytes : List UInt8) : ReadValue :=
  match read.charset with
  | none => .bytes bytes
  | some charset => .text (charset.replace bytes)

/-- The bridge method of a read; outside a test it is the method of `Files`. -/
def FileRead.bridge (read : FileRead) (inTest : Bool) (content : Except String (List UInt8))
    (tape : InputTape) : Except ReadFailure ReadValue × InputTape :=
  if !inTest then (read.files content, tape)
  else
    let read_ := tape.nextBytes read.kind.text content maxCapturedFileBytes
    (read_.1.map read.value, read_.2)

def fileReadAllBytes (path : String) := (FileRead.readAllBytes path).bridge

def fileReadString (path : String) := (FileRead.readString path).bridge

def fileReadStringCharset (path : String) (charset : Charset) :=
  (FileRead.readStringCharset path charset).bridge

/-- A call of a test that goes to the tape: a read of a file with what is in it then, or another
input with its bytes. -/
inductive TapeCall where
  | file (read : FileRead) (content : Except String (List UInt8))
  | input (name : {name : String // name ∈ boundaryKinds}) (actual : List UInt8)

def TapeCall.perform (call : TapeCall) (tape : InputTape) : Except ReadFailure ReadValue × InputTape :=
  match call with
  | file (.readAllBytes path) content => fileReadAllBytes path true content tape
  | file (.readString path) content => fileReadString path true content tape
  | file (.readStringCharset path charset) content => fileReadStringCharset path charset true content tape
  | input name actual => ((tape.next name actual).1.map .bytes, (tape.next name actual).2)

/-- The results of the calls of a run, and the tape behind them. -/
def performAll : List TapeCall → InputTape → List (Except ReadFailure ReadValue) × InputTape
  | [], tape => ([], tape)
  | call :: calls, tape =>
    let performed := call.perform tape
    let rest := performAll calls performed.2
    (performed.1 :: rest.1, rest.2)

end Walaru.Agent
