import Walaru.Lib.Base64
import Walaru.Lib.TextParts
import Walaru.Source.Agent.Recorder

/-!
# The input tape as a file

`InputTape.java`: the line that a recorded input appends, and the reading of a tape
for a replay. What a program can record is the bridge methods of `AgentBridge`.
-/
namespace Walaru.Agent
open Lib.Text

/-- The kinds of the nondeterministic boundaries. -/
def boundaryKinds : List String :=
  ["time.currentTimeMillis", "time.nanoTime", "uuid.random", "random.math", "random.nextInt.bound",
    "random.nextInt", "random.nextLong", "random.nextLong.bound", "random.nextBoolean",
    "random.nextFloat", "random.nextDouble", "random.nextGaussian", "random.nextBytes",
    "time.instant", "time.localDate", "time.localDateTime"]

/-- A recorded boundary; a file boundary carries the digests of its path and charset. -/
inductive InputKind where
  | boundary (name : {name : String // name ∈ boundaryKinds})
  | readAllBytes (file : List UInt8)
  | readString (file : List UInt8)
  | readStringCharset (file charset : List UInt8)

def InputKind.text : InputKind → String
  | boundary name => name
  | readAllBytes file => "io.file.readAllBytes." ++ hexEncode file
  | readString file => "io.file.readString." ++ hexEncode file
  | readStringCharset file charset =>
    "io.file.readStringCharset." ++ hexEncode file ++ "." ++ hexEncode charset

structure TapeInput where
  kind : InputKind
  bytes : List UInt8

def TapeInput.entry (input : TapeInput) : TapeEntry :=
  ⟨input.kind.text, String.ofList (Lib.Base64.encode input.bytes)⟩

/-- `InputTape.append`. -/
def appendEntry (tape : String) (entry : TapeEntry) : String :=
  tape ++ entry.kind ++ "\t" ++ entry.encoded ++ "\n"

/-- The file after the inputs were recorded. -/
def recordTape (inputs : List TapeInput) : String :=
  (inputs.map TapeInput.entry).foldl appendEntry ""

/-- `Files.readAllLines`: a line ends at a newline, a carriage return or both; the
current line is kept backwards. -/
def readAllLines : List Char → List Char → List (List Char)
  | line, [] => if line = [] then [] else [line.reverse]
  | line, '\r' :: '\n' :: rest => line.reverse :: readAllLines [] rest
  | line, '\r' :: rest => line.reverse :: readAllLines [] rest
  | line, '\n' :: rest => line.reverse :: readAllLines [] rest
  | line, c :: rest => readAllLines (c :: line) rest

/-- Java's `Character.isWhitespace`. -/
def isJavaWhitespace (c : Char) : Bool :=
  (9 ≤ c.toNat && c.toNat ≤ 13) || (28 ≤ c.toNat && c.toNat ≤ 32) || c.toNat = 0x1680 ||
    (0x2000 ≤ c.toNat && c.toNat ≤ 0x2006) || (0x2008 ≤ c.toNat && c.toNat ≤ 0x200A) ||
    c.toNat = 0x2028 || c.toNat = 0x2029 || c.toNat = 0x205F || c.toNat = 0x3000

def isBlank (line : List Char) : Bool := line.all isJavaWhitespace

/-- `line.split("\\t", 2)` with both fields present. -/
def replayEntry (line : List Char) : Option TapeEntry :=
  (splitOnce '\t' (String.ofList line)).map fun (kind, encoded) => ⟨kind, encoded⟩

/-- `InputTape.replay`: the entries of a tape file, or nothing when it is malformed. -/
def replay (text : String) : Option (List TapeEntry) :=
  ((readAllLines [] text.toList).filter fun line => !isBlank line).mapM replayEntry

/-- What `next` and `nextBytes` answer to calls of these kinds: the decoded bytes, or
nothing when the tape ends, holds another kind or is not Base64. -/
def nextReplayed : List TapeEntry → List String → Option (List (List UInt8))
  | _, [] => some []
  | [], _ :: _ => none
  | entry :: tape, kind :: kinds =>
    if entry.kind = kind then do
      let bytes ← Lib.Base64.decode entry.encoded.toList
      let rest ← nextReplayed tape kinds
      return bytes :: rest
    else none

end Walaru.Agent
