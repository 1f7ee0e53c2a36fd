import Walaru.Lib.Utf8
import Walaru.Source.Agent.InputTape
import Walaru.Source.Agent.Replay
import Walaru.Source.Core.JsonText

/-!
# The schedule file

`ReplayScheduler.fromProperties` on the text of the file: a line is a category, a tab and
the UTF-8 bytes of a thread key in hexadecimal digits.
-/
namespace Walaru.Agent
open Lib.Text

/-- `HexFormat.parseHex`. -/
def parseHex : List Char → Option (List UInt8)
  | [] => some []
  | [_] => none
  | a :: b :: rest => do
    let high ← hexValue a
    let low ← hexValue b
    let bytes ← parseHex rest
    return UInt8.ofNat (16 * high + low) :: bytes

/-- `line.split("\\t", 2)` with both fields present, and the key decoded. -/
def scheduleLine (line : List Char) : Option ScheduleEntry := do
  let (category, digits) ← splitOnce '\t' (String.ofList line)
  let bytes ← parseHex digits.toList
  return ⟨category, Lib.Utf8.decodeLossy bytes⟩

/-- The entries of the file, or nothing when it is malformed. -/
def readSchedule (text : String) : Option (List ScheduleEntry) :=
  ((readAllLines [] text.toList).filter fun line => !isBlank line).mapM scheduleLine

theorem hexValue_hexDigit {n : Nat} (bound : n < 16) : hexValue (hexDigit n) = some n := by
  have table : ∀ m : Fin 16, hexValue (hexDigit m) = some m.val := by decide
  exact table ⟨n, bound⟩

theorem parseHex_hexEncode (bytes : List UInt8) : parseHex (hexEncode bytes).toList = some bytes := by
  rw [hexEncode, String.toList_ofList]
  induction bytes with
  | nil => rfl
  | cons byte bytes ih =>
    have bound := byte.toNat_lt
    have whole : 16 * (byte.toNat / 16) + byte.toNat % 16 = byte.toNat := Nat.div_add_mod _ _
    simp only [List.flatMap_cons, List.cons_append, List.nil_append, parseHex,
      hexValue_hexDigit (show byte.toNat / 16 < 16 by omega),
      hexValue_hexDigit (show byte.toNat % 16 < 16 by omega), ih, Option.bind_eq_bind,
      Option.bind_some, Option.pure_def, whole, UInt8.ofNat_toNat]

end Walaru.Agent
