import Walaru.Source.Agent.EventText
import Walaru.Source.Agent.NumberText
import Walaru.Source.Core.JsonTextRead

/-!
# The daemon's reading of written values

Every written value is read as the same tree, as long as its numbers are finite and
in range and its containers are not nested too deep. The induction is over the
value; what follows it on the line is arbitrary up to what could continue a number.
-/
namespace Walaru.Agent
open Lib.Utf16 Lib.Decimals

def integerJson (floats : FloatReader) (value : Int) : Option Number :=
  if 0 ≤ value ∧ value < 2 ^ 64 then some (.posInt value.toNat)
  else if -(2 ^ 63) ≤ value ∧ value < 0 then some (.negInt value)
  else (floats.read (integerDecimal value)).map .float

/-- The number that the daemon keeps: a machine integer exactly, any other as a double. -/
def JavaNumber.json (floats : FloatReader) : JavaNumber → Option Number
  | .integral _ value => integerJson floats value
  | .float value => value.decimal.bind fun d => (floats.read d).map .float
  | .double value => value.decimal.bind fun d => (floats.read d).map .float
  | .bigDecimal unscaled scale =>
    if scale = 0 then integerJson floats unscaled
    else (floats.read (Agent.bigDecimal unscaled scale)).map .float

def textJson (value : Text) : String := String.ofList (decode value)

mutual
/-- The same tree with decoded strings, its numbers as the daemon keeps them; nothing
when a number is none that it can keep. -/
def EventValue.json (floats : FloatReader) : EventValue → Option Json
  | .null => some .null
  | .bool value => some (.bool value)
  | .number value => (value.json floats).map .number
  | .text value => some (.string (textJson value))
  | .map fields => (fieldsJson floats fields).map .ofMembers
  | .list items => (itemsJson floats items).map .array
  | .other className => some (.string (textJson className))

def fieldsJson (floats : FloatReader) : List (Text × EventValue) → Option (List (String × Json))
  | [] => some []
  | (name, value) :: fields =>
    ((value.json floats).map fun member => (textJson name, member)).bind fun member =>
      (fieldsJson floats fields).map fun members => member :: members

def itemsJson (floats : FloatReader) : List EventValue → Option (List Json)
  | [] => some []
  | item :: items =>
    (item.json floats).bind fun item => (itemsJson floats items).map fun items => item :: items
end

mutual
/-- How many containers are inside each other. -/
def EventValue.nesting : EventValue → Nat
  | .map fields => fieldsNesting fields + 1
  | .list items => itemsNesting items + 1
  | _ => 0

def fieldsNesting : List (Text × EventValue) → Nat
  | [] => 0
  | (_, value) :: fields => max value.nesting (fieldsNesting fields)

def itemsNesting : List EventValue → Nat
  | [] => 0
  | item :: items => max item.nesting (itemsNesting items)
end

mutual
def EventValue.numbers : EventValue → List JavaNumber
  | .number value => [value]
  | .map fields => fieldsNumbers fields
  | .list items => itemsNumbers items
  | _ => []

def fieldsNumbers : List (Text × EventValue) → List JavaNumber
  | [] => []
  | (_, value) :: fields => value.numbers ++ fieldsNumbers fields

def itemsNumbers : List EventValue → List JavaNumber
  | [] => []
  | item :: items => item.numbers ++ itemsNumbers items
end

/-- Induction over a value with a hypothesis for each item and each field. -/
theorem EventValue.induct {P : EventValue → Prop} (null : P .null) (bool : ∀ value, P (.bool value))
    (number : ∀ value, P (.number value)) (text : ∀ value, P (.text value))
    (map : ∀ fields : List (Text × EventValue), (∀ field ∈ fields, P field.2) → P (.map fields))
    (list : ∀ items : List EventValue, (∀ item ∈ items, P item) → P (.list items))
    (other : ∀ className, P (.other className)) (value : EventValue) : P value := by
  refine EventValue.rec (motive_1 := P) (motive_2 := fun fields => ∀ field ∈ fields, P field.2)
    (motive_3 := fun items => ∀ item ∈ items, P item) (motive_4 := fun field => P field.2)
    null bool number text map list other ?_ ?_ ?_ ?_ ?_ value
  · exact nofun
  · exact fun field fields first rest => List.forall_mem_cons.mpr ⟨first, rest⟩
  · exact nofun
  · exact fun item items first rest => List.forall_mem_cons.mpr ⟨first, rest⟩
  · exact fun name value here => here

theorem itemsNesting_le {items : List EventValue} {n : Nat} :
    itemsNesting items ≤ n ↔ ∀ item ∈ items, item.nesting ≤ n := by
  induction items with
  | nil => simp [itemsNesting]
  | cons item items ih => rw [itemsNesting, Nat.max_le, ih, List.forall_mem_cons]

theorem fieldsNesting_le {fields : List (Text × EventValue)} {n : Nat} :
    fieldsNesting fields ≤ n ↔ ∀ field ∈ fields, field.2.nesting ≤ n := by
  induction fields with
  | nil => simp [fieldsNesting]
  | cons field fields ih => rw [fieldsNesting, Nat.max_le, ih, List.forall_mem_cons]

theorem readChars_escapeChar (c : Char) (rest : List Char) :
    readChars 0 (escapeChar c ++ rest) =
      (readChars 0 rest).map fun (chars, rest) => (c :: chars, rest) := by
  have named : ∀ n : Nat, c.toNat = n → c = Char.ofNat n := by
    rintro n rfl
    exact (Char.ofNat_toNat c).symm
  unfold escapeChar
  split
  · rename_i quote
    rw [named _ quote]
    exact @readChars_escape ['"'] rest _ rfl
  · split
    · rename_i backslash
      rw [named _ backslash]
      exact @readChars_escape ['\\'] rest _ rfl
    · split
      · rename_i newline
        rw [named _ newline]
        exact @readChars_escape ['n'] rest _ rfl
      · split
        · rename_i carriage
          rw [named _ carriage]
          exact @readChars_escape ['r'] rest _ rfl
        · split
          · rename_i tab
            rw [named _ tab]
            exact @readChars_escape ['t'] rest _ rfl
          · rename_i quote backslash _ _ _
            split
            · rename_i control
              have known := @readEscape_unicode c.toNat (by omega) rest
              rw [Char.ofNat_toNat] at known
              exact @readChars_escape ['u', Nat.digitChar (c.toNat / 4096),
                Nat.digitChar (c.toNat / 256 % 16), Nat.digitChar (c.toNat / 16 % 16),
                Nat.digitChar (c.toNat % 16)] rest _ known
            · rename_i printed
              refine readChars_plain ?_ ?_ (by omega) rest
              · rintro rfl
                exact quote rfl
              · rintro rfl
                exact backslash rfl

theorem readString_stringChars (value : Text) (rest : List Char) :
    readString (stringChars value ++ rest) = some (textJson value, rest) := by
  have chars : ∀ chars : List Char,
      readChars 0 (chars.flatMap escapeChar ++ '"' :: rest) = some (chars, rest) := by
    intro chars
    induction chars with
    | nil => rfl
    | cons c chars ih =>
      rw [List.flatMap_cons, List.append_assoc, readChars_escapeChar, ih]
      rfl
  rw [stringChars, List.cons_append, List.append_assoc, List.singleton_append, readString_quote,
    chars]
  rfl

theorem startsNoWord_digit {c : Char} (digit : c.isDigit = true) : startsNoWord c = true := by
  have apart : ∀ d : Char, d.isDigit = false → c ≠ d := by
    rintro d other rfl
    rw [digit] at other
    cases other
  simp [startsNoWord, isJsonBlank, apart ' ' rfl, apart '\n' rfl, apart '\t' rfl, apart '\r' rfl,
    apart 'n' rfl, apart 't' rfl, apart 'f' rfl, apart '"' rfl, apart '[' rfl, apart '\x7b' rfl]

theorem numeral_head {numeral : Numeral} (valid : numeral.Valid) :
    ∃ c rest, numeral.text = c :: rest ∧ (c = '-' ∨ c.isDigit = true) := by
  rw [Numeral.text]
  cases numeral.negative with
  | true => exact ⟨'-', _, rfl, .inl rfl⟩
  | false =>
    obtain ⟨occupied, digits⟩ := valid.whole
    cases whole : numeral.whole with
    | nil => exact absurd whole occupied
    | cons c rest => exact ⟨c, _, rfl, .inr (digits c (by simp [whole]))⟩

theorem number_head (n : JavaNumber) :
    ∃ c rest, n.text = c :: rest ∧ startsNoWord c = true ∧ c ≠ ']' ∧ c ≠ '\x7d' := by
  cases written : n.numeral with
  | some numeral =>
    obtain ⟨text, valid, -⟩ := JavaNumber.numeral_spec written
    obtain ⟨c, rest, first, start⟩ := numeral_head valid
    refine ⟨c, rest, text.trans first, ?_⟩
    rcases start with rfl | digit
    · decide
    · refine ⟨startsNoWord_digit digit, ?_, ?_⟩
      · rintro rfl
        cases digit
      · rintro rfl
        cases digit
  | none =>
    rcases (JavaNumber.text_of_no_numeral written).2 with word | word | word
    · exact ⟨'N', _, word, by decide⟩
    · exact ⟨'I', _, word, by decide⟩
    · exact ⟨'-', _, word, by decide⟩

theorem readNumber_integer (floats : FloatReader) (value : Int) :
    readNumber floats (integerNumeral value) = integerJson floats value := by
  have decimal := integerNumeral_decimal value
  have integer : (integerNumeral value).isInteger = true := rfl
  simp only [readNumber, decimal, integer, integerJson, integerDecimal, Bool.true_and,
    Bool.and_eq_true, Bool.not_eq_true', decide_eq_true_eq, decide_eq_false_iff_not]
  by_cases sign : 0 ≤ value
  · by_cases small : value < 2 ^ 64
    · rw [if_pos (by omega), if_pos ⟨sign, small⟩]
      congr 2
      omega
    · rw [if_neg (by omega), if_neg (by omega), if_neg (by omega), if_neg (by omega)]
  · by_cases small : -(2 ^ 63) ≤ value
    · rw [if_neg (by omega), if_pos (by omega), if_neg (by omega), if_pos (by omega)]
      congr 2
      omega
    · rw [if_neg (by omega), if_neg (by omega), if_neg (by omega), if_neg (by omega)]

/-- The parser keeps the number that was written. -/
theorem readNumber_numeral (floats : FloatReader) {n : JavaNumber} {numeral : Numeral}
    (written : n.numeral = some numeral) : readNumber floats numeral = n.json floats := by
  have shown : ∀ shown : FloatText, readNumber floats shown.numeral =
      (floats.read shown.numeral.decimal).map .float := by
    intro shown
    have broken : shown.numeral.isInteger = false := by
      simp [Numeral.isInteger, shown.fraction]
    simp [readNumber, broken]
  cases n with
  | integral kind value =>
    cases written
    exact readNumber_integer floats value
  | float value =>
    cases value with
    | finite text => cases written; exact shown text
    | _ => cases written
  | double value =>
    cases value with
    | finite text => cases written; exact shown text
    | _ => cases written
  | bigDecimal unscaled scale =>
    cases written
    rw [JavaNumber.json]
    by_cases scaled : scale = 0
    · rw [if_pos scaled, bigDecimalNumeral, if_pos scaled]
      exact readNumber_integer floats unscaled
    · have decimal := bigDecimalNumeral_decimal unscaled scale
      simp [readNumber, bigDecimalNumeral_isInteger scaled, decimal, scaled]

theorem readValue_number (floats : FloatReader) (containers : Nat) (n : JavaNumber)
    {rest : List Char} (stop : Stops rest) :
    readValue floats containers (n.text ++ rest) =
      (n.json floats).map fun number => (.number number, rest) := by
  obtain ⟨c, tail, text, start, -⟩ := number_head n
  rw [text, List.cons_append, readValue_numeral floats containers start, ← List.cons_append, ← text]
  cases written : n.numeral with
  | some numeral =>
    obtain ⟨shown, valid, -⟩ := JavaNumber.numeral_spec written
    rw [shown, readNumeral_text valid stop, Option.bind_some, readNumber_numeral floats written]
  | none =>
    obtain ⟨infinite, words⟩ := JavaNumber.text_of_no_numeral written
    have kept : n.json floats = none := by
      cases n with
      | integral kind value => cases written
      | float value => simp [JavaNumber.json, show value.decimal = none from infinite]
      | double value => simp [JavaNumber.json, show value.decimal = none from infinite]
      | bigDecimal unscaled scale => cases written
    rw [kept]
    rcases words with word | word | word
    · rw [word]
      rfl
    · rw [word]
      rfl
    · rw [word]
      rfl

theorem stops_cons {c : Char} (closing : c ∈ [',', ']', '\x7d', '\n']) (rest : List Char) :
    Stops (c :: rest) := by
  intro d first
  cases first
  simp only [List.mem_cons, List.not_mem_nil, or_false] at closing
  rcases closing with rfl | rfl | rfl | rfl
  · decide
  · decide
  · decide
  · decide

/-- A written value starts with neither a blank nor a closing bracket. -/
theorem value_head (value : EventValue) :
    ∃ c rest, valueChars value = c :: rest ∧ isJsonBlank c = false ∧ c ≠ ']' ∧ c ≠ '\x7d' := by
  cases value with
  | null => exact ⟨'n', _, rfl, by decide⟩
  | bool value =>
    cases value with
    | true => exact ⟨'t', _, rfl, by decide⟩
    | false => exact ⟨'f', _, rfl, by decide⟩
  | number value =>
    obtain ⟨c, rest, text, start, list, map⟩ := number_head value
    simp only [startsNoWord, Bool.and_eq_true, Bool.not_eq_true'] at start
    exact ⟨c, rest, text, start.1.1.1.1.1.1, list, map⟩
  | text value => exact ⟨'"', _, rfl, by decide⟩
  | map fields => exact ⟨'\x7b', _, rfl, by decide⟩
  | list items => exact ⟨'[', _, rfl, by decide⟩
  | other className => exact ⟨'"', _, rfl, by decide⟩

theorem items_head (item : EventValue) (items : List EventValue) (rest : List Char) :
    ∃ c tail, itemsChars (item :: items) ++ rest = c :: tail ∧ isJsonBlank c = false ∧ c ≠ ']' := by
  obtain ⟨c, tail, first, dark, list, -⟩ := value_head item
  cases items with
  | nil => exact ⟨c, _, by rw [itemsChars, first]; rfl, dark, list⟩
  | cons next items => exact ⟨c, _, by rw [itemsChars, first]; rfl, dark, list⟩

theorem fields_head (field : Text × EventValue) (fields : List (Text × EventValue))
    (rest : List Char) : ∃ tail, fieldsChars (field :: fields) ++ rest = '"' :: tail := by
  cases fields with
  | nil => exact ⟨_, rfl⟩
  | cons next fields => exact ⟨_, rfl⟩

/-- Every item takes a character of its own besides the first one. -/
theorem items_length (item : EventValue) (items : List EventValue) :
    items.length < (itemsChars (item :: items)).length := by
  induction items generalizing item with
  | nil =>
    obtain ⟨c, tail, first, -⟩ := value_head item
    simp [itemsChars, first]
  | cons next items ih =>
    have longer := ih next
    simp only [itemsChars, List.length_append, List.length_cons] at longer ⊢
    omega

theorem fields_length (field : Text × EventValue) (fields : List (Text × EventValue)) :
    fields.length < (fieldsChars (field :: fields)).length := by
  induction fields generalizing field with
  | nil =>
    simp only [fieldsChars, List.length_append, List.length_cons, List.length_nil]
    omega
  | cons next fields ih =>
    have longer := ih next
    simp only [fieldsChars, List.length_append, List.length_cons] at longer ⊢
    omega

theorem readMember_chars {reader : List Char → Option (Json × List Char)} {text rest : List Char}
    {answer : Option Json} (name : Text) (read : reader text = answer.map fun json => (json, rest)) :
    readMember reader (stringChars name ++ ':' :: text) =
      (answer.map fun json => (textJson name, json)).map fun member => (member, rest) := by
  rw [readMember_colon (readString_stringChars name (':' :: text)), read]
  cases answer with
  | none => rfl
  | some json => rfl

theorem itemsJson_cons (floats : FloatReader) (item : EventValue) (items : List EventValue) :
    itemsJson floats (item :: items) = (item.json floats).bind fun item =>
      (itemsJson floats items).map fun items => item :: items := by
  rw [itemsJson]

theorem fieldsJson_cons (floats : FloatReader) (name : Text) (value : EventValue)
    (fields : List (Text × EventValue)) :
    fieldsJson floats ((name, value) :: fields) =
      ((value.json floats).map fun member => (textJson name, member)).bind fun member =>
        (fieldsJson floats fields).map fun members => member :: members := by
  rw [fieldsJson]

/-- What a value is read as behind an opening bracket or a separator. -/
def ReadsAs (floats : FloatReader) (containers : Nat) (value : EventValue) : Prop :=
  ∀ rest, Stops rest → readValue floats containers (valueChars value ++ rest) =
    (value.json floats).map fun json => (json, rest)

theorem readItems_chars {floats : FloatReader} {containers : Nat} (rest : List Char)
    (item : EventValue) (items : List EventValue)
    (each : ∀ i ∈ item :: items, ReadsAs floats containers i) {fuel : Nat}
    (enough : items.length < fuel) :
    readItems (readValue floats containers) fuel (itemsChars (item :: items) ++ ']' :: rest) =
      (itemsJson floats (item :: items)).map fun items => (items, rest) := by
  induction items generalizing item fuel with
  | nil =>
    obtain ⟨fuel, rfl⟩ := Nat.exists_eq_succ_of_ne_zero (Nat.ne_zero_of_lt enough)
    have read := each item (by simp) (']' :: rest) (stops_cons (by simp) rest)
    rw [itemsChars, readItems_last read, itemsJson, itemsJson]
    cases item.json floats with
    | none => rfl
    | some json => rfl
  | cons next items ih =>
    obtain ⟨fuel, rfl⟩ := Nat.exists_eq_succ_of_ne_zero (Nat.ne_zero_of_lt enough)
    have read := each item (by simp) (',' :: (itemsChars (next :: items) ++ ']' :: rest))
      (stops_cons (by simp) _)
    have more := ih next (fun i member => each i (List.mem_cons_of_mem item member))
      (Nat.lt_of_succ_lt_succ enough)
    rw [itemsChars, List.append_assoc, List.cons_append, readItems_more read, more,
      itemsJson_cons floats item]
    cases item.json floats with
    | none => rfl
    | some json =>
      rw [Option.bind_some, Option.bind_some, Option.map_map, Option.map_map]
      rfl

theorem readMembers_chars {floats : FloatReader} {containers : Nat} (rest : List Char)
    (field : Text × EventValue) (fields : List (Text × EventValue))
    (each : ∀ f ∈ field :: fields, ReadsAs floats containers f.2) {fuel : Nat}
    (enough : fields.length < fuel) :
    readMembers (readValue floats containers) fuel
        (fieldsChars (field :: fields) ++ '\x7d' :: rest) =
      (fieldsJson floats (field :: fields)).map fun members => (members, rest) := by
  induction fields generalizing field fuel with
  | nil =>
    obtain ⟨name, value⟩ := field
    obtain ⟨fuel, rfl⟩ := Nat.exists_eq_succ_of_ne_zero (Nat.ne_zero_of_lt enough)
    have read := each (name, value) (by simp) ('\x7d' :: rest) (stops_cons (by simp) rest)
    have last := readMembers_last (readMember_chars name read) fuel
    rw [fieldsChars, List.append_assoc, List.cons_append, last, fieldsJson_cons, fieldsJson]
    cases value.json floats with
    | none => rfl
    | some json => rfl
  | cons next fields ih =>
    obtain ⟨name, value⟩ := field
    obtain ⟨fuel, rfl⟩ := Nat.exists_eq_succ_of_ne_zero (Nat.ne_zero_of_lt enough)
    have read := each (name, value) (by simp)
      (',' :: (fieldsChars (next :: fields) ++ '\x7d' :: rest)) (stops_cons (by simp) _)
    have more := ih next (fun f member => each f (List.mem_cons_of_mem _ member))
      (Nat.lt_of_succ_lt_succ enough)
    have step := readMembers_more (readMember_chars name read) fuel
    rw [fieldsChars, List.append_assoc, List.cons_append, List.append_assoc, List.cons_append, step,
      more, fieldsJson_cons floats name]
    cases value.json floats with
    | none => rfl
    | some json =>
      rw [Option.map_some, Option.bind_some, Option.bind_some, Option.map_map, Option.map_map]
      rfl

/-- A written value is read as its tree. -/
theorem readsAs (floats : FloatReader) (value : EventValue) {containers : Nat}
    (nested : value.nesting ≤ containers) : ReadsAs floats containers value := by
  induction value using EventValue.induct generalizing containers with
  | null => exact fun rest _ => readValue_null floats containers rest
  | bool value =>
    intro rest _
    cases value with
    | true => exact readValue_true floats containers rest
    | false => exact readValue_false floats containers rest
  | number value =>
    intro rest stop
    rw [valueChars, readValue_number floats containers value stop, EventValue.json, Option.map_map]
    rfl
  | text value =>
    intro rest _
    have read := readString_stringChars value rest
    rw [stringChars, List.cons_append] at read
    rw [valueChars, stringChars, List.cons_append, readValue_quote, read]
    rfl
  | other className =>
    intro rest _
    have read := readString_stringChars className rest
    rw [stringChars, List.cons_append] at read
    rw [valueChars, stringChars, List.cons_append, readValue_quote, read]
    rfl
  | list items ih =>
    intro rest _
    obtain ⟨containers, rfl⟩ := Nat.exists_eq_succ_of_ne_zero (Nat.ne_zero_of_lt nested)
    have inside : itemsNesting items ≤ containers := Nat.le_of_succ_le_succ nested
    cases items with
    | nil => exact readValue_emptyArray floats containers rest
    | cons item items =>
      have each := fun i member => ih i member (itemsNesting_le.mp inside i member)
      obtain ⟨c, tail, first, dark, open_⟩ := items_head item items (']' :: rest)
      have long := congrArg List.length first
      have many := items_length item items
      rw [List.length_append, List.length_cons, List.length_cons] at long
      have read := readItems_chars rest item items each (by omega : items.length < tail.length + 1)
      rw [valueChars, List.cons_append, List.append_assoc, List.singleton_append, first,
        readValue_array floats containers dark open_, ← first, read, EventValue.json,
        Option.map_map, Option.map_map]
      rfl
  | map fields ih =>
    intro rest _
    obtain ⟨containers, rfl⟩ := Nat.exists_eq_succ_of_ne_zero (Nat.ne_zero_of_lt nested)
    have inside : fieldsNesting fields ≤ containers := Nat.le_of_succ_le_succ nested
    cases fields with
    | nil => exact readValue_emptyObject floats containers rest
    | cons field fields =>
      have each := fun f member => ih f member (fieldsNesting_le.mp inside f member)
      obtain ⟨tail, first⟩ := fields_head field fields ('\x7d' :: rest)
      have long := congrArg List.length first
      have many := fields_length field fields
      rw [List.length_append, List.length_cons, List.length_cons] at long
      have read := readMembers_chars rest field fields each (by omega : fields.length < tail.length + 1)
      rw [valueChars, List.cons_append, List.append_assoc, List.singleton_append, first,
        readValue_object floats containers (by decide) (by decide), ← first, read, EventValue.json,
        Option.map_map, Option.map_map]
      rfl

end Walaru.Agent
