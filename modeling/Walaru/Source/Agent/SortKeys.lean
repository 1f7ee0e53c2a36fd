import Mathlib.Data.List.Chain
import Mathlib.Data.List.TakeWhile
import Walaru.Lib.KeySort
import Walaru.Source.Agent.StateHash

/-!
# Sort keys

What `SafeValue.stableSortKey` tells apart. Texts carry their length and containers close,
but neither the digits of a number nor a null end: a null directly behind a number in a list
reads as one more zero. Values have one key exactly when they are the same under that reading.
-/
namespace Walaru.Agent
open Lib.KeySort Lib.Framing Lib.Decimals Lib.Utf16

theorem textLe_order : KeyOrder textLe where
  trans := by
    intro a
    induction a with
    | nil => exact fun _ _ _ _ => rfl
    | cons u us ih =>
      intro b c first second
      cases b with
      | nil => cases first
      | cons v vs =>
        cases c with
        | nil => cases second
        | cons w ws =>
          simp only [textLe, Bool.or_eq_true, Bool.and_eq_true, decide_eq_true_eq,
            UInt16.lt_iff_toNat_lt] at first second ⊢
          rcases first with below | ⟨rfl, first⟩
          · rcases second with above | ⟨rfl, -⟩
            · exact .inl (by omega)
            · exact .inl below
          · rcases second with above | ⟨rfl, second⟩
            · exact .inl above
            · exact .inr ⟨rfl, ih vs ws first second⟩
  total := by
    intro a
    induction a with
    | nil => exact fun _ => rfl
    | cons u us ih =>
      intro b
      cases b with
      | nil => rfl
      | cons v vs =>
        have rest := ih vs
        simp only [textLe, Bool.or_eq_true, Bool.and_eq_true, decide_eq_true_eq,
          UInt16.lt_iff_toNat_lt] at rest ⊢
        rcases Nat.lt_trichotomy u.toNat v.toNat with below | same | above
        · exact .inl (.inl below)
        · have units := UInt16.toNat_inj.mp same
          exact rest.imp (fun le => .inr ⟨units, le⟩) fun le => .inr ⟨units.symm, le⟩
        · exact .inr (.inl above)
  antisymm := by
    intro a
    induction a with
    | nil =>
      intro b _ second
      cases b with
      | nil => rfl
      | cons v vs => cases second
    | cons u us ih =>
      intro b first second
      cases b with
      | nil => cases first
      | cons v vs =>
        simp only [textLe, Bool.or_eq_true, Bool.and_eq_true, decide_eq_true_eq,
          UInt16.lt_iff_toNat_lt] at first second
        rcases first with below | ⟨rfl, first⟩
        · rcases second with above | ⟨same, -⟩
          · omega
          · exact absurd below (by rw [same]; omega)
        · rcases second with above | ⟨-, second⟩
          · exact absurd above (Nat.lt_irrefl _)
          · rw [ih vs first second]

/-- An ASCII text has a unit for each character. -/
theorem ascii_ofList {chars : List Char} (small : ∀ c ∈ chars, c.toNat < 128) :
    ascii (String.ofList chars) = chars.map fun c => UInt16.ofNat c.toNat := by
  rw [ascii, encode, String.toList_ofList, List.map_eq_flatMap]
  refine List.flatMap_congr fun c inside => ?_
  have bound := small c inside
  rw [encodeChar, if_pos (by omega)]

/-- A text with its length determines itself and what follows it. -/
theorem scalarKey_append_injective {kind : String} {a b restA restB : Text}
    (same : scalarKey kind a ++ restA = scalarKey kind b ++ restB) : a = b ∧ restA = restB := by
  have free : ∀ n : Nat, (58 : UInt16) ∉ ascii (toString n) := by
    intro n member
    have digits : ∀ c ∈ Nat.toDigits 10 n, 48 ≤ c.toNat ∧ c.toNat ≤ 57 := fun c inside =>
      (digitByte_toNat (Nat.isDigit_of_mem_toDigits (by omega) (by omega) inside)).2
    rw [Nat.toString_eq_ofList_toDigits,
      ascii_ofList fun c inside => Nat.lt_of_le_of_lt (digits c inside).2 (by omega)] at member
    obtain ⟨c, inside, unit⟩ := List.mem_map.mp member
    have bound := digits c inside
    have value := congrArg UInt16.toNat unit
    rw [toNat_ofNat (by omega)] at value
    exact absurd value (by simp; omega)
  simp only [scalarKey, List.append_assoc, List.append_cancel_left_eq] at same
  obtain ⟨lengths, rest⟩ := separated_injective (free a.length) (free b.length) same
  exact List.append_inj rest (Lib.Text.decimal_injective (encode_injective lengths))

def numberText (n : JavaNumber) : Text := ascii (String.ofList n.text)

/-- A unit of a numeral. -/
def numeralUnit (u : UInt16) : Bool :=
  (48 ≤ u.toNat && u.toNat ≤ 57) || u.toNat = 43 || u.toNat = 45 || u.toNat = 46 || u.toNat = 69

/-- A text that continues no numeral. -/
def EndsNumeral (rest : Text) : Prop := ∀ u, rest.head? = some u → numeralUnit u = false

/-- The length of a number that is written as a word. -/
def wordLength (text : Text) : Nat :=
  if (ascii "NaN").isPrefixOf text then 3
  else if (ascii "Infinity").isPrefixOf text then 8
  else if (ascii "-Infinity").isPrefixOf text then 9
  else 0

/-- A number with the zeros behind it, and the rest. -/
def cutNumber (text : Text) : Text × Text :=
  let digits := text.drop (wordLength text)
  (text.take (wordLength text) ++ digits.takeWhile numeralUnit, digits.dropWhile numeralUnit)

def numeralSigns : List Char := ['-', '+', '.', 'E']

theorem numeral_chars {n : Numeral} (valid : n.Valid) :
    ∀ c ∈ n.text, c.toNat < 128 ∧ numeralUnit (UInt16.ofNat c.toNat) = true := by
  have digit : ∀ c : Char, c.isDigit = true →
      c.toNat < 128 ∧ numeralUnit (UInt16.ofNat c.toNat) = true := by
    intro c shown
    have range := (digitByte_toNat shown).2
    have unit : (UInt16.ofNat c.toNat).toNat = c.toNat := toNat_ofNat (by omega)
    refine ⟨by omega, ?_⟩
    simp only [numeralUnit, unit, Bool.or_eq_true, Bool.and_eq_true, decide_eq_true_eq]
    omega
  have table : (numeralSigns.all fun c =>
      decide (c.toNat < 128) && numeralUnit (UInt16.ofNat c.toNat)) = true := by decide
  have sign : ∀ c ∈ numeralSigns, c.toNat < 128 ∧ numeralUnit (UInt16.ofNat c.toNat) = true := by
    intro c inside
    simpa using List.all_eq_true.mp table c inside
  have minus : ∀ c ∈ (if n.negative then ['-'] else []), c ∈ numeralSigns := by
    intro c inside
    split at inside
    · exact List.mem_cons.mpr (.inl (List.mem_singleton.mp inside))
    · cases inside
  have fraction : ∀ c ∈ fractionText n.fraction, c.isDigit = true ∨ c ∈ numeralSigns := by
    intro c inside
    unfold fractionText at inside
    split at inside
    · cases inside
    · rcases List.mem_cons.mp inside with rfl | inside
      · exact .inr (by decide)
      · exact .inl (valid.fraction c inside)
  have signed : ∀ s : Sign, ∀ c ∈ s.text, c ∈ numeralSigns := by
    intro s c inside
    cases s with
    | absent => cases inside
    | plus => exact List.mem_singleton.mp inside ▸ List.elem_iff.mp rfl
    | minus => exact List.mem_singleton.mp inside ▸ List.elem_iff.mp rfl
  have exponent : ∀ c ∈ exponentText n.exponent, c.isDigit = true ∨ c ∈ numeralSigns := by
    intro c inside
    cases shown : n.exponent with
    | none => rw [shown] at inside; cases inside
    | some e =>
      rw [shown] at inside
      rcases List.mem_cons.mp inside with rfl | inside
      · exact .inr (by decide)
      · rcases List.mem_append.mp inside with inside | inside
        · exact .inr (signed e.sign c inside)
        · exact .inl ((valid.exponent e shown).2 c inside)
  intro c inside
  simp only [Numeral.text, List.mem_append] at inside
  rcases inside with ((inside | inside) | inside) | inside
  · exact sign c (minus c inside)
  · exact digit c (valid.whole.2 c inside)
  · exact (fraction c inside).elim (digit c) (sign c)
  · exact (exponent c inside).elim (digit c) (sign c)

/-- A numeral opens with a digit, perhaps behind a minus sign. -/
theorem numeral_opens {n : Numeral} (valid : n.Valid) : ∃ d rest, d.isDigit = true ∧
    (n.text = d :: rest ∨ n.text = '-' :: d :: rest) := by
  obtain ⟨occupied, digits⟩ := valid.whole
  obtain ⟨d, more, whole⟩ := List.exists_cons_of_ne_nil occupied
  have first : d.isDigit = true := digits d (whole ▸ List.mem_cons_self)
  refine ⟨d, more ++ fractionText n.fraction ++ exponentText n.exponent, first, ?_⟩
  unfold Numeral.text
  rw [whole]
  cases n.negative with
  | true => exact .inr (by simp)
  | false => exact .inl (by simp)

theorem wordLength_numeral {n : Numeral} (valid : n.Valid) (rest : Text) :
    wordLength (n.text.map (fun c => UInt16.ofNat c.toNat) ++ rest) = 0 := by
  obtain ⟨d, more, digit, shown⟩ := numeral_opens valid
  have range := (digitByte_toNat digit).2
  have unit : (UInt16.ofNat d.toNat).toNat = d.toNat := toNat_ofNat (by omega)
  have letters : ∀ u ∈ [78, 73], (u == UInt16.ofNat d.toNat) = false := by
    intro u listed
    rw [beq_eq_false_iff_ne]
    rintro rfl
    simp only [unit, List.mem_cons, ← UInt16.toNat_inj, List.not_mem_nil, or_false] at listed
    simp at listed
    omega
  have minus : (45 == UInt16.ofNat d.toNat) = false := by
    rw [beq_eq_false_iff_ne]
    intro same
    have value := congrArg UInt16.toNat same
    rw [unit] at value
    simp at value
    omega
  have words : ascii "NaN" = [78, 97, 78] ∧ ascii "Infinity" = 73 :: (ascii "nfinity") ∧
      ascii "-Infinity" = 45 :: 73 :: ascii "nfinity" := by decide
  unfold wordLength
  rw [words.1, words.2.1, words.2.2]
  rcases shown with shown | shown
  · simp [shown, List.isPrefixOf, letters, minus]
  · simp [shown, List.isPrefixOf, letters]

theorem span_append {run rest : Text} (units : ∀ u ∈ run, numeralUnit u = true)
    (ends : EndsNumeral rest) :
    (run ++ rest).takeWhile numeralUnit = run ∧ (run ++ rest).dropWhile numeralUnit = rest := by
  rw [List.takeWhile_append_of_pos units, List.dropWhile_append_of_pos units]
  cases rest with
  | nil => exact ⟨List.append_nil _, rfl⟩
  | cons u rest =>
    have stop := ends u rfl
    rw [List.takeWhile_cons_of_neg (by simp [stop]), List.dropWhile_cons_of_neg (by simp [stop])]
    exact ⟨List.append_nil _, rfl⟩

/-- A number and the zeros behind it are read back up to where they end. -/
theorem cutNumber_append (n : JavaNumber) (zeros : Nat) {rest : Text} (ends : EndsNumeral rest) :
    cutNumber (numberText n ++ List.replicate zeros 48 ++ rest) =
      (numberText n ++ List.replicate zeros 48, rest) := by
  have zero : ∀ u ∈ List.replicate zeros (48 : UInt16), numeralUnit u = true := by
    intro u inside
    rw [List.eq_of_mem_replicate inside]
    decide
  cases shown : n.numeral with
  | some numeral =>
    obtain ⟨text, valid, -⟩ := JavaNumber.numeral_spec shown
    have chars := numeral_chars valid
    have units : numberText n = numeral.text.map fun c => UInt16.ofNat c.toNat := by
      rw [numberText, text, ascii_ofList fun c inside => (chars c inside).1]
    have run : ∀ u ∈ numberText n ++ List.replicate zeros 48, numeralUnit u = true := by
      intro u inside
      rcases List.mem_append.mp inside with inside | inside
      · rw [units] at inside
        obtain ⟨c, member, rfl⟩ := List.mem_map.mp inside
        exact (chars c member).2
      · exact zero u inside
    have word : wordLength (numberText n ++ List.replicate zeros 48 ++ rest) = 0 := by
      rw [units, List.append_assoc]
      exact wordLength_numeral valid _
    obtain ⟨taken, dropped⟩ := span_append run ends
    rw [cutNumber, word, List.take_zero, List.drop_zero, taken, dropped]
    rfl
  | none =>
    obtain ⟨taken, dropped⟩ := span_append zero ends
    have length : wordLength (numberText n ++ (List.replicate zeros 48 ++ rest)) =
        (numberText n).length := by
      rcases (JavaNumber.text_of_no_numeral shown).2 with text | text | text
      · rw [numberText, text]
        rfl
      · rw [numberText, text]
        rfl
      · rw [numberText, text]
        rfl
    rw [List.append_assoc, cutNumber, length, List.take_left, List.drop_left, taken, dropped]

/-- A captured value as its key shows it: the fields of a map in the order of their names'
keys, and a number with the nulls behind it as zeros. -/
inductive KeyView where
  | null
  | bool (value : Bool)
  | number (className : Text) (digits : Text)
  | text (value : Text)
  | map (fields : List (Text × KeyView))
  | list (items : List KeyView)
  | other (className : Text)

def KeyView.isNull : KeyView → Bool
  | .null => true
  | _ => false

/-- A value in front of the others of its list. -/
def KeyView.before : KeyView → List KeyView → List KeyView
  | .number className digits, items =>
    .number className (digits ++ List.replicate (items.takeWhile isNull).length 48) ::
      items.dropWhile isNull
  | item, items => item :: items

mutual
def keyView : EventValue → KeyView
  | .null => .null
  | .bool value => .bool value
  | .number value => .number (ascii value.className) (numberText value)
  | .text value => .text value
  | .map fields => .map (sortByKey (fun field => scalarKey "s" field.1) (fieldViews fields))
  | .list items => .list (itemViews items)
  | .other className => .other className

def fieldViews : List (Text × EventValue) → List (Text × KeyView)
  | [] => []
  | (name, value) :: fields => (name, keyView value) :: fieldViews fields

def itemViews : List EventValue → List KeyView
  | [] => []
  | item :: items => (keyView item).before (itemViews items)
end

mutual
/-- The key of what a key shows. -/
def KeyView.key : KeyView → Text
  | .null => ascii "0"
  | .bool value => ascii (if value then "btrue" else "bfalse")
  | .number className digits => ascii "n" ++ className ++ ascii ":" ++ digits
  | .text value => scalarKey "s" value
  | .map fields => ascii "\x7b" ++ fieldViewKeys fields ++ ascii "\x7d"
  | .list items => ascii "[" ++ itemViewKeys items ++ ascii "]"
  | .other className => ascii "c" ++ className

def fieldViewKeys : List (Text × KeyView) → Text
  | [] => []
  | (name, value) :: fields => scalarKey "s" name ++ value.key ++ fieldViewKeys fields

def itemViewKeys : List KeyView → Text
  | [] => []
  | item :: items => item.key ++ itemViewKeys items
end

def fieldViewKey (field : Text × KeyView) : Text := scalarKey "s" field.1 ++ field.2.key

theorem fieldViewKeys_eq (fields : List (Text × KeyView)) :
    fieldViewKeys fields = fields.flatMap fieldViewKey := by
  induction fields with
  | nil => rfl
  | cons field fields ih => rw [fieldViewKeys, ih, List.flatMap_cons]; rfl

theorem itemViewKeys_eq (items : List KeyView) :
    itemViewKeys items = items.flatMap KeyView.key := by
  induction items with
  | nil => rfl
  | cons item items ih => rw [itemViewKeys, ih, List.flatMap_cons]

theorem fieldViews_eq (fields : List (Text × EventValue)) :
    fieldViews fields = fields.map fun field => (field.1, keyView field.2) := by
  induction fields with
  | nil => rfl
  | cons field fields ih => rw [fieldViews, ih, List.map_cons]

/-- Nulls read as zeros have their key. -/
theorem before_key (item : KeyView) (items : List KeyView) :
    (item.before items).flatMap KeyView.key = item.key ++ items.flatMap KeyView.key := by
  have nulls : ∀ run : List KeyView, (∀ view ∈ run, view.isNull = true) →
      run.flatMap KeyView.key = List.replicate run.length 48 := by
    intro run each
    induction run with
    | nil => rfl
    | cons view run ih =>
      obtain ⟨first, rest⟩ := List.forall_mem_cons.mp each
      cases view with
      | null => rw [List.flatMap_cons, ih rest]; rfl
      | _ => cases first
  cases item with
  | number className digits =>
    have whole := List.takeWhile_append_dropWhile (p := KeyView.isNull) (l := items)
    have zeros := nulls (items.takeWhile KeyView.isNull) fun view inside => List.mem_takeWhile_imp inside
    conv_rhs => rw [← whole, List.flatMap_append, zeros]
    simp only [KeyView.before, List.flatMap_cons, KeyView.key, List.append_assoc]
  | _ => rfl

mutual
/-- A value's key shows no more of it. -/
theorem keyView_key : ∀ value : EventValue, (keyView value).key = stableSortKey value
  | .null => rfl
  | .bool _ => rfl
  | .number value => by
    rw [keyView, KeyView.key, stableSortKey]
    rfl
  | .text _ => rfl
  | .map fields => by
    rw [keyView, KeyView.key, stableSortKey, fieldViewKeys_eq, fieldKeys_views fields]
    have sorted := sortOn_map textLe Prod.fst
      (fun field : Text × KeyView => (scalarKey "s" field.1, fieldViewKey field)) (fieldViews fields)
    change _ = _ ++ ((sortOn textLe Prod.fst _).flatMap Prod.snd) ++ _
    rw [sorted, List.flatMap_map]
    rfl
  | .list items => by
    rw [keyView, KeyView.key, stableSortKey, itemViewKeys_eq, itemViews_key items]
  | .other _ => rfl

theorem fieldKeys_views : ∀ fields : List (Text × EventValue), fieldKeys fields =
    (fieldViews fields).map fun field => (scalarKey "s" field.1, fieldViewKey field)
  | [] => rfl
  | (name, value) :: fields => by
    rw [fieldKeys, fieldViews, List.map_cons, fieldKeys_views fields, fieldViewKey,
      keyView_key value]

theorem itemViews_key : ∀ items : List EventValue,
    (itemViews items).flatMap KeyView.key = itemKeys items
  | [] => rfl
  | item :: items => by
    rw [itemViews, before_key, keyView_key item, itemViews_key items, itemKeys]
end

def KeyView.isNumber : KeyView → Bool
  | .number _ _ => true
  | _ => false

/-- What a captured value shows: written numbers, perhaps with zeros behind them, and no null
directly behind a number. -/
inductive KeyView.Formed : KeyView → Prop
  | null : Formed .null
  | bool (value : Bool) : Formed (.bool value)
  | number (n : JavaNumber) (zeros : Nat) :
      Formed (.number (ascii n.className) (numberText n ++ List.replicate zeros 48))
  | text (value : Text) : Formed (.text value)
  | map {fields : List (Text × KeyView)} (each : ∀ field ∈ fields, Formed field.2) :
      Formed (.map fields)
  | list {items : List KeyView} (each : ∀ item ∈ items, Formed item)
      (apart : items.IsChain fun a b => a.isNumber = true → b.isNull = false) :
      Formed (.list items)

/-- The first unit of a key. -/
def KeyView.tag : KeyView → UInt16
  | .null => 48
  | .bool _ => 98
  | .number _ _ => 110
  | .text _ => 115
  | .map _ => 123
  | .list _ => 91
  | .other _ => 99

theorem key_tag (view : KeyView) : ∃ tail, view.key = view.tag :: tail := by
  cases view with
  | bool value => cases value <;> exact ⟨_, rfl⟩
  | _ => exact ⟨_, rfl⟩

theorem tag_eq {a b : KeyView} {restA restB : Text} (same : a.key ++ restA = b.key ++ restB) :
    a.tag = b.tag := by
  obtain ⟨tailA, shownA⟩ := key_tag a
  obtain ⟨tailB, shownB⟩ := key_tag b
  rw [shownA, shownB] at same
  exact (List.cons.inj same).1

theorem tag_ne_close (view : KeyView) : view.tag ≠ 93 := by
  cases view <;> simp [KeyView.tag]

theorem EndsNumeral.cons {u : UInt16} (stop : numeralUnit u = false) (rest : Text) :
    EndsNumeral (u :: rest) := by
  intro v first
  cases first
  exact stop

theorem endsNumeral_key {view : KeyView} (occupied : view.isNull = false) (rest : Text) :
    EndsNumeral (view.key ++ rest) := by
  obtain ⟨tail, shown⟩ := key_tag view
  rw [shown]
  refine .cons ?_ _
  cases view with
  | null => cases occupied
  | _ => rfl

/-- What follows an item of a list ends it. -/
theorem endsNumeral_items {items before after : List KeyView} {item : KeyView}
    (apart : items.IsChain fun a b => a.isNumber = true → b.isNull = false)
    (whole : items = before ++ item :: after) (number : item.isNumber = true) (rest : Text) :
    EndsNumeral (after.flatMap KeyView.key ++ 93 :: rest) := by
  cases after with
  | nil => exact .cons (by decide) _
  | cons next after =>
    rw [whole, List.isChain_append_cons_cons] at apart
    rw [List.flatMap_cons, List.append_assoc]
    exact endsNumeral_key (apart.2.1 number) _

theorem scalarKey_opens (value : Text) : ∃ tail, scalarKey "s" value = 115 :: tail := ⟨_, rfl⟩

/-- What follows a field ends it. -/
theorem endsNumeral_fields (fields : List (Text × KeyView)) (rest : Text) :
    EndsNumeral (fields.flatMap fieldViewKey ++ 125 :: rest) := by
  cases fields with
  | nil => exact .cons (by decide) _
  | cons field fields =>
    obtain ⟨tail, shown⟩ := scalarKey_opens field.1
    rw [List.flatMap_cons, fieldViewKey, shown]
    exact .cons (by decide) _

theorem number_append_injective {m n : JavaNumber} {zeros more : Nat} {restA restB : Text}
    (endsA : EndsNumeral restA) (endsB : EndsNumeral restB)
    (same : (KeyView.number (ascii m.className) (numberText m ++ List.replicate zeros 48)).key ++
      restA = (KeyView.number (ascii n.className) (numberText n ++ List.replicate more 48)).key ++
      restB) :
    ascii m.className = ascii n.className ∧
      numberText m ++ List.replicate zeros 48 = numberText n ++ List.replicate more 48 ∧
      restA = restB := by
  have floats : ∀ name ∈ ["java.lang.Float", "java.lang.Double", "java.math.BigDecimal"],
      (58 : UInt16) ∉ ascii name := by decide
  have free : ∀ n : JavaNumber, (58 : UInt16) ∉ ascii n.className := by
    intro n
    cases n with
    | integral kind value =>
      change (58 : UInt16) ∉ ascii kind.className
      cases kind <;> decide
    | float value => exact floats _ (by simp [JavaNumber.className])
    | double value => exact floats _ (by simp [JavaNumber.className])
    | bigDecimal unscaled scale => exact floats _ (by simp [JavaNumber.className])
  have colon : ascii ":" = [58] := by decide
  simp only [KeyView.key, colon, List.append_assoc, List.append_cancel_left_eq,
    List.cons_append, List.nil_append] at same
  obtain ⟨classes, numbers⟩ := separated_injective (free m) (free n) same
  have read := congrArg cutNumber numbers
  rw [← List.append_assoc, ← List.append_assoc, cutNumber_append m zeros endsA,
    cutNumber_append n more endsB] at read
  exact ⟨classes, Prod.mk.inj read⟩

/-- A key tells what it shows and where it ends, except that a number must not be followed by
what could continue it. -/
theorem key_append_injective {a b : KeyView} (formedA : a.Formed) (formedB : b.Formed)
    {restA restB : Text} (endsA : a.isNumber = true → EndsNumeral restA)
    (endsB : b.isNumber = true → EndsNumeral restB)
    (same : a.key ++ restA = b.key ++ restB) : a = b ∧ restA = restB := by
  have tags := tag_eq same
  induction formedA generalizing b restA restB with
  | null =>
    cases formedB with
    | null => exact ⟨rfl, List.append_cancel_left same⟩
    | _ => simp [KeyView.tag] at tags
  | bool value =>
    cases formedB with
    | bool value' =>
      cases value <;> cases value' <;>
        first
        | exact ⟨rfl, List.append_cancel_left same⟩
        | exact absurd (List.cons.inj (List.cons.inj same).2).1 (by decide)
    | _ => simp [KeyView.tag] at tags
  | number m zeros =>
    cases formedB with
    | number n more =>
      obtain ⟨classes, digits, rest⟩ := number_append_injective (endsA rfl) (endsB rfl) same
      rw [classes, digits]
      exact ⟨rfl, rest⟩
    | _ => simp [KeyView.tag] at tags
  | text value =>
    cases formedB with
    | text value' =>
      obtain ⟨rfl, rest⟩ := scalarKey_append_injective same
      exact ⟨rfl, rest⟩
    | _ => simp [KeyView.tag] at tags
  | @list items each apart ih =>
    cases formedB with
    | @list others each' apart' =>
      simp only [KeyView.key, itemViewKeys_eq, List.append_assoc,
        List.append_cancel_left_eq] at same
      have opens : ∀ view : KeyView, ∃ first tail, view.key = first :: tail ∧ first ≠ 93 := by
        intro view
        obtain ⟨tail, shown⟩ := key_tag view
        exact ⟨_, tail, shown, tag_ne_close view⟩
      obtain ⟨paired, rest⟩ := closed_injective_behind (fun item _ => opens item)
        (fun item _ => opens item)
        (fun x left y right _ _ endsX endsY equal =>
          ih x left (each' y right) endsX endsY equal (tag_eq equal))
        (fun _ _ _ whole number => endsNumeral_items apart whole number restA)
        (fun _ _ _ whole number => endsNumeral_items apart' whole number restB) same
      rw [List.forall₂_eq_eq_eq] at paired
      exact ⟨congrArg _ paired, rest⟩
    | _ => simp [KeyView.tag] at tags
  | @map fields each ih =>
    cases formedB with
    | @map others each' =>
      simp only [KeyView.key, fieldViewKeys_eq, List.append_assoc,
        List.append_cancel_left_eq] at same
      have opens : ∀ field : Text × KeyView, ∃ first tail,
          fieldViewKey field = first :: tail ∧ first ≠ 125 := by
        intro field
        obtain ⟨tail, shown⟩ := scalarKey_opens field.1
        exact ⟨_, tail ++ field.2.key, by rw [fieldViewKey, shown]; rfl, by decide⟩
      have one : ∀ x ∈ fields, ∀ y ∈ others, ∀ restX restY,
          (x.2.isNumber = true → EndsNumeral restX) → (y.2.isNumber = true → EndsNumeral restY) →
          fieldViewKey x ++ restX = fieldViewKey y ++ restY → x = y ∧ restX = restY := by
        intro x left y right restX restY endsX endsY equal
        simp only [fieldViewKey, List.append_assoc] at equal
        obtain ⟨names, later⟩ := scalarKey_append_injective equal
        obtain ⟨values, rest⟩ := ih x left (each' y right) endsX endsY later (tag_eq later)
        exact ⟨Prod.ext names values, rest⟩
      obtain ⟨paired, rest⟩ := closed_injective_behind (fun field _ => opens field)
        (fun field _ => opens field) one
        (fun _ _ after _ _ => endsNumeral_fields after restA)
        (fun _ _ after _ _ => endsNumeral_fields after restB) same
      rw [List.forall₂_eq_eq_eq] at paired
      exact ⟨congrArg _ paired, rest⟩
    | _ => simp [KeyView.tag] at tags

/-- Nothing that is shown by its class name alone. -/
inductive Plain : EventValue → Prop
  | null : Plain .null
  | bool (value : Bool) : Plain (.bool value)
  | number (value : JavaNumber) : Plain (.number value)
  | text (value : Text) : Plain (.text value)
  | list {items : List EventValue} (each : ∀ item ∈ items, Plain item) : Plain (.list items)
  | map {fields : List (Text × EventValue)} (each : ∀ field ∈ fields, Plain field.2) :
      Plain (.map fields)

theorem before_formed {item : KeyView} {items : List KeyView} (formed : item.Formed)
    (each : ∀ view ∈ items, view.Formed)
    (apart : items.IsChain fun a b => a.isNumber = true → b.isNull = false) :
    (∀ view ∈ item.before items, view.Formed) ∧
      (item.before items).IsChain fun a b => a.isNumber = true → b.isNull = false := by
  cases formed with
  | number n zeros =>
    constructor
    · refine List.forall_mem_cons.mpr ⟨?_, fun view inside => ?_⟩
      · rw [List.append_assoc, List.replicate_append_replicate]
        exact .number n _
      · exact each view ((List.dropWhile_suffix _).subset inside)
    · refine (apart.suffix (List.dropWhile_suffix _)).cons fun view first _ => ?_
      have stop := List.head?_dropWhile_not KeyView.isNull items
      rw [Option.mem_def.mp first] at stop
      simpa using stop
  | null => exact ⟨List.forall_mem_cons.mpr ⟨.null, each⟩, apart.cons fun _ _ number => nomatch number⟩
  | bool value =>
    exact ⟨List.forall_mem_cons.mpr ⟨.bool value, each⟩, apart.cons fun _ _ number => nomatch number⟩
  | text value =>
    exact ⟨List.forall_mem_cons.mpr ⟨.text value, each⟩, apart.cons fun _ _ number => nomatch number⟩
  | map inside =>
    exact ⟨List.forall_mem_cons.mpr ⟨.map inside, each⟩, apart.cons fun _ _ number => nomatch number⟩
  | list inside chain =>
    exact ⟨List.forall_mem_cons.mpr ⟨.list inside chain, each⟩,
      apart.cons fun _ _ number => nomatch number⟩

theorem itemViews_formed {items : List EventValue} (each : ∀ item ∈ items, (keyView item).Formed) :
    (∀ view ∈ itemViews items, view.Formed) ∧
      (itemViews items).IsChain fun a b => a.isNumber = true → b.isNull = false := by
  induction items with
  | nil => exact ⟨nofun, .nil⟩
  | cons item items ih =>
    obtain ⟨first, rest⟩ := List.forall_mem_cons.mp each
    obtain ⟨formed, apart⟩ := ih rest
    exact before_formed first formed apart

theorem keyView_formed {value : EventValue} (plain : Plain value) : (keyView value).Formed := by
  induction plain with
  | null => exact .null
  | bool value => exact .bool value
  | number value =>
    have bare := KeyView.Formed.number value 0
    rwa [List.replicate_zero, List.append_nil] at bare
  | text value => exact .text value
  | list each ih =>
    obtain ⟨formed, apart⟩ := itemViews_formed ih
    exact .list formed apart
  | map each ih =>
    refine .map fun field inside => ?_
    have listed := (List.mergeSort_perm _ _).subset inside
    rw [fieldViews_eq] at listed
    obtain ⟨source, member, rfl⟩ := List.mem_map.mp listed
    exact ih source member

/-- Two captured values have one key exactly when they are the same but for nulls directly
behind a number in a list, which read as zeros. -/
theorem stableSortKey_eq_iff {a b : EventValue} (plainA : Plain a) (plainB : Plain b) :
    stableSortKey a = stableSortKey b ↔ keyView a = keyView b := by
  rw [← keyView_key, ← keyView_key]
  constructor
  · intro same
    have ends : EndsNumeral [] := nofun
    exact (key_append_injective (keyView_formed plainA) (keyView_formed plainB) (fun _ => ends)
      (fun _ => ends) (congrArg (· ++ []) same)).1
  · exact congrArg KeyView.key

end Walaru.Agent
