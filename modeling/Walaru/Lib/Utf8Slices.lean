import Walaru.Lib.Text

/-!
# Slices of UTF-8 text

Text cut at byte positions, which fails inside a character, and the first split of a list
that meets a condition. What is found by its ASCII bytes stands at a character boundary.
-/
namespace Walaru.Lib.Utf8Slices

def encode (text : List Char) : List UInt8 := text.flatMap String.utf8EncodeChar

def bytes (text : List Char) : Nat := (encode text).length

/-- The sides of a byte position; `none` inside a character and behind the end. -/
def splitBytes : Nat → List Char → Option (List Char × List Char)
  | 0, text => some ([], text)
  | _ + 1, [] => none
  | n + 1, c :: rest =>
    if c.utf8Size ≤ n + 1 then
      (splitBytes (n + 1 - c.utf8Size) rest).map fun sides => (c :: sides.1, sides.2)
    else none

/-- What stands between two byte positions. -/
def slice (text : List Char) (start stop : Nat) : Option (List Char) := do
  let (front, _) ← splitBytes stop text
  let (_, middle) ← splitBytes start front
  return middle

theorem length_encodeChar (c : Char) : (String.utf8EncodeChar c).length = c.utf8Size :=
  String.length_utf8EncodeChar c

theorem bytes_cons (c : Char) (text : List Char) : bytes (c :: text) = c.utf8Size + bytes text := by
  rw [bytes, encode, List.flatMap_cons, List.length_append, length_encodeChar]
  rfl

theorem encode_append (front back : List Char) : encode (front ++ back) = encode front ++ encode back := by
  unfold encode
  exact List.flatMap_append

theorem bytes_append (front back : List Char) : bytes (front ++ back) = bytes front + bytes back := by
  rw [bytes, encode_append, List.length_append]
  rfl

/-- A character with an ASCII byte is that byte. -/
theorem encodeChar_ascii {c : Char} {b : UInt8} (inside : b ∈ String.utf8EncodeChar c)
    (ascii : b.toNat < 128) : String.utf8EncodeChar c = [b] ∧ c.toNat = b.toNat := by
  have wide : ∀ n, 128 ≤ n → n < 256 → b ≠ UInt8.ofNat n := by
    rintro n low high rfl
    rw [UInt8.toNat_ofNat'] at ascii
    omega
  have code : c.toNat = c.val.toNat := rfl
  have bound : c.val.toNat < 1114112 := by
    have valid := c.valid
    simp only [UInt32.isValidChar, Nat.isValidChar] at valid
    omega
  unfold String.utf8EncodeChar at inside ⊢
  dsimp only at inside ⊢
  rw [code]
  generalize c.val.toNat = v at *
  split at inside
  · rename_i small
    rw [if_pos small]
    obtain rfl := List.mem_singleton.mp inside
    rw [UInt8.toNat_ofNat']
    exact ⟨rfl, by omega⟩
  · exfalso
    split at inside
    · simp only [List.mem_cons, List.not_mem_nil, or_false] at inside
      rcases inside with same | same
      · exact wide _ (by omega) (by omega) same
      · exact wide _ (by omega) (by omega) same
    · split at inside
      · simp only [List.mem_cons, List.not_mem_nil, or_false] at inside
        rcases inside with same | same | same
        · exact wide _ (by omega) (by omega) same
        · exact wide _ (by omega) (by omega) same
        · exact wide _ (by omega) (by omega) same
      · simp only [List.mem_cons, List.not_mem_nil, or_false] at inside
        rcases inside with same | same | same | same
        · exact wide _ (by omega) (by omega) same
        · exact wide _ (by omega) (by omega) same
        · exact wide _ (by omega) (by omega) same
        · exact wide _ (by omega) (by omega) same

theorem splitBytes_zero (text : List Char) : splitBytes 0 text = some ([], text) := by
  cases text <;> rfl

theorem splitBytes_append (front back : List Char) :
    splitBytes (bytes front) (front ++ back) = some (front, back) := by
  induction front with
  | nil => exact splitBytes_zero back
  | cons c front ih =>
    have positive := c.utf8Size_pos
    rw [bytes_cons, List.cons_append]
    obtain ⟨n, whole⟩ : ∃ n, c.utf8Size + bytes front = n + 1 := ⟨c.utf8Size + bytes front - 1, by omega⟩
    rw [whole, splitBytes, if_pos (by omega), ← whole, Nat.add_sub_cancel_left, ih]
    rfl

theorem slice_append (front middle back : List Char) :
    slice (front ++ middle ++ back) (bytes front) (bytes (front ++ middle)) = some middle := by
  unfold slice
  rw [splitBytes_append, Option.bind_eq_bind, Option.bind_some]
  dsimp only
  rw [splitBytes_append]
  rfl

/-- An ASCII byte is a character of the text. -/
theorem ascii_boundary {text : List Char} {n : Nat} {b : UInt8} (found : (encode text)[n]? = some b)
    (ascii : b.toNat < 128) :
    ∃ front c back, text = front ++ c :: back ∧ bytes front = n ∧ c.toNat = b.toNat := by
  induction text generalizing n with
  | nil => simp [encode] at found
  | cons c text ih =>
    rw [encode, List.flatMap_cons] at found
    by_cases own : n < (String.utf8EncodeChar c).length
    · rw [List.getElem?_append_left own] at found
      obtain ⟨single, code⟩ := encodeChar_ascii (List.mem_of_getElem? found) ascii
      rw [single, List.length_singleton] at own
      exact ⟨[], c, text, rfl, by rw [bytes, encode]; simp; omega, code⟩
    · rw [List.getElem?_append_right (by omega)] at found
      obtain ⟨front, d, back, whole, size, code⟩ := ih found
      refine ⟨c :: front, d, back, by rw [whole, List.cons_append], ?_, code⟩
      rw [bytes_cons, size, ← length_encodeChar]
      omega

theorem bytes_eq_zero {text : List Char} : bytes text = 0 ↔ text = [] := by
  cases text with
  | nil => exact ⟨fun _ => rfl, fun _ => rfl⟩
  | cons c text =>
    have positive := c.utf8Size_pos
    rw [bytes_cons]
    exact ⟨fun zero => by omega, nofun⟩

/-- The fronts of two splits are in the order of their bytes. -/
theorem front_of_bytes_le {left right front back : List Char} (same : left ++ right = front ++ back)
    (order : bytes left ≤ bytes front) : ∃ middle, front = left ++ middle ∧ right = middle ++ back := by
  rcases List.append_eq_append_iff.mp same with ⟨middle, inside, rest⟩ | ⟨middle, inside, rest⟩
  · exact ⟨middle, inside, rest⟩
  · rw [inside, bytes_append] at order
    obtain rfl : middle = [] := bytes_eq_zero.mp (by omega)
    rw [List.append_nil] at inside
    rw [List.nil_append] at rest
    exact ⟨[], by rw [inside, List.append_nil], rest.symm⟩

/-- Of two splits, the one with fewer bytes in front has fewer characters there. -/
theorem bytes_lt_iff {left right front back : List Char} (same : left ++ right = front ++ back) :
    bytes left < bytes front ↔ left.length < front.length := by
  by_cases order : bytes left ≤ bytes front
  · obtain ⟨middle, rfl, -⟩ := front_of_bytes_le same order
    have empty := @bytes_eq_zero middle
    rw [bytes_append, List.length_append]
    have length := @List.length_eq_zero_iff _ middle
    constructor
    · intro more
      have occupied : middle.length ≠ 0 := fun zero => by
        have none_ := empty.mpr (length.mp zero)
        omega
      omega
    · intro more
      have occupied : bytes middle ≠ 0 := fun zero => by
        have none_ := length.mpr (empty.mp zero)
        omega
      omega
  · obtain ⟨middle, rfl, -⟩ := front_of_bytes_le same.symm (by omega)
    rw [List.length_append]
    omega

section FirstSplit
variable {α : Type*}

/-- The first split of what follows `front` that the condition admits. -/
def firstSplit (p : List α → List α → Bool) : List α → List α → Option (List α × List α)
  | front, [] => if p front [] then some (front, []) else none
  | front, a :: back =>
    if p front (a :: back) then some (front, a :: back) else firstSplit p (front ++ [a]) back

theorem firstSplit_eq_none {p : List α → List α → Bool} {front back : List α} :
    firstSplit p front back = none ↔
      ∀ early late, back = early ++ late → p (front ++ early) late = false := by
  induction back generalizing front with
  | nil =>
    rw [firstSplit, ite_eq_right_iff]
    constructor
    · intro fails early late whole
      obtain ⟨rfl, rfl⟩ := List.append_eq_nil_iff.mp whole.symm
      rw [List.append_nil, Bool.eq_false_iff]
      exact fun holds => nomatch fails holds
    · intro fails holds
      have here := fails [] [] rfl
      rw [List.append_nil, holds] at here
      cases here
  | cons a back ih =>
    rw [firstSplit]
    by_cases holds : p front (a :: back) = true
    · rw [if_pos holds]
      refine ⟨nofun, fun fails => ?_⟩
      have here := fails [] (a :: back) rfl
      rw [List.append_nil, holds] at here
      cases here
    · rw [if_neg holds, ih]
      constructor
      · intro fails early late whole
        cases early with
        | nil =>
          rw [List.append_nil, ← List.nil_append late, ← whole]
          simpa using holds
        | cons b early =>
          obtain ⟨rfl, rest⟩ := List.cons.inj whole
          have later := fails early late rest
          rwa [List.append_assoc] at later
      · intro fails early late whole
        have later := fails (a :: early) late (by rw [whole, List.cons_append])
        rwa [List.append_assoc]

theorem firstSplit_eq_some {p : List α → List α → Bool} {front back left right : List α} :
    firstSplit p front back = some (left, right) ↔
      ∃ middle, left = front ++ middle ∧ back = middle ++ right ∧ p left right = true ∧
        ∀ early late, middle = early ++ late → late ≠ [] →
          p (front ++ early) (late ++ right) = false := by
  induction back generalizing front with
  | nil =>
    rw [firstSplit]
    constructor
    · intro found
      obtain ⟨holds, same⟩ := Option.ite_none_right_eq_some.mp found
      cases same
      refine ⟨[], (List.append_nil _).symm, rfl, holds, fun early late whole occupied => ?_⟩
      exact absurd (List.append_eq_nil_iff.mp whole.symm).2 occupied
    · rintro ⟨middle, rfl, whole, holds, -⟩
      obtain ⟨rfl, rfl⟩ := List.append_eq_nil_iff.mp whole.symm
      rw [List.append_nil] at holds ⊢
      rw [if_pos holds]
  | cons a back ih =>
    rw [firstSplit]
    by_cases here : p front (a :: back) = true
    · rw [if_pos here]
      constructor
      · intro found
        cases found
        refine ⟨[], (List.append_nil _).symm, rfl, here, fun early late whole occupied => ?_⟩
        exact absurd (List.append_eq_nil_iff.mp whole.symm).2 occupied
      · rintro ⟨middle, rfl, whole, -, fails⟩
        cases middle with
        | nil => rw [List.append_nil, whole, List.nil_append]
        | cons b middle =>
          have first := fails [] (b :: middle) rfl (List.cons_ne_nil _ _)
          rw [List.append_nil, ← whole, here] at first
          cases first
    · rw [if_neg here, ih]
      constructor
      · rintro ⟨middle, rfl, rfl, holds, fails⟩
        refine ⟨a :: middle, by rw [List.append_assoc]; rfl, rfl, holds, fun early late whole occupied => ?_⟩
        cases early with
        | nil =>
          rw [List.append_nil, ← List.nil_append late, ← whole]
          simpa using here
        | cons b early =>
          obtain ⟨rfl, rest⟩ := List.cons.inj whole
          have later := fails early late rest occupied
          rwa [List.append_assoc] at later
      · rintro ⟨middle, rfl, whole, holds, fails⟩
        cases middle with
        | nil =>
          rw [List.append_nil] at holds
          rw [List.nil_append] at whole
          exact absurd (whole ▸ holds) here
        | cons b middle =>
          obtain ⟨rfl, rest⟩ := List.cons.inj whole
          refine ⟨middle, by rw [List.append_assoc]; rfl, rest, holds, fun early late split occupied => ?_⟩
          have later := fails (a :: early) late (by rw [split, List.cons_append]) occupied
          rwa [List.append_assoc]

theorem firstSplit_append {p : List α → List α → Bool} {front back left right : List α}
    (found : firstSplit p front back = some (left, right)) : left ++ right = front ++ back := by
  obtain ⟨middle, rfl, rfl, -, -⟩ := (firstSplit_eq_some).mp found
  rw [List.append_assoc]

theorem firstSplit_holds {p : List α → List α → Bool} {front back left right : List α}
    (found : firstSplit p front back = some (left, right)) : p left right = true := by
  obtain ⟨_, _, _, holds, _⟩ := (firstSplit_eq_some).mp found
  exact holds

/-- The first place is no later than any other. -/
theorem firstSplit_le {p : List α → List α → Bool} {front early late : List α}
    (holds : p (front ++ early) late = true) :
    ∃ left right, firstSplit p front (early ++ late) = some (left, right) ∧
      left.length ≤ (front ++ early).length := by
  cases first : firstSplit p front (early ++ late) with
  | none =>
    have fails := firstSplit_eq_none.mp first early late rfl
    rw [holds] at fails
    cases fails
  | some sides =>
    obtain ⟨left, right⟩ := sides
    refine ⟨left, right, rfl, ?_⟩
    obtain ⟨middle, rfl, whole, -, fails⟩ := (firstSplit_eq_some).mp first
    rcases List.append_eq_append_iff.mp whole with ⟨gap, inside, rest⟩ | ⟨gap, inside, rest⟩
    · -- here the condition would hold before its first place
      by_cases empty : gap = []
      · exact Nat.le_of_eq (by rw [inside, empty, List.append_nil])
      · have later := fails early gap inside empty
        rw [← rest, holds] at later
        cases later
    · rw [inside, List.length_append, List.length_append, List.length_append]
      omega

/-- A weaker condition is met no later. -/
theorem firstSplit_weaker {strong weak : List α → List α → Bool}
    (weaker : ∀ left right, strong left right = true → weak left right = true)
    {front back left right : List α} (found : firstSplit strong front back = some (left, right)) :
    ∃ left' right', firstSplit weak front back = some (left', right') ∧ left'.length ≤ left.length := by
  obtain ⟨middle, rfl, rfl, holds, -⟩ := (firstSplit_eq_some).mp found
  exact firstSplit_le (weaker _ _ holds)

theorem firstSplit_none_of_weaker {strong weak : List α → List α → Bool}
    (weaker : ∀ left right, strong left right = true → weak left right = true)
    {front back : List α} (none_ : firstSplit weak front back = none) :
    firstSplit strong front back = none := by
  cases found : firstSplit strong front back with
  | none => rfl
  | some sides =>
    obtain ⟨_, _, first, -⟩ := firstSplit_weaker weaker found
    rw [none_] at first
    cases first

/-- Where the first place of a weaker condition meets a stronger one, that is its first place too. -/
theorem firstSplit_of_weaker {strong weak : List α → List α → Bool}
    (weaker : ∀ left right, strong left right = true → weak left right = true)
    {front back left right : List α} (found : firstSplit weak front back = some (left, right))
    (holds : strong left right = true) : firstSplit strong front back = some (left, right) := by
  obtain ⟨middle, rfl, rfl, -, fails⟩ := (firstSplit_eq_some).mp found
  refine firstSplit_eq_some.mpr ⟨middle, rfl, rfl, holds, fun early late split occupied => ?_⟩
  rw [Bool.eq_false_iff]
  intro earlier
  have later := fails early late split occupied
  rw [weaker _ _ earlier] at later
  cases later

end FirstSplit

end Walaru.Lib.Utf8Slices
