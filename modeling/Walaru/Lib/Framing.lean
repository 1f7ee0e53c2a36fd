import Mathlib.Data.List.Forall2
import Mathlib.Data.Nat.ModEq

/-!
# Length-prefixed byte strings

A frame is a fixed-width big-endian length and then the bytes. A concatenation of
frames whose lengths fit the width can be taken apart again. A decimal frame writes
its length in digits up to a colon, so that no length is too long for it; a closed
sequence ends at a byte that opens none of its members. Terminated parts are found from
both ends as long as they are free of the separator.
-/
namespace Walaru.Lib.Framing

/-- The `width` low bytes of `n`, most significant first. -/
def bigEndian : Nat → Nat → List UInt8
  | 0, _ => []
  | width + 1, n => UInt8.ofNat (n / 256 ^ width % 256) :: bigEndian width n

@[simp] theorem bigEndian_length (width n : Nat) : (bigEndian width n).length = width := by
  induction width with
  | zero => rfl
  | succ width ih => simp [bigEndian, ih]

theorem bigEndian_mod {width a b : Nat} (same : bigEndian width a = bigEndian width b) :
    a % 256 ^ width = b % 256 ^ width := by
  induction width with
  | zero => simp [Nat.mod_one]
  | succ width ih =>
    simp only [bigEndian, List.cons.injEq] at same
    have leading : a / 256 ^ width % 256 = b / 256 ^ width % 256 := by
      have digits := congrArg UInt8.toNat same.1
      simpa using digits
    rw [Nat.mod_pow_succ, Nat.mod_pow_succ, ih same.2, leading]

theorem bigEndian_injective {width a b : Nat} (boundA : a < 256 ^ width) (boundB : b < 256 ^ width)
    (same : bigEndian width a = bigEndian width b) : a = b := by
  have equal := bigEndian_mod same
  rwa [Nat.mod_eq_of_lt boundA, Nat.mod_eq_of_lt boundB] at equal

def frame (width : Nat) (value : List UInt8) : List UInt8 :=
  bigEndian width value.length ++ value

theorem frame_append_injective {width : Nat} {a b restA restB : List UInt8}
    (boundA : a.length < 256 ^ width) (boundB : b.length < 256 ^ width)
    (same : frame width a ++ restA = frame width b ++ restB) : a = b ∧ restA = restB := by
  unfold frame at same
  rw [List.append_assoc, List.append_assoc] at same
  obtain ⟨lengths, rest⟩ := List.append_inj same (by simp)
  exact List.append_inj rest (bigEndian_injective boundA boundB lengths)

/-- A sequence of frames determines what was framed. -/
theorem frames_injective {width : Nat} (positive : 0 < width) {as bs : List (List UInt8)}
    (boundA : ∀ a ∈ as, a.length < 256 ^ width) (boundB : ∀ b ∈ bs, b.length < 256 ^ width)
    (same : as.flatMap (frame width) = bs.flatMap (frame width)) : as = bs := by
  have occupied : ∀ (value rest : List UInt8), frame width value ++ rest ≠ [] := by
    intro value rest empty
    have size := congrArg List.length empty
    simp only [frame, List.length_append, bigEndian_length, List.length_nil] at size
    omega
  induction as generalizing bs with
  | nil =>
    cases bs with
    | nil => rfl
    | cons b bs => exact absurd same.symm (occupied b _)
  | cons a as ih =>
    cases bs with
    | nil => exact absurd same (occupied a _)
    | cons b bs =>
      simp only [List.mem_cons, forall_eq_or_imp] at boundA boundB
      obtain ⟨rfl, rest⟩ := frame_append_injective boundA.1 boundB.1 same
      rw [ih boundA.2 boundB.2 rest]

/-- Two texts that end at their first separator. -/
theorem separated_injective {α : Type} {separator : α} {a b restA restB : List α}
    (freeA : separator ∉ a) (freeB : separator ∉ b)
    (same : a ++ separator :: restA = b ++ separator :: restB) : a = b ∧ restA = restB := by
  rcases List.append_eq_append_iff.mp same with ⟨more, rfl, tail⟩ | ⟨more, rfl, tail⟩
  · cases more with
    | nil => simpa using tail
    | cons c more =>
      obtain ⟨rfl, -⟩ := List.cons.inj tail
      exact absurd (List.mem_append_right a List.mem_cons_self) freeB
  · cases more with
    | nil => simpa [eq_comm] using tail
    | cons c more =>
      obtain ⟨rfl, -⟩ := List.cons.inj tail
      exact absurd (List.mem_append_right b List.mem_cons_self) freeA

def digitByte (c : Char) : UInt8 := UInt8.ofNat c.toNat

/-- The decimal digits of `n`. -/
def decimalLength (n : Nat) : List UInt8 := (Nat.toDigits 10 n).map digitByte

theorem digitByte_toNat {c : Char} (digit : c.isDigit = true) :
    (digitByte c).toNat = c.toNat ∧ 48 ≤ c.toNat ∧ c.toNat ≤ 57 := by
  have range : 48 ≤ c.toNat ∧ c.toNat ≤ 57 := by
    simp only [Char.isDigit, Bool.and_eq_true, decide_eq_true_eq, UInt32.le_iff_toNat_le] at digit
    exact digit
  refine ⟨?_, range⟩
  rw [digitByte, UInt8.toNat_ofNat']
  omega

theorem decimalLength_injective {a b : Nat} (same : decimalLength a = decimalLength b) : a = b := by
  have back : ∀ n, (decimalLength n).map (fun b => Char.ofNat b.toNat) = Nat.toDigits 10 n := by
    intro n
    rw [decimalLength, List.map_map]
    refine (List.map_congr_left fun c digit => ?_).trans (List.map_id _)
    have value := digitByte_toNat (Nat.isDigit_of_mem_toDigits (by omega) (by omega) digit)
    rw [Function.comp_apply, value.1, Char.ofNat_toNat, id]
  have values : Nat.ofDigitChars 10 (Nat.toDigits 10 a) 0 = Nat.ofDigitChars 10 (Nat.toDigits 10 b) 0 := by
    rw [← back a, ← back b, same]
  simpa only [Nat.ofDigitChars_ten_toDigits] using values

theorem colon_not_mem_decimalLength (n : Nat) : 58 ∉ decimalLength n := by
  intro member
  obtain ⟨c, digit, colon⟩ := List.mem_map.mp member
  have value := digitByte_toNat (Nat.isDigit_of_mem_toDigits (by omega) (by omega) digit)
  rw [colon] at value
  have : (58 : UInt8).toNat = 58 := rfl
  omega

/-- The length in decimal, a colon, the bytes. -/
def decimalFrame (value : List UInt8) : List UInt8 := decimalLength value.length ++ 58 :: value

theorem decimalFrame_append_injective {a b restA restB : List UInt8}
    (same : decimalFrame a ++ restA = decimalFrame b ++ restB) : a = b ∧ restA = restB := by
  simp only [decimalFrame, List.append_assoc, List.cons_append] at same
  obtain ⟨lengths, rest⟩ := separated_injective (colon_not_mem_decimalLength _)
    (colon_not_mem_decimalLength _) same
  exact List.append_inj rest (decimalLength_injective lengths)

/-- Members that end where they end, when what may follow each follows it, make a sequence
that ends at its closing symbol. -/
theorem closed_injective_behind {α β γ : Type} {related : α → β → Prop} {encA : α → List γ}
    {encB : β → List γ} {mayA : α → List γ → Prop} {mayB : β → List γ → Prop} {close : γ}
    {as : List α} {bs : List β} {restA restB : List γ}
    (openA : ∀ a ∈ as, ∃ first tail, encA a = first :: tail ∧ first ≠ close)
    (openB : ∀ b ∈ bs, ∃ first tail, encB b = first :: tail ∧ first ≠ close)
    (unique : ∀ a ∈ as, ∀ b ∈ bs, ∀ restA restB, mayA a restA → mayB b restB →
      encA a ++ restA = encB b ++ restB → related a b ∧ restA = restB)
    (behindA : ∀ before a after, as = before ++ a :: after →
      mayA a (after.flatMap encA ++ close :: restA))
    (behindB : ∀ before b after, bs = before ++ b :: after →
      mayB b (after.flatMap encB ++ close :: restB))
    (same : as.flatMap encA ++ close :: restA = bs.flatMap encB ++ close :: restB) :
    List.Forall₂ related as bs ∧ restA = restB := by
  induction as generalizing bs with
  | nil =>
    cases bs with
    | nil => exact ⟨.nil, by simpa using same⟩
    | cons b bs =>
      obtain ⟨first, tail, encoded, opens⟩ := openB b List.mem_cons_self
      simp only [List.flatMap_nil, List.nil_append, List.flatMap_cons, encoded, List.cons_append,
        List.cons.injEq] at same
      exact absurd same.1.symm opens
  | cons a as ih =>
    cases bs with
    | nil =>
      obtain ⟨first, tail, encoded, opens⟩ := openA a List.mem_cons_self
      simp only [List.flatMap_nil, List.nil_append, List.flatMap_cons, encoded, List.cons_append,
        List.cons.injEq] at same
      exact absurd same.1 opens
    | cons b bs =>
      rw [List.flatMap_cons, List.flatMap_cons, List.append_assoc, List.append_assoc] at same
      obtain ⟨head, later⟩ := unique a List.mem_cons_self b List.mem_cons_self _ _
        (behindA [] a as rfl) (behindB [] b bs rfl) same
      obtain ⟨tail, rest⟩ := ih (fun x member => openA x (List.mem_cons_of_mem _ member))
        (fun x member => openB x (List.mem_cons_of_mem _ member))
        (fun x left y right => unique x (List.mem_cons_of_mem _ left) y (List.mem_cons_of_mem _ right))
        (fun before x after whole => behindA (a :: before) x after (congrArg (a :: ·) whole))
        (fun before y after whole => behindB (b :: before) y after (congrArg (b :: ·) whole))
        later
      exact ⟨.cons head tail, rest⟩

/-- Members that end where they end, up to a relation, make a sequence that ends at
its closing symbol. -/
theorem closed_injective {α β γ : Type} {related : α → β → Prop} {encA : α → List γ}
    {encB : β → List γ} {close : γ} {as : List α} {bs : List β} {restA restB : List γ}
    (openA : ∀ a ∈ as, ∃ first tail, encA a = first :: tail ∧ first ≠ close)
    (openB : ∀ b ∈ bs, ∃ first tail, encB b = first :: tail ∧ first ≠ close)
    (unique : ∀ a ∈ as, ∀ b ∈ bs, ∀ restA restB, encA a ++ restA = encB b ++ restB →
      related a b ∧ restA = restB)
    (same : as.flatMap encA ++ close :: restA = bs.flatMap encB ++ close :: restB) :
    List.Forall₂ related as bs ∧ restA = restB :=
  closed_injective_behind openA openB
    (fun a left b right restA restB (_ : True) (_ : True) => unique a left b right restA restB)
    (fun _ _ _ _ => trivial) (fun _ _ _ _ => trivial) same

/-- Each part, and the separator behind it. -/
def terminated {α : Type} (separator : α) (parts : List (List α)) : List α :=
  parts.flatMap fun part => part ++ [separator]

theorem terminated_cons {α : Type} (separator : α) (part : List α) (parts : List (List α)) :
    terminated separator (part :: parts) = part ++ separator :: terminated separator parts := by
  simp [terminated]

theorem terminated_append {α : Type} (separator : α) (front back : List (List α)) :
    terminated separator (front ++ back) = terminated separator front ++ terminated separator back :=
  List.flatMap_append

/-- Behind one separator, terminated parts read the same backwards. -/
theorem reverse_terminated {α : Type} (separator : α) (parts : List (List α)) :
    (separator :: terminated separator parts).reverse =
      separator :: terminated separator (parts.reverse.map List.reverse) := by
  induction parts with
  | nil => rfl
  | cons part parts ih =>
    have around : separator :: terminated separator (part :: parts) =
        separator :: part ++ (separator :: terminated separator parts) := by
      rw [terminated_cons, List.cons_append]
    rw [around, List.reverse_append, ih, List.reverse_cons, List.reverse_cons, List.map_append,
      terminated_append]
    simp [terminated]

section Terminated
variable {α : Type} {separator : α} {as bs : List (List α)} {restA restB : List α}

theorem terminated_front (count : as.length = bs.length) (freeA : ∀ a ∈ as, separator ∉ a)
    (freeB : ∀ b ∈ bs, separator ∉ b)
    (same : terminated separator as ++ restA = terminated separator bs ++ restB) :
    as = bs ∧ restA = restB := by
  induction as generalizing bs with
  | nil =>
    rw [List.length_nil] at count
    obtain rfl := List.eq_nil_of_length_eq_zero count.symm
    exact ⟨rfl, same⟩
  | cons a as ih =>
    cases bs with
    | nil => cases count
    | cons b bs =>
      rw [List.forall_mem_cons] at freeA freeB
      simp only [terminated_cons, List.append_assoc, List.cons_append] at same
      obtain ⟨rfl, later⟩ := separated_injective freeA.1 freeB.1 same
      obtain ⟨rfl, rests⟩ := ih (Nat.succ.inj count) freeA.2 freeB.2 later
      exact ⟨rfl, rests⟩

theorem terminated_back (count : as.length = bs.length) (freeA : ∀ a ∈ as, separator ∉ a)
    (freeB : ∀ b ∈ bs, separator ∉ b)
    (same : restA ++ separator :: terminated separator as =
      restB ++ separator :: terminated separator bs) :
    as = bs ∧ restA = restB := by
  have backwards := congrArg List.reverse same
  rw [List.reverse_append, List.reverse_append, reverse_terminated, reverse_terminated,
    List.cons_append, List.cons_append] at backwards
  have free : ∀ parts : List (List α), (∀ part ∈ parts, separator ∉ part) →
      ∀ part ∈ parts.reverse.map List.reverse, separator ∉ part := by
    intro parts free part member
    obtain ⟨origin, inside, rfl⟩ := List.mem_map.mp member
    rw [List.mem_reverse]
    exact free origin (List.mem_reverse.mp inside)
  obtain ⟨parts, rests⟩ := terminated_front (by simpa using count) (free as freeA) (free bs freeB)
    (List.cons.inj backwards).2
  have reversed := (List.map_injective_iff.mpr List.reverse_injective) parts
  exact ⟨List.reverse_injective reversed, List.reverse_injective rests⟩

/-- One part may hold anything: the parts before it are found from the front, the parts
behind it from the back. -/
theorem terminated_around {frontA frontB backA backB : List (List α)} {a b : List α}
    (fronts : frontA.length = frontB.length) (backs : backA.length = backB.length)
    (freeA : ∀ part ∈ frontA ++ backA, separator ∉ part)
    (freeB : ∀ part ∈ frontB ++ backB, separator ∉ part)
    (same : terminated separator (frontA ++ a :: backA) =
      terminated separator (frontB ++ b :: backB)) :
    frontA = frontB ∧ a = b ∧ backA = backB := by
  rw [List.forall_mem_append] at freeA freeB
  rw [terminated_append, terminated_append] at same
  obtain ⟨front, behind⟩ := terminated_front fronts freeA.1 freeB.1 same
  rw [terminated_cons, terminated_cons] at behind
  obtain ⟨back, middle⟩ := terminated_back backs freeA.2 freeB.2 behind
  exact ⟨front, middle, back⟩

end Terminated

end Walaru.Lib.Framing
