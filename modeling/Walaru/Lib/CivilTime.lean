import Mathlib.Data.Nat.ModEq
import Mathlib.Algebra.Order.Group.Nat
import Mathlib.Tactic.IntervalCases

/-!
# Points of time and their RFC 3339 text

A point of time in UTC by its calendar fields, its distance in nanoseconds from the
year zero, and its RFC 3339 text with as many fraction digits as it needs: none,
three, six or nine. Texts order as the points of time do, although their lengths
differ, because the sign of the offset orders before the point and every digit.
-/
namespace Walaru.Lib.CivilTime

/-- Positions in consecutive blocks order by block, then inside the block. -/
theorem radix_lt_iff (start size : Nat → Nat) (step : ∀ n, start (n + 1) = start n + size n)
    {a b x y : Nat} (insideA : x < size a) (insideB : y < size b) :
    start a + x < start b + y ↔ a < b ∨ a = b ∧ x < y := by
  have later : ∀ m n, m < n → start m + size m ≤ start n := by
    intro m n less
    induction n, less using Nat.le_induction with
    | base => exact (step m).ge
    | succ n _ ih => exact ih.trans (by rw [step n]; omega)
  rcases Nat.lt_trichotomy a b with less | rfl | less
  · have := later a b less
    omega
  · omega
  · have := later b a less
    omega

theorem digits_lt_iff {a b x y size : Nat} (insideA : x < size) (insideB : y < size) :
    a * size + x < b * size + y ↔ a < b ∨ a = b ∧ x < y :=
  radix_lt_iff (fun n => n * size) (fun _ => size) (fun n => Nat.succ_mul n size) insideA insideB

def isLeap (year : Nat) : Bool := year % 4 = 0 && (year % 100 ≠ 0 || year % 400 = 0)

def daysInYear (year : Nat) : Nat := if isLeap year then 366 else 365

def daysInMonth (year month : Nat) : Nat :=
  if month = 2 then if isLeap year then 29 else 28
  else if month = 4 ∨ month = 6 ∨ month = 9 ∨ month = 11 then 30
  else 31

def daysBeforeYear : Nat → Nat
  | 0 => 0
  | year + 1 => daysBeforeYear year + daysInYear year

/-- Days of the year before the first of a month. -/
def daysBeforeMonth (year : Nat) : Nat → Nat
  | 0 => 0
  | 1 => 0
  | month + 2 => daysBeforeMonth year (month + 1) + daysInMonth year (month + 1)

structure Timestamp where
  year : Nat
  month : Nat
  day : Nat
  hour : Nat
  minute : Nat
  second : Nat
  nano : Nat
  year_lt : year < 10000
  month_pos : 1 ≤ month
  month_le : month ≤ 12
  day_pos : 1 ≤ day
  day_le : day ≤ daysInMonth year month
  hour_lt : hour < 24
  minute_lt : minute < 60
  second_lt : second < 60
  nano_lt : nano < 1000000000

namespace Timestamp

def dayOfYear (t : Timestamp) : Nat := daysBeforeMonth t.year t.month + (t.day - 1)

def dayNumber (t : Timestamp) : Nat := daysBeforeYear t.year + t.dayOfYear

def secondOfDay (t : Timestamp) : Nat := (t.hour * 60 + t.minute) * 60 + t.second

/-- Nanoseconds since the start of the year zero. -/
def instant (t : Timestamp) : Nat :=
  (t.dayNumber * 86400 + t.secondOfDay) * 1000000000 + t.nano

/-- The order of the fields, from the year down to the nanosecond. -/
def FieldsLt (a b : Timestamp) : Prop :=
  a.year < b.year ∨ a.year = b.year ∧ (a.month < b.month ∨ a.month = b.month ∧
    (a.day < b.day ∨ a.day = b.day ∧ (a.hour < b.hour ∨ a.hour = b.hour ∧
      (a.minute < b.minute ∨ a.minute = b.minute ∧
        (a.second < b.second ∨ a.second = b.second ∧ a.nano < b.nano)))))

end Timestamp

theorem daysBeforeMonth_le (year month : Nat) (low : 1 ≤ month) (high : month ≤ 12) :
    daysBeforeMonth year month + daysInMonth year month ≤ daysInYear year := by
  unfold daysInYear
  interval_cases month <;> simp only [daysBeforeMonth, daysInMonth] <;> cases isLeap year <;> decide

namespace Timestamp

theorem dayOfYear_lt (t : Timestamp) : t.dayOfYear < daysInYear t.year := by
  have fits := daysBeforeMonth_le t.year t.month t.month_pos t.month_le
  have := t.day_pos
  have := t.day_le
  unfold dayOfYear
  omega

theorem secondOfDay_lt (t : Timestamp) : t.secondOfDay < 86400 := by
  have := t.hour_lt
  have := t.minute_lt
  have := t.second_lt
  unfold secondOfDay
  omega

/-- Days of one year order by month, then by day. -/
theorem dayOfYear_lt_iff {a b : Timestamp} (same : a.year = b.year) :
    a.dayOfYear < b.dayOfYear ↔ a.month < b.month ∨ a.month = b.month ∧ a.day < b.day := by
  have lowA := a.month_pos
  have lowB := b.month_pos
  have dayA := a.day_le
  have dayB := b.day_le
  have posA := a.day_pos
  have posB := b.day_pos
  rw [← same] at dayB
  unfold dayOfYear
  rw [← same]
  have months := radix_lt_iff (fun n => daysBeforeMonth a.year (n + 1))
    (fun n => daysInMonth a.year (n + 1)) (fun n => rfl) (a := a.month - 1) (b := b.month - 1)
    (x := a.day - 1) (y := b.day - 1) (by rw [Nat.sub_add_cancel lowA]; omega)
    (by rw [Nat.sub_add_cancel lowB]; omega)
  rw [Nat.sub_add_cancel lowA, Nat.sub_add_cancel lowB] at months
  rw [months]
  omega

theorem dayNumber_lt_iff (a b : Timestamp) : a.dayNumber < b.dayNumber ↔
    a.year < b.year ∨ a.year = b.year ∧ a.dayOfYear < b.dayOfYear :=
  radix_lt_iff daysBeforeYear daysInYear (fun _ => rfl) a.dayOfYear_lt b.dayOfYear_lt

theorem secondOfDay_lt_iff (a b : Timestamp) : a.secondOfDay < b.secondOfDay ↔
    a.hour < b.hour ∨ a.hour = b.hour ∧
      (a.minute < b.minute ∨ a.minute = b.minute ∧ a.second < b.second) := by
  have := a.minute_lt
  have := a.second_lt
  have := b.minute_lt
  have := b.second_lt
  unfold secondOfDay
  omega

theorem dayNumber_eq_iff {a b : Timestamp} (same : a.year = b.year) :
    a.dayNumber = b.dayNumber ↔ a.month = b.month ∧ a.day = b.day := by
  have years := dayNumber_lt_iff a b
  have years' := dayNumber_lt_iff b a
  have days := dayOfYear_lt_iff same
  have days' := dayOfYear_lt_iff same.symm
  omega

theorem secondOfDay_eq_iff (a b : Timestamp) : a.secondOfDay = b.secondOfDay ↔
    a.hour = b.hour ∧ a.minute = b.minute ∧ a.second = b.second := by
  have := a.minute_lt
  have := a.second_lt
  have := b.minute_lt
  have := b.second_lt
  unfold secondOfDay
  omega

theorem instant_lt_iff (a b : Timestamp) : a.instant < b.instant ↔ FieldsLt a b := by
  have years := dayNumber_lt_iff a b
  have seconds : a.dayNumber * 86400 + a.secondOfDay = b.dayNumber * 86400 + b.secondOfDay ↔
      a.dayNumber = b.dayNumber ∧ a.secondOfDay = b.secondOfDay := by
    have := a.secondOfDay_lt
    have := b.secondOfDay_lt
    omega
  unfold instant FieldsLt
  rw [digits_lt_iff a.nano_lt b.nano_lt, digits_lt_iff a.secondOfDay_lt b.secondOfDay_lt, seconds]
  rcases Nat.lt_trichotomy a.year b.year with less | same | less
  · exact iff_of_true (.inl (.inl (years.mpr (.inl less)))) (.inl less)
  · rw [years, dayOfYear_lt_iff same, dayNumber_eq_iff same, secondOfDay_lt_iff, secondOfDay_eq_iff]
    omega
  · have years' := dayNumber_lt_iff b a
    omega

/-- The `width` low digits. -/
def pad : Nat → Nat → List Char
  | 0, _ => []
  | width + 1, n => Nat.digitChar (n / 10 ^ width % 10) :: pad width n

/-- A fraction of a second with no, three, six or nine digits. -/
def fraction (nano : Nat) : List Char :=
  if nano = 0 then []
  else if nano % 1000000 = 0 then '.' :: pad 3 (nano / 1000000)
  else if nano % 1000 = 0 then '.' :: pad 6 (nano / 1000)
  else '.' :: pad 9 nano

def chars (t : Timestamp) : List Char :=
  pad 4 t.year ++ '-' :: (pad 2 t.month ++ '-' :: (pad 2 t.day ++ 'T' :: (pad 2 t.hour ++
    ':' :: (pad 2 t.minute ++ ':' :: (pad 2 t.second ++ (fraction t.nano ++ "+00:00".toList))))))

/-- The RFC 3339 text in UTC. -/
def text (t : Timestamp) : String := String.ofList t.chars

theorem pad_mod (width n : Nat) : pad width (n % 10 ^ width) = pad width n := by
  have general : ∀ more, pad width (n % 10 ^ (width + more)) = pad width n := by
    induction width with
    | zero => exact fun _ => rfl
    | succ width ih =>
      intro more
      have digit : n % 10 ^ (width + 1 + more) / 10 ^ width % 10 = n / 10 ^ width % 10 := by
        rw [show width + 1 + more = width + (1 + more) by omega, pow_add, Nat.mod_mul_right_div_self,
          pow_add, pow_one, Nat.mod_mul_right_mod]
      rw [pad, pad, digit, show width + 1 + more = width + (1 + more) by omega, ih]
  exact general 0

theorem digitChar_lt_iff {m n : Nat} (boundM : m < 10) (boundN : n < 10) :
    (Nat.digitChar m < Nat.digitChar n ↔ m < n) ∧ (Nat.digitChar m = Nat.digitChar n ↔ m = n) := by
  have table : ∀ x y : Fin 10, (Nat.digitChar x < Nat.digitChar y ↔ x < y) ∧
      (Nat.digitChar x = Nat.digitChar y ↔ x = y) := by decide
  simpa [Fin.ext_iff] using table ⟨m, boundM⟩ ⟨n, boundN⟩

/-- Digits of one width order as the numbers do, then by what follows them. -/
theorem pad_lt_iff {width a b : Nat} (boundA : a < 10 ^ width) (boundB : b < 10 ^ width)
    (rest rest' : List Char) :
    pad width a ++ rest < pad width b ++ rest' ↔ a < b ∨ a = b ∧ rest < rest' := by
  induction width generalizing a b with
  | zero =>
    rw [pow_zero, Nat.lt_one_iff] at boundA boundB
    simp [pad, boundA, boundB]
  | succ width ih =>
    have positive : 0 < 10 ^ width := Nat.pow_pos (by omega)
    have highA : a / 10 ^ width < 10 := by rwa [Nat.div_lt_iff_lt_mul positive, ← pow_succ']
    have highB : b / 10 ^ width < 10 := by rwa [Nat.div_lt_iff_lt_mul positive, ← pow_succ']
    have lowA := Nat.mod_lt a positive
    have lowB := Nat.mod_lt b positive
    have whole := digits_lt_iff (a := a / 10 ^ width) (b := b / 10 ^ width) lowA lowB
    have whole' := digits_lt_iff (a := b / 10 ^ width) (b := a / 10 ^ width) lowB lowA
    rw [Nat.div_add_mod', Nat.div_add_mod'] at whole whole'
    obtain ⟨less, equal⟩ := digitChar_lt_iff highA highB
    rw [pad, pad, List.cons_append, List.cons_append, List.cons_lt_cons_iff,
      Nat.mod_eq_of_lt highA, Nat.mod_eq_of_lt highB, less, equal, ← pad_mod width a, ← pad_mod width b,
      ih lowA lowB]
    by_cases later : rest < rest'
    · simp only [later, and_true]
      omega
    · simp only [later, and_false, or_false]
      omega

theorem pad_add (high low n : Nat) : pad (high + low) n = pad high (n / 10 ^ low) ++ pad low n := by
  induction high with
  | zero => simp [pad]
  | succ high ih =>
    rw [Nat.succ_add, pad, pad, ih, Nat.div_div_eq_div_mul, ← pow_add, Nat.add_comm low high,
      List.cons_append]

/-- Digits that are left out when they are all zero. -/
def digitsUnlessZero (body : Nat → List Char) (n : Nat) : List Char := if n = 0 then [] else body n

/-- Left out digits order first, because the sign that follows orders before what
would stand in their place. -/
theorem digitsUnlessZero_lt_iff {body : Nat → List Char} {rest : List Char} {a b : Nat}
    (opens : ∀ n, ∃ c tail, body n = c :: tail ∧ '+' < c)
    (both : body a ++ '+' :: rest < body b ++ '+' :: rest ↔ a < b) :
    digitsUnlessZero body a ++ '+' :: rest < digitsUnlessZero body b ++ '+' :: rest ↔ a < b := by
  obtain ⟨c, tail, shownA, aboveA⟩ := opens a
  obtain ⟨d, tail', shownB, aboveB⟩ := opens b
  unfold digitsUnlessZero
  by_cases zeroA : a = 0
  · by_cases zeroB : b = 0
    · simp [zeroA, zeroB]
    · simp only [zeroA, zeroB, if_true, if_false, shownB, List.nil_append, List.cons_append,
        List.cons_lt_cons_iff, aboveB, true_or, true_iff]
      omega
  · by_cases zeroB : b = 0
    · have apart : ¬ (c < '+' ∨ c = '+' ∧ tail ++ '+' :: rest < rest) := by
        rintro (below | ⟨rfl, -⟩)
        · exact Char.lt_irrefl _ (Char.lt_trans below aboveA)
        · exact Char.lt_irrefl _ aboveA
      simp only [zeroA, zeroB, if_true, if_false, shownA, List.nil_append, List.cons_append,
        List.cons_lt_cons_iff, apart, false_iff]
      omega
    · simp only [zeroA, zeroB, if_false, both]

theorem pad_opens (width n : Nat) : ∃ c tail, pad (width + 1) n = c :: tail ∧ '+' < c := by
  have table : ∀ x : Fin 10, '+' < Nat.digitChar x := by decide
  exact ⟨_, _, rfl, table ⟨_, Nat.mod_lt _ (by omega)⟩⟩

/-- The last three digits of a fraction. -/
def nanoDigits : Nat → List Char := digitsUnlessZero (pad 3)

/-- The last six digits. -/
def microDigits : Nat → List Char := digitsUnlessZero fun n => pad 3 (n / 1000) ++ nanoDigits (n % 1000)

theorem fraction_eq (nano : Nat) : fraction nano =
    digitsUnlessZero (fun n => '.' :: (pad 3 (n / 1000000) ++ microDigits (n % 1000000))) nano := by
  have micro : pad 6 (nano / 1000) = pad 3 (nano / 1000000) ++ pad 3 (nano / 1000 % 1000) := by
    rw [pad_add 3 3, Nat.div_div_eq_div_mul, ← pad_mod 3 (nano / 1000)]
    rfl
  have all : pad 9 nano =
      pad 3 (nano / 1000000) ++ (pad 3 (nano % 1000000 / 1000) ++ pad 3 (nano % 1000000 % 1000)) := by
    rw [pad_add 3 6, ← pad_mod 6 nano, pad_add 3 3, ← pad_mod 3 (nano % 10 ^ 6)]
    rfl
  unfold fraction digitsUnlessZero
  split
  · rfl
  · dsimp only
    split
    · rename_i whole
      simp [microDigits, digitsUnlessZero, whole]
    · rename_i part
      split
      · rename_i whole
        have short : nano % 1000000 % 1000 = 0 := by omega
        have middle : nano % 1000000 / 1000 = nano / 1000 % 1000 := by omega
        simp [microDigits, nanoDigits, digitsUnlessZero, part, short, middle, micro]
      · rename_i long
        have long' : nano % 1000000 % 1000 ≠ 0 := by omega
        simp only [microDigits, nanoDigits, digitsUnlessZero, part, long', if_false, all]

theorem fraction_lt_iff {a b : Nat} (boundA : a < 1000000000) (boundB : b < 1000000000)
    (rest : List Char) :
    fraction a ++ '+' :: rest < fraction b ++ '+' :: rest ↔ a < b := by
  have nanos : ∀ {a b : Nat}, a < 1000 → b < 1000 →
      (nanoDigits a ++ '+' :: rest < nanoDigits b ++ '+' :: rest ↔ a < b) := by
    intro a b boundA boundB
    refine digitsUnlessZero_lt_iff (pad_opens 2) ?_
    rw [pad_lt_iff boundA boundB]
    simp
  have micros : ∀ {a b : Nat}, a < 1000000 → b < 1000000 →
      (microDigits a ++ '+' :: rest < microDigits b ++ '+' :: rest ↔ a < b) := by
    intro a b boundA boundB
    refine digitsUnlessZero_lt_iff (fun n => ?_) ?_
    · obtain ⟨c, tail, shown, above⟩ := pad_opens 2 (n / 1000)
      exact ⟨c, tail ++ nanoDigits (n % 1000), by rw [shown, List.cons_append], above⟩
    · rw [List.append_assoc, List.append_assoc, pad_lt_iff (by omega) (by omega),
        nanos (Nat.mod_lt _ (by omega)) (Nat.mod_lt _ (by omega))]
      omega
  rw [fraction_eq, fraction_eq]
  refine digitsUnlessZero_lt_iff (fun n => ⟨'.', _, rfl, by decide⟩) ?_
  rw [List.cons_append, List.cons_append, List.cons_lt_cons_self, List.append_assoc,
    List.append_assoc, pad_lt_iff (by omega) (by omega),
    micros (Nat.mod_lt _ (by omega)) (Nat.mod_lt _ (by omega))]
  omega

theorem chars_lt_iff (a b : Timestamp) : a.chars < b.chars ↔ FieldsLt a b := by
  have := a.month_le
  have := b.month_le
  have dayA : a.day < 10 ^ 2 := by
    have := a.day_le
    unfold daysInMonth at this
    split_ifs at this <;> omega
  have dayB : b.day < 10 ^ 2 := by
    have := b.day_le
    unfold daysInMonth at this
    split_ifs at this <;> omega
  have := a.hour_lt
  have := b.hour_lt
  have := a.minute_lt
  have := b.minute_lt
  have := a.second_lt
  have := b.second_lt
  unfold chars FieldsLt
  have zone : "+00:00".toList = '+' :: "00:00".toList := by decide
  rw [zone, pad_lt_iff a.year_lt b.year_lt, List.cons_lt_cons_self, pad_lt_iff (by omega) (by omega),
    List.cons_lt_cons_self, pad_lt_iff dayA dayB, List.cons_lt_cons_self,
    pad_lt_iff (by omega) (by omega), List.cons_lt_cons_self, pad_lt_iff (by omega) (by omega),
    List.cons_lt_cons_self, pad_lt_iff (by omega) (by omega), fraction_lt_iff a.nano_lt b.nano_lt]

theorem compare_text_lt (a b : Timestamp) :
    compare a.text b.text = .lt ↔ a.instant < b.instant := by
  have lists : ∀ s t : String, compare s t = .lt ↔ s.toList < t.toList :=
    fun s t => compareOfLessAndEq_eq_lt
  rw [lists, text, text, String.toList_ofList, String.toList_ofList, chars_lt_iff, instant_lt_iff]

example : (⟨2026, 1, 8, 10, 0, 5, 120000000, by decide, by decide, by decide, by decide, by decide,
    by decide, by decide, by decide, by decide⟩ : Timestamp).text =
      "2026-01-08T10:00:05.120+00:00" := by decide

/-- Texts compare as the points of time do. -/
theorem compare_text (a b : Timestamp) : compare a.text b.text = compare a.instant b.instant := by
  have forth := compare_text_lt a b
  have back := compare_text_lt b a
  rw [← Std.OrientedCmp.gt_iff_lt] at back
  rcases Nat.lt_trichotomy a.instant b.instant with less | same | less
  · rw [forth.mpr less, Nat.compare_eq_lt.mpr less]
  · rw [Nat.compare_eq_eq.mpr same]
    cases order : compare a.text b.text with
    | lt => exact absurd (forth.mp order) (by omega)
    | gt => exact absurd (back.mp order) (by omega)
    | eq => rfl
  · rw [back.mpr less, Nat.compare_eq_gt.mpr less]

/-- One text for each point of time. -/
theorem text_eq_iff (a b : Timestamp) : a.text = b.text ↔ a.instant = b.instant := by
  rw [← Std.compare_eq_iff_eq, compare_text, Nat.compare_eq_eq]

end Timestamp

end Walaru.Lib.CivilTime
