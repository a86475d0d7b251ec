import Mathlib.Data.List.Basic

/-! # Calendar stamps

Instants in nanoseconds of the years 1 to 9999, as fixed-width stamps such as `20060102T150405.000000000Z`.
-/

namespace Calendar

/-! ## Dates -/

structure Date where
  year : Int
  month : Int
  day : Int
deriving DecidableEq, Repr

/-- A day as the cycles before it. Years are counted from March, so that the leap day ends the longest of each. -/
structure Cycles where
  era : Int
  century : Int
  olympiad : Int
  year : Int
  day : Int

/-- The cycles before the day `days` after the first of January of the year 1. -/
def cyclesOf (days : Int) : Cycles :=
  let inEra := (days + 306) % 146097
  let century := inEra / 36524 - inEra / 146096
  let inCentury := inEra - 36524 * century
  let olympiad := inCentury / 1461
  let inOlympiad := inCentury - 1461 * olympiad
  let year := inOlympiad / 365 - inOlympiad / 1460
  ⟨(days + 306) / 146097, century, olympiad, year, inOlympiad - 365 * year⟩

structure Cycles.Bounded (c : Cycles) : Prop where
  century : 0 ≤ c.century ∧ c.century ≤ 3
  olympiad : 0 ≤ c.olympiad ∧ c.olympiad ≤ 24
  year : 0 ≤ c.year ∧ c.year ≤ 3
  day : 0 ≤ c.day ∧ c.day ≤ 365

theorem cyclesOf_bounded (days : Int) : (cyclesOf days).Bounded := by
  constructor <;> simp only [cyclesOf] <;> omega

theorem cyclesOf_days (days : Int) : let c := cyclesOf days
    days = 146097 * c.era + 36524 * c.century + 1461 * c.olympiad + 365 * c.year + c.day - 306 := by
  simp only [cyclesOf]
  omega

def Cycles.date (c : Cycles) : Date :=
  let fromMarch := (5 * c.day + 2) / 153
  let month := if fromMarch < 10 then fromMarch + 3 else fromMarch - 9
  ⟨400 * c.era + 100 * c.century + 4 * c.olympiad + c.year + if fromMarch < 10 then 0 else 1, month,
    c.day - (153 * fromMarch + 2) / 5 + 1⟩

def dateOf (days : Int) : Date := (cyclesOf days).date

def daysOf (date : Date) : Int :=
  let year := date.year - if date.month ≤ 2 then 1 else 0
  let fromMarch := date.month + if date.month ≤ 2 then 9 else -3
  365 * year + year / 4 - year / 100 + year / 400 + ((153 * fromMarch + 2) / 5 + date.day - 1) - 306

theorem date_bounds {c : Cycles} (h : c.Bounded) :
    (1 ≤ c.date.month ∧ c.date.month ≤ 12) ∧ 1 ≤ c.date.day ∧ c.date.day ≤ 31 := by
  obtain ⟨-, -, -, hday⟩ := h
  simp only [Cycles.date]
  omega

theorem daysOf_date {c : Cycles} (h : c.Bounded) : daysOf c.date =
    146097 * c.era + 36524 * c.century + 1461 * c.olympiad + 365 * c.year + c.day - 306 := by
  obtain ⟨hcentury, holympiad, hyear, hday⟩ := h
  simp only [Cycles.date, daysOf]
  split <;> omega

theorem daysOf_dateOf (days : Int) : daysOf (dateOf days) = days := by
  unfold dateOf
  rw [daysOf_date (cyclesOf_bounded days)]
  exact (cyclesOf_days days).symm

theorem dateOf_year {days : Int} (h0 : 0 ≤ days) (h : days < 3652059) :
    1 ≤ (dateOf days).year ∧ (dateOf days).year ≤ 9999 := by
  obtain ⟨hcentury, holympiad, hyear, hday⟩ := cyclesOf_bounded days
  have hdays := cyclesOf_days days
  simp only [dateOf, Cycles.date]
  split <;> omega

/-! ## Numbers of a fixed width -/

def pad : Nat → Nat → List Char
  | 0, _ => []
  | width + 1, n => pad width (n / 10) ++ [Nat.digitChar (n % 10)]

def value (text : List Char) : Nat := text.foldl (fun n c => 10 * n + (c.toNat - 48)) 0

def Fits : Nat → Nat → Prop
  | 0, n => n = 0
  | width + 1, n => Fits width (n / 10)

@[simp] theorem length_pad (width n : Nat) : (pad width n).length = width := by
  induction width generalizing n with
  | zero => rfl
  | succ width ih => simp [pad, ih]

theorem digitChar_digit {d : Nat} (h : d < 10) : (Nat.digitChar d).isDigit = true ∧ (Nat.digitChar d).toNat - 48 = d := by
  have hall : ∀ d < 10, (Nat.digitChar d).isDigit = true ∧ (Nat.digitChar d).toNat - 48 = d := by decide
  exact hall d h

theorem isDigit_of_mem_pad {width n : Nat} {c : Char} (h : c ∈ pad width n) : c.isDigit = true := by
  induction width generalizing n with
  | zero => exact absurd h List.not_mem_nil
  | succ width ih =>
    rw [pad, List.mem_append, List.mem_singleton] at h
    rcases h with h | rfl
    · exact ih h
    · exact (digitChar_digit (Nat.mod_lt n (by decide))).1

theorem value_pad {width n : Nat} (h : Fits width n) : value (pad width n) = n := by
  induction width generalizing n with
  | zero =>
    rw [h]
    rfl
  | succ width ih =>
    have hinit : value (pad width (n / 10)) = n / 10 := ih h
    unfold value at hinit ⊢
    rw [pad, List.foldl_append, hinit, List.foldl_cons, List.foldl_nil, (digitChar_digit (Nat.mod_lt n (by decide))).2]
    omega

def number (width : Nat) (text : List Char) : Option (Nat × List Char) :=
  if (text.take width).length = width ∧ (text.take width).all Char.isDigit = true then
    some (value (text.take width), text.drop width)
  else none

theorem number_pad {width n : Nat} (h : Fits width n) (rest : List Char) :
    number width (pad width n ++ rest) = some (n, rest) := by
  have htake : (pad width n ++ rest).take width = pad width n := List.take_left' (length_pad width n)
  have hdrop : (pad width n ++ rest).drop width = rest := List.drop_left' (length_pad width n)
  unfold number
  rw [htake, hdrop, if_pos ⟨length_pad width n, List.all_eq_true.mpr fun c hc => isDigit_of_mem_pad hc⟩, value_pad h]

def expect (c : Char) : List Char → Option (List Char)
  | [] => none
  | x :: rest => if x = c then some rest else none

@[simp] theorem expect_cons (c : Char) (rest : List Char) : expect c (c :: rest) = some rest := if_pos rfl

/-! ## Stamps -/

def atLeast (width : Nat) (n : Int) : List Char :=
  let digits := if value (pad width n.natAbs) = n.natAbs then pad width n.natAbs else Nat.toDigits 10 n.natAbs
  if n < 0 then '-' :: digits else digits

structure Fields where
  date : Date
  hour : Nat
  minute : Nat
  second : Nat
  nanosecond : Nat
deriving DecidableEq, Repr

def fieldsOf (instant : Int) : Fields :=
  let days := instant / 86400000000000
  let rest := (instant % 86400000000000).toNat
  ⟨dateOf days, rest / 3600000000000, rest / 60000000000 % 60, rest / 1000000000 % 60, rest % 1000000000⟩

def instantOf (f : Fields) : Int :=
  86400000000000 * daysOf f.date +
    (3600000000000 * f.hour + 60000000000 * f.minute + 1000000000 * f.second + f.nanosecond : Nat)

theorem instantOf_fieldsOf (instant : Int) : instantOf (fieldsOf instant) = instant := by
  simp only [instantOf, fieldsOf, daysOf_dateOf]
  omega

/-- `20060102T150405.000000000Z`. -/
def format (instant : Int) : List Char :=
  let f := fieldsOf instant
  atLeast 4 f.date.year ++ (pad 2 f.date.month.toNat ++ (pad 2 f.date.day.toNat ++ 'T' ::
    (pad 2 f.hour ++ (pad 2 f.minute ++ (pad 2 f.second ++ '.' :: (pad 9 f.nanosecond ++ ['Z']))))))

def parse (text : List Char) : Option Int := do
  let year ← number 4 text
  let month ← number 2 year.2
  let day ← number 2 month.2
  let time ← expect 'T' day.2
  let hour ← number 2 time
  let minute ← number 2 hour.2
  let second ← number 2 minute.2
  let fraction ← expect '.' second.2
  let nanosecond ← number 9 fraction
  let rest ← expect 'Z' nanosecond.2
  let f : Fields := ⟨⟨year.1, month.1, day.1⟩, hour.1, minute.1, second.1, nanosecond.1⟩
  if rest = [] ∧ fieldsOf (instantOf f) = f then some (instantOf f) else none

section Range

variable {instant : Int}

theorem atLeast_of_fits {width n : Nat} (h : Fits width n) : atLeast width n = pad width n := by
  unfold atLeast
  simp only [Int.natAbs_natCast, value_pad h, if_true]
  exact if_neg (by omega)

structure Fields.Short (f : Fields) : Prop where
  year : 0 ≤ f.date.year ∧ Fits 4 f.date.year.toNat
  month : 0 ≤ f.date.month ∧ Fits 2 f.date.month.toNat
  day : 0 ≤ f.date.day ∧ Fits 2 f.date.day.toNat
  hour : Fits 2 f.hour
  minute : Fits 2 f.minute
  second : Fits 2 f.second
  nanosecond : Fits 9 f.nanosecond

theorem fieldsOf_short (h0 : 0 ≤ instant) (h : instant < 315537897600000000000) : (fieldsOf instant).Short := by
  obtain ⟨hmonth, hday⟩ := date_bounds (cyclesOf_bounded (instant / 86400000000000))
  have hyear : 1 ≤ (dateOf (instant / 86400000000000)).year ∧ (dateOf (instant / 86400000000000)).year ≤ 9999 :=
    dateOf_year (by omega) (by omega)
  unfold dateOf at hyear
  constructor <;> simp only [fieldsOf, dateOf, Fits] <;> omega

theorem Fields.Short.atLeast_year {f : Fields} (h : f.Short) : atLeast 4 f.date.year = pad 4 f.date.year.toNat := by
  rw [← atLeast_of_fits h.year.2, Int.toNat_of_nonneg h.year.1]

theorem parse_format (h0 : 0 ≤ instant) (h : instant < 315537897600000000000) : parse (format instant) = some instant := by
  have hy := (fieldsOf_short h0 h).atLeast_year
  obtain ⟨hyear, hmonth, hday, hhour, hminute, hsecond, hnano⟩ := fieldsOf_short h0 h
  have hfields : (⟨⟨((fieldsOf instant).date.year.toNat : Int), ((fieldsOf instant).date.month.toNat : Int),
      ((fieldsOf instant).date.day.toNat : Int)⟩, (fieldsOf instant).hour, (fieldsOf instant).minute,
      (fieldsOf instant).second, (fieldsOf instant).nanosecond⟩ : Fields) = fieldsOf instant := by
    rw [Int.toNat_of_nonneg hyear.1, Int.toNat_of_nonneg hmonth.1, Int.toNat_of_nonneg hday.1]
  unfold parse format
  simp only [hy, number_pad hyear.2, number_pad hmonth.2, number_pad hday.2, number_pad hhour, number_pad hminute,
    number_pad hsecond, number_pad hnano, expect_cons, Option.bind_eq_bind, Option.bind_some, hfields,
    instantOf_fieldsOf, and_self, if_true]

theorem mem_format (h0 : 0 ≤ instant) (h : instant < 315537897600000000000) {c : Char} (hc : c ∈ format instant) :
    c.isDigit = true ∨ c = 'T' ∨ c = '.' ∨ c = 'Z' := by
  have hy := (fieldsOf_short h0 h).atLeast_year
  unfold format at hc
  simp only [hy, List.mem_append, List.mem_cons, List.not_mem_nil, or_false] at hc
  rcases hc with hc | hc | hc | rfl | hc | hc | hc | rfl | hc | rfl
  all_goals first | exact .inl (isDigit_of_mem_pad hc) | simp

end Range

example : format 315537899400000000000 = "100000101T003000.000000000Z".toList := by decide

example : format 63925000000123456789 = "20260914T162640.123456789Z".toList := by decide

end Calendar
