import Mathlib.Algebra.GroupWithZero.Nat
import Mathlib.Algebra.Ring.Int.Defs

/-! The Gregorian calendar, before its first year and after it: the date and the time of day
that an instant has, and the instant that they have. -/
namespace Calendar

def isLeapYear (y : Int) : Bool := y % 4 = 0 && (y % 100 ≠ 0 || y % 400 = 0)

def yearLength (y : Int) : Int := if isLeapYear y then 366 else 365

def daysBefore (y : Int) : Int := 365 * (y - 1) + (y - 1) / 4 - (y - 1) / 100 + (y - 1) / 400

/-- The year of a day. The mean length of a year is never off by more than a year. -/
def year (n : Int) : Int :=
  let guess := 400 * n / 146097 + 1
  if n < daysBefore guess then guess - 1
  else if n < daysBefore (guess + 1) then guess
  else guess + 1

theorem daysBefore_succ (y : Int) : daysBefore (y + 1) = daysBefore y + yearLength y := by
  unfold daysBefore yearLength isLeapYear
  by_cases four : y % 4 = 0
  · by_cases hundred : y % 100 = 0
    · by_cases fourHundred : y % 400 = 0
      · simp [four, hundred, fourHundred]
        omega
      · simp [four, hundred, fourHundred]
        omega
    · simp [four, hundred]
      omega
  · simp [four]
    omega

theorem year_spec (n : Int) : daysBefore (year n) ≤ n ∧ n < daysBefore (year n + 1) := by
  have low : daysBefore (400 * n / 146097 + 1 - 1) ≤ n := by
    unfold daysBefore
    omega
  have high : n < daysBefore (400 * n / 146097 + 1 + 1 + 1) := by
    unfold daysBefore
    omega
  simp only [year]
  split
  · rename_i before
    exact ⟨low, by rwa [Int.sub_add_cancel]⟩
  · rename_i after
    split
    · rename_i before
      exact ⟨Int.not_lt.mp after, before⟩
    · rename_i later
      exact ⟨Int.not_lt.mp later, high⟩

/- Months. -/

/-- Where a position falls among stretches of these lengths, and how far into its stretch. -/
def locate : List Nat → Nat → Nat × Nat
  | [], n => (0, n)
  | l :: lengths, n =>
    if n < l then (0, n)
    else
      let found := locate lengths (n - l)
      (found.1 + 1, found.2)

theorem locate_spec {lengths : List Nat} {n : Nat} (inside : n < lengths.sum) :
    (locate lengths n).1 < lengths.length ∧
      (locate lengths n).2 < lengths.getD (locate lengths n).1 0 ∧
      (lengths.take (locate lengths n).1).sum + (locate lengths n).2 = n := by
  induction lengths generalizing n with
  | nil => exact absurd inside (Nat.not_lt_zero n)
  | cons l lengths ih =>
    simp only [locate]
    split
    · rename_i first
      exact ⟨Nat.succ_pos _, first, by simp⟩
    · rename_i later
      rw [List.sum_cons] at inside
      obtain ⟨index, offset, position⟩ := ih (n := n - l) (by omega)
      refine ⟨Nat.succ_lt_succ index, offset, ?_⟩
      simp only [List.take_succ_cons, List.sum_cons]
      omega

def monthLengths (y : Int) : List Nat :=
  [31, if isLeapYear y then 29 else 28, 31, 30, 31, 30, 31, 31, 30, 31, 30, 31]

theorem monthLengths_sum (y : Int) : ((monthLengths y).sum : Int) = yearLength y := by
  unfold monthLengths yearLength
  cases isLeapYear y <;> rfl

def monthLength (y : Int) (month : Fin 12) : Nat := (monthLengths y).getD month 0

structure Date where
  year : Int
  month : Fin 12
  day : Nat
  inMonth : day < monthLength year month

def Date.days (d : Date) : Int :=
  daysBefore d.year + (((monthLengths d.year).take d.month).sum + d.day : Nat)

theorem ordinal_lt (n : Int) : (n - daysBefore (year n)).toNat < (monthLengths (year n)).sum := by
  obtain ⟨low, high⟩ := year_spec n
  have sum := monthLengths_sum (year n)
  rw [daysBefore_succ] at high
  omega

def Date.ofDays (n : Int) : Date :=
  let found := locate (monthLengths (Calendar.year n)) (n - daysBefore (Calendar.year n)).toNat
  { year := Calendar.year n
    month := ⟨found.1, (locate_spec (ordinal_lt n)).1⟩
    day := found.2
    inMonth := (locate_spec (ordinal_lt n)).2.1 }

theorem Date.days_ofDays (n : Int) : (Date.ofDays n).days = n := by
  have position := (locate_spec (ordinal_lt n)).2.2
  have low := (year_spec n).1
  simp only [Date.days, Date.ofDays, position]
  omega

theorem daysBefore_mono {y z : Int} (le : y ≤ z) : daysBefore y ≤ daysBefore z := by
  unfold daysBefore
  omega

theorem Date.year_ofDays {n low high : Int} (after : daysBefore low ≤ n)
    (before : n < daysBefore (high + 1)) :
    low ≤ (Date.ofDays n).year ∧ (Date.ofDays n).year ≤ high := by
  obtain ⟨start, finish⟩ := year_spec n
  change low ≤ Calendar.year n ∧ Calendar.year n ≤ high
  constructor
  · by_contra earlier
    have := daysBefore_mono (show Calendar.year n + 1 ≤ low by omega)
    omega
  · by_contra later
    have := daysBefore_mono (show high + 1 ≤ Calendar.year n by omega)
    omega

/- The time of day. -/

structure Time where
  hour : Fin 24
  minute : Fin 60
  second : Fin 60
  nanosecond : Fin 1000000000

def nanosPerDay : Int := 86400000000000

def Time.nanoseconds (t : Time) : Int :=
  ((t.hour * 60 + t.minute) * 60 + t.second : Int) * 1000000000 + t.nanosecond

def Time.ofNanoseconds (n : Nat) : Time where
  hour := Fin.ofNat 24 (n / 3600000000000)
  minute := Fin.ofNat 60 (n / 60000000000)
  second := Fin.ofNat 60 (n / 1000000000)
  nanosecond := Fin.ofNat 1000000000 n

theorem Time.nanoseconds_ofNanoseconds {n : Nat} (inside : (n : Int) < nanosPerDay) :
    (Time.ofNanoseconds n).nanoseconds = n := by
  unfold nanosPerDay at inside
  simp only [Time.nanoseconds, Time.ofNanoseconds, Fin.val_ofNat]
  omega

structure DateTime where
  date : Date
  time : Time

def DateTime.instant (d : DateTime) : Int :=
  (d.date.days - daysBefore 1970) * nanosPerDay + d.time.nanoseconds

def DateTime.ofInstant (t : Int) : DateTime where
  date := Date.ofDays (t / nanosPerDay + daysBefore 1970)
  time := Time.ofNanoseconds (t % nanosPerDay).toNat

theorem DateTime.instant_ofInstant (t : Int) : (DateTime.ofInstant t).instant = t := by
  have low : 0 ≤ t % nanosPerDay := Int.emod_nonneg t (by decide)
  have high : t % nanosPerDay < nanosPerDay := Int.emod_lt_of_pos t (by decide)
  have whole : t / nanosPerDay * nanosPerDay + t % nanosPerDay = t :=
    Int.ediv_mul_add_emod t nanosPerDay
  have time := Time.nanoseconds_ofNanoseconds (n := (t % nanosPerDay).toNat) (by omega)
  simp only [DateTime.instant, DateTime.ofInstant, Date.days_ofDays, Int.add_sub_cancel, time]
  omega

end Calendar
