import Mathlib.Tactic.IntervalCases
import Mathlib.Tactic.Linarith

/-!
The Gregorian calendar, run backwards without end: a date and its ordinal, where 1 January of the year 1 is
the first day.
-/

namespace DataCollectionLab.Lib

structure Ymd where
  year : ℤ
  month : ℤ
  day : ℤ
  deriving DecidableEq, Repr

namespace Calendar

def leap (year : ℤ) : Bool := (year % 4 = 0 && year % 100 ≠ 0) || year % 400 = 0

def daysInMonth (year month : ℤ) : ℤ :=
  if month = 4 ∨ month = 6 ∨ month = 9 ∨ month = 11 then 30
  else if month = 2 then if leap year then 29 else 28
  else 31

def daysBeforeYear (year : ℤ) : ℤ :=
  (year - 1) * 365 + (year - 1) / 4 - (year - 1) / 100 + (year - 1) / 400

def cumulative (month : ℤ) : ℤ :=
  if month ≤ 1 then 0 else if month = 2 then 31 else if month = 3 then 59 else if month = 4 then 90
  else if month = 5 then 120 else if month = 6 then 151 else if month = 7 then 181 else if month = 8 then 212
  else if month = 9 then 243 else if month = 10 then 273 else if month = 11 then 304 else 334

def daysBeforeMonth (year month : ℤ) : ℤ := cumulative month + if 2 < month ∧ leap year then 1 else 0

def ordinal (d : Ymd) : ℤ := daysBeforeYear d.year + daysBeforeMonth d.year d.month + d.day

structure Valid (d : Ymd) : Prop where
  january : 1 ≤ d.month
  december : d.month ≤ 12
  first : 1 ≤ d.day
  last : d.day ≤ daysInMonth d.year d.month

def monthAmong (year n : ℤ) : ℕ → ℤ
  | 0 => 1
  | k + 1 => if daysBeforeMonth year (k + 2) ≤ n then k + 2 else monthAmong year n k

def monthOf (year n : ℤ) : ℤ := monthAmong year n 11

/-- The year that an ordinal falls into: by cycles of 400, 100, 4 and 1 years, where the last day of a leap
cycle makes a cycle too many. -/
def yearOf (n : ℤ) : ℤ :=
  let days := n - 1
  let rest := days % 146097
  let centuries := rest / 36524
  let rest' := rest % 36524
  let fours := rest' / 1461
  let rest'' := rest' % 1461
  let ones := rest'' / 365
  let year := days / 146097 * 400 + 1 + centuries * 100 + fours * 4 + ones
  if ones = 4 ∨ centuries = 4 then year - 1 else year

def ofOrdinal (n : ℤ) : Ymd :=
  let year := yearOf n
  let day := n - 1 - daysBeforeYear year
  let month := monthOf year day
  ⟨year, month, day - daysBeforeMonth year month + 1⟩

def daysInYear (year : ℤ) : ℤ := if leap year then 366 else 365

structure Cycles (year a b c d : ℤ) : Prop where
  whole : year = 400 * a + 100 * b + 4 * c + d + 1
  centuries : 0 ≤ b ∧ b ≤ 3
  fours : 0 ≤ c ∧ c ≤ 24
  ones : 0 ≤ d ∧ d ≤ 3

theorem cycles (year : ℤ) : ∃ a b c d, Cycles year a b c d :=
  ⟨(year - 1) / 400, (year - 1) % 400 / 100, (year - 1) % 100 / 4, (year - 1) % 4, by omega, by omega, by omega, by omega⟩

theorem Cycles.daysBeforeYear {year a b c d : ℤ} (is : Cycles year a b c d) :
    daysBeforeYear year = 146097 * a + 36524 * b + 1461 * c + 365 * d := by
  obtain ⟨whole, centuries, fours, ones⟩ := is
  unfold Calendar.daysBeforeYear
  omega

theorem Cycles.leap_iff {year a b c d : ℤ} (is : Cycles year a b c d) :
    leap year = true ↔ d = 3 ∧ (c ≠ 24 ∨ b = 3) := by
  obtain ⟨whole, centuries, fours, ones⟩ := is
  simp only [leap, Bool.or_eq_true, Bool.and_eq_true, decide_eq_true_eq]
  omega

theorem daysBeforeYear_succ (year : ℤ) : daysBeforeYear (year + 1) = daysBeforeYear year + daysInYear year := by
  obtain ⟨a, b, c, d, is⟩ := cycles year
  obtain ⟨a', b', c', d', is'⟩ := cycles (year + 1)
  have leaps := is.leap_iff
  rw [is.daysBeforeYear, is'.daysBeforeYear]
  obtain ⟨whole, centuries, fours, ones⟩ := is
  obtain ⟨whole', centuries', fours', ones'⟩ := is'
  unfold daysInYear
  cases leapYear : leap year with
  | true =>
    have last := leaps.mp leapYear
    simp only [if_true]
    omega
  | false =>
    rw [leapYear] at leaps
    simp only [Bool.false_eq_true, if_false, false_iff] at leaps ⊢
    omega

theorem yearOf_spec (n : ℤ) :
    daysBeforeYear (yearOf n) < n ∧ n ≤ daysBeforeYear (yearOf n) + daysInYear (yearOf n) := by
  have place : ∃ a b c d, Cycles (yearOf n) a b c d ∧ 146097 * a + 36524 * b + 1461 * c + 365 * d < n ∧
      n ≤ 146097 * a + 36524 * b + 1461 * c + 365 * d + 366 ∧
      (n = 146097 * a + 36524 * b + 1461 * c + 365 * d + 366 → d = 3 ∧ (c ≠ 24 ∨ b = 3)) := by
    unfold yearOf
    by_cases last : (n - 1) % 146097 / 36524 = 4
    · refine ⟨(n - 1) / 146097, 3, 24, 3, ⟨?_, by omega, by omega, by omega⟩, by omega, by omega, by omega⟩
      simp only [last, or_true, if_true]
      omega
    · by_cases leapDay : (n - 1) % 146097 % 36524 % 1461 / 365 = 4
      · refine ⟨(n - 1) / 146097, (n - 1) % 146097 / 36524, (n - 1) % 146097 % 36524 / 1461, 3,
          ⟨?_, by omega, by omega, by omega⟩, by omega, by omega, by omega⟩
        simp only [leapDay, true_or, if_true]
        omega
      · refine ⟨(n - 1) / 146097, (n - 1) % 146097 / 36524, (n - 1) % 146097 % 36524 / 1461,
          (n - 1) % 146097 % 36524 % 1461 / 365, ⟨?_, by omega, by omega, by omega⟩, by omega, by omega, by omega⟩
        simp only [last, leapDay, or_self, if_false]
        omega
  obtain ⟨a, b, c, d, is, after, before, full⟩ := place
  have days := is.daysBeforeYear
  have leaps := is.leap_iff
  unfold daysInYear
  cases leapYear : leap (yearOf n) with
  | true => simp only [if_true]; omega
  | false =>
    rw [leapYear] at leaps
    simp only [Bool.false_eq_true, if_false, false_iff] at leaps ⊢
    omega

theorem daysBeforeMonth_succ {year month : ℤ} (january : 1 ≤ month) (november : month ≤ 11) :
    daysBeforeMonth year (month + 1) = daysBeforeMonth year month + daysInMonth year month := by
  unfold daysBeforeMonth daysInMonth
  interval_cases month <;> cases leap year <;> decide

theorem daysBeforeMonth_december (year : ℤ) :
    daysBeforeMonth year 12 + daysInMonth year 12 = daysInYear year := by
  unfold daysBeforeMonth daysInMonth daysInYear
  cases leap year <;> decide

theorem monthAmong_spec {year n : ℤ} (low : 0 ≤ n) (k : ℕ) (short : k ≤ 11)
    (high : n < daysBeforeMonth year (k + 1) + daysInMonth year (k + 1)) :
    1 ≤ monthAmong year n k ∧ monthAmong year n k ≤ 12 ∧ daysBeforeMonth year (monthAmong year n k) ≤ n ∧
      n < daysBeforeMonth year (monthAmong year n k) + daysInMonth year (monthAmong year n k) := by
  induction k with
  | zero => exact ⟨le_refl 1, by norm_num [monthAmong], low, by simpa [monthAmong] using high⟩
  | succ k ih =>
    unfold monthAmong
    by_cases begun : daysBeforeMonth year (k + 2) ≤ n
    · rw [if_pos begun]
      refine ⟨by omega, by omega, begun, ?_⟩
      push_cast at high
      rwa [show (k : ℤ) + 2 = k + 1 + 1 by omega]
    · rw [if_neg begun]
      have next := @daysBeforeMonth_succ year (k + 1) (by omega) (by omega)
      rw [show (k : ℤ) + 1 + 1 = k + 2 by omega] at next
      exact ih (by omega) (by omega)

theorem monthOf_spec {year n : ℤ} (low : 0 ≤ n) (high : n < daysInYear year) :
    1 ≤ monthOf year n ∧ monthOf year n ≤ 12 ∧ daysBeforeMonth year (monthOf year n) ≤ n ∧
      n < daysBeforeMonth year (monthOf year n) + daysInMonth year (monthOf year n) := by
  refine monthAmong_spec low 11 (le_refl 11) ?_
  rw [← daysBeforeMonth_december] at high
  exact_mod_cast high

theorem ofOrdinal_valid (n : ℤ) : Valid (ofOrdinal n) := by
  obtain ⟨after, before⟩ := yearOf_spec n
  obtain ⟨january, december, first, last⟩ :=
    @monthOf_spec (yearOf n) (n - 1 - daysBeforeYear (yearOf n)) (by omega) (by omega)
  exact ⟨january, december, by simp only [ofOrdinal]; omega, by simp only [ofOrdinal]; omega⟩

@[simp] theorem ordinal_ofOrdinal (n : ℤ) : ordinal (ofOrdinal n) = n := by
  simp only [ordinal, ofOrdinal]
  omega

end Calendar

end DataCollectionLab.Lib
