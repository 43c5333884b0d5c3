import Mathlib.Data.List.Lex
import Mathlib.Order.Monotone.Basic
import Mathlib.Algebra.Order.Ring.Nat

/-!
# `Lib.Calendar` — the days of the Gregorian calendar

The days since the first of January 1970, one after the other: a date is that of a day by stepping on from the first
one. The step is the only place that knows of months and leap years. It leads to a later date, if dates are compared by
year, month and day, so later days have later dates.
-/

namespace Dodo.Lib

def isLeap (year : Nat) : Bool := year % 4 = 0 && (year % 100 ≠ 0 || year % 400 = 0)

def monthLength (year month : Nat) : Nat :=
  if month = 2 then (if isLeap year then 29 else 28)
  else if month = 4 ∨ month = 6 ∨ month = 9 ∨ month = 11 then 30
  else 31

theorem monthLength_pos (year month : Nat) : 0 < monthLength year month := by
  unfold monthLength
  repeat' split
  all_goals omega

theorem monthLength_le (year month : Nat) : monthLength year month ≤ 31 := by
  unfold monthLength
  repeat' split
  all_goals omega

/-- A day of the calendar. -/
@[ext]
structure Date where
  year : Nat
  month : Nat
  day : Nat
  month_pos : 0 < month
  month_le : month ≤ 12
  day_pos : 0 < day
  day_le : day ≤ monthLength year month
deriving DecidableEq, Repr

namespace Date

/-- The first of January 1970. -/
def epoch : Date := ⟨1970, 1, 1, Nat.one_pos, by decide, Nat.one_pos, monthLength_pos 1970 1⟩

def next (d : Date) : Date :=
  if hday : d.day < monthLength d.year d.month then
    { d with day := d.day + 1, day_pos := Nat.succ_pos _, day_le := hday }
  else if hmonth : d.month < 12 then
    { year := d.year, month := d.month + 1, day := 1,
      month_pos := Nat.succ_pos _, month_le := hmonth, day_pos := Nat.one_pos, day_le := monthLength_pos _ _ }
  else
    { year := d.year + 1, month := 1, day := 1,
      month_pos := Nat.one_pos, month_le := by decide, day_pos := Nat.one_pos, day_le := monthLength_pos _ _ }

/-- Dates are compared by year, month and day. -/
def key (d : Date) : List Nat := [d.year, d.month, d.day]

theorem key_lt_key_next (d : Date) : d.key < d.next.key := by
  show [d.year, d.month, d.day] < [d.next.year, d.next.month, d.next.day]
  unfold next
  split
  · exact List.Lex.cons (List.Lex.cons (List.Lex.rel (Nat.lt_succ_self _)))
  · split
    · exact List.Lex.cons (List.Lex.rel (Nat.lt_succ_self _))
    · exact List.Lex.rel (Nat.lt_succ_self _)

/-- The date of the day that comes `days` days after the first one. -/
def ofDays (days : Nat) : Date := next^[days] epoch

theorem ofDays_succ (days : Nat) : ofDays (days + 1) = (ofDays days).next := Function.iterate_succ_apply' next days epoch

theorem year_le_next (d : Date) : d.year ≤ d.next.year := by
  unfold next
  split
  · exact Nat.le_refl d.year
  · split
    · exact Nat.le_refl d.year
    · exact Nat.le_succ d.year

theorem le_year_ofDays (days : Nat) : 1970 ≤ (ofDays days).year := by
  induction days with
  | zero => exact Nat.le_refl 1970
  | succ days ih =>
      rw [ofDays_succ]
      exact ih.trans (year_le_next _)

/-- **Later days have later dates.** -/
theorem strictMono_key : StrictMono (fun days => (ofDays days).key) := by
  refine strictMono_nat_of_lt_succ fun days => ?_
  show (ofDays days).key < (ofDays (days + 1)).key
  rw [ofDays_succ]
  exact key_lt_key_next (ofDays days)

end Date
end Dodo.Lib
