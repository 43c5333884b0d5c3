import Mathlib.Tactic.IntervalCases
import Dodo.Lib.Calendar
import Dodo.Lib.Columns
import Dodo.Common.Logger

/-!
# `Common.DateTime` — the time as text

`formatDateTimeUTC` prints a time in columns, filled up with zeros, from the year down to the microseconds. The rotation of
the log file relies on it without saying so: it takes the smallest path for that of the oldest file. Up to the year 9999
this is right, as every number fits its column.
-/

namespace Dodo.Common

open Lib
open scoped Logger

/-- `struct timeval`, as `gettimeofday` fills it in: the time since the beginning of 1970. -/
@[ext]
structure TimeVal where
  sec : Nat
  usec : Nat
  usec_lt : usec < 1000000
deriving DecidableEq, Repr

/-- What is used of a `struct tm`: years count from 1900 and months from 0. -/
structure Tm where
  year : Nat
  mon : Nat
  mday : Nat
  hour : Nat
  min : Nat
  sec : Nat
deriving DecidableEq, Repr

def gmtime (sec : Nat) : Tm :=
  let date := Date.ofDays (sec / 86400)
  { year := date.year - 1900, mon := date.month - 1, mday := date.day,
    hour := sec / 3600 % 24, min := sec / 60 % 60, sec := sec % 60 }

/-- `std::setfill('0') << std::setw(w) << n`: a number that is too wide is printed in full. -/
def setw (w n : Nat) : Str := List.replicate (w - (decimal n).length) 48 ++ decimal n

def formatDateTimeUTC (tv : TimeVal) : Str :=
  let utc := gmtime tv.sec
  setw 4 (utc.year + 1900) ++ lit "-" ++
  setw 2 (utc.mon + 1) ++ lit "-" ++
  setw 2 utc.mday ++ lit "T" ++
  setw 2 utc.hour ++ lit ":" ++
  setw 2 utc.min ++ lit ":" ++
  setw 2 utc.sec ++ lit "." ++
  setw 6 tv.usec ++ lit "Z"

/-! ## Numbers filled up with zeros -/

def digit (d : Nat) : Octet := 48 + d.toUInt8

theorem toUInt8_digitChar {d : Nat} (h : d < 10) : (Nat.digitChar d).toNat.toUInt8 = digit d := by
  interval_cases d <;> rfl

/-- The last digit comes off the end. -/
theorem decimal_eq (n : Nat) : decimal n = (if n < 10 then [] else decimal (n / 10)) ++ [digit (n % 10)] := by
  unfold decimal
  rw [Nat.toDigits_eq_if (by decide)]
  split
  next hsmall => simp [toUInt8_digitChar hsmall, Nat.mod_eq_of_lt hsmall]
  next => simp [toUInt8_digitChar (Nat.mod_lt n (by decide : 0 < 10))]

theorem columns_zero (w : Nat) : columns 10 digit w 0 = List.replicate w 48 := by
  induction w with
  | zero => rfl
  | succ w ih => rw [columns, Nat.zero_div, ih, List.replicate_succ']; rfl

/-- A number that fits is printed in a column. -/
theorem setw_eq_columns {w n : Nat} (h : n < 10 ^ (w + 1)) : setw (w + 1) n = columns 10 digit (w + 1) n := by
  induction w generalizing n with
  | zero =>
      rw [setw, decimal_eq, if_pos (by simpa using h)]
      simp [columns]
  | succ w ih =>
      rw [columns, setw, decimal_eq]
      by_cases hsmall : n < 10
      · rw [if_pos hsmall, Nat.div_eq_of_lt hsmall, columns_zero]
        simp
      · rw [if_neg hsmall, ← ih (by rw [Nat.pow_succ] at h; omega), setw, List.length_append, List.length_singleton,
          Nat.add_sub_add_right, List.append_assoc]

/-! ## Later times are greater texts -/

namespace TimeVal

/-- The time in microseconds. -/
def micros (tv : TimeVal) : Nat := tv.sec * 1000000 + tv.usec

theorem micros_div (tv : TimeVal) : tv.micros / 1000000 = tv.sec := by
  have := tv.usec_lt
  unfold micros
  omega

theorem micros_mod (tv : TimeVal) : tv.micros % 1000000 = tv.usec := by
  have := tv.usec_lt
  unfold micros
  omega

theorem micros_injective : Function.Injective micros := by
  intro a b h
  ext
  · rw [← micros_div a, ← micros_div b, h]
  · rw [← micros_mod a, ← micros_mod b, h]

instance : LinearOrder TimeVal := LinearOrder.lift' micros micros_injective

/-- The date of a time. -/
def date (tv : TimeVal) : Date := Date.ofDays (tv.sec / 86400)

/-- The numbers that are printed. -/
def fields (tv : TimeVal) : List Nat :=
  tv.date.key ++ [tv.sec / 3600 % 24] ++ [tv.sec / 60 % 60] ++ [tv.sec % 60] ++ [tv.usec]

/-- **The numbers order the times**: day, hour, minute, second and microsecond, each the rest of the one before. -/
theorem strictMono_fields : StrictMono fields := by
  have hday := Date.strictMono_key
  have hhour := strictMono_remainder (k := 3) hday (fun _ => rfl) 24
  have hminute := strictMono_remainder (k := 4) hhour (fun _ => rfl) 60
  have hsecond := strictMono_remainder (k := 5) hminute (fun _ => rfl) 60
  have hmicro := strictMono_remainder (k := 6) hsecond (fun _ => rfl) 1000000
  intro a b h
  have hfields (tv : TimeVal) : fields tv = (Date.ofDays (tv.micros / 1000000 / 60 / 60 / 24)).key ++
      [tv.micros / 1000000 / 60 / 60 % 24] ++ [tv.micros / 1000000 / 60 % 60] ++ [tv.micros / 1000000 % 60] ++
      [tv.micros % 1000000] := by
    rw [micros_div, micros_mod, Nat.div_div_eq_div_mul tv.sec, Nat.div_div_eq_div_mul tv.sec]
    rfl
  rw [hfields, hfields]
  exact hmicro h

end TimeVal

/-- The columns of `formatDateTimeUTC`. -/
def layout : List (Nat × Str) :=
  [(4, lit "-"), (2, lit "-"), (2, lit "T"), (2, lit ":"), (2, lit ":"), (2, lit "."), (6, lit "Z")]

/-- The times whose year has four digits at most. -/
def printable : Set TimeVal := {tv | tv.date.year ≤ 9999}

instance (tv : TimeVal) : Decidable (tv ∈ printable) := inferInstanceAs (Decidable (tv.date.year ≤ 9999))

theorem fits_fields {tv : TimeVal} (h : tv ∈ printable) : Fits 10 layout tv.fields := by
  have hyear : tv.date.year ≤ 9999 := h
  have hmonth := tv.date.month_le
  have hday := tv.date.day_le.trans (monthLength_le _ _)
  have husec := tv.usec_lt
  show List.Forall₂ _ layout
    [tv.date.year, tv.date.month, tv.date.day, tv.sec / 3600 % 24, tv.sec / 60 % 60, tv.sec % 60, tv.usec]
  simp only [layout, List.forall₂_cons, List.forall₂_nil_left_iff, and_true]
  omega

/-- The date of the calendar is not before the year 1970, and the source adds what `struct tm` leaves out. -/
theorem formatDateTimeUTC_eq_row {tv : TimeVal} (h : tv ∈ printable) :
    formatDateTimeUTC tv = row 10 digit layout tv.fields := by
  have hyear : (gmtime tv.sec).year + 1900 = tv.date.year :=
    Nat.sub_add_cancel (Nat.le_trans (by decide) (Date.le_year_ofDays (tv.sec / 86400)))
  have hmonth : (gmtime tv.sec).mon + 1 = tv.date.month := Nat.sub_add_cancel tv.date.month_pos
  have hfits := fits_fields h
  show setw 4 ((gmtime tv.sec).year + 1900) ++ _ ++ setw 2 ((gmtime tv.sec).mon + 1) ++ _ ++ setw 2 tv.date.day ++ _ ++
    setw 2 (tv.sec / 3600 % 24) ++ _ ++ setw 2 (tv.sec / 60 % 60) ++ _ ++ setw 2 (tv.sec % 60) ++ _ ++ setw 6 tv.usec ++ _
    = row 10 digit layout
        [tv.date.year, tv.date.month, tv.date.day, tv.sec / 3600 % 24, tv.sec / 60 % 60, tv.sec % 60, tv.usec]
  change List.Forall₂ _ layout
    [tv.date.year, tv.date.month, tv.date.day, tv.sec / 3600 % 24, tv.sec / 60 % 60, tv.sec % 60, tv.usec] at hfits
  simp only [layout, List.forall₂_cons, List.forall₂_nil_left_iff, and_true] at hfits
  obtain ⟨h₁, h₂, h₃, h₄, h₅, h₆, h₇⟩ := hfits
  rw [hyear, hmonth, setw_eq_columns h₁, setw_eq_columns h₂, setw_eq_columns h₃, setw_eq_columns h₄, setw_eq_columns h₅,
    setw_eq_columns h₆, setw_eq_columns h₇]
  simp only [layout, row, List.append_assoc, List.append_nil]

theorem digit_strictMonoOn : StrictMonoOn digit (Set.Iio 10) := by
  intro m hm n hn h
  have htoNat {d : Nat} (hd : d < 10) : (digit d).toNat = 48 + d := by
    interval_cases d <;> rfl
  rw [UInt8.lt_iff_toNat_lt, htoNat hm, htoNat hn]
  exact Nat.add_lt_add_left h 48

theorem formatDateTimeUTC_strictMonoOn : StrictMonoOn formatDateTimeUTC printable := by
  intro a ha b hb h
  rw [formatDateTimeUTC_eq_row ha, formatDateTimeUTC_eq_row hb]
  exact row_strictMonoOn (by decide) digit_strictMonoOn layout (fits_fields ha) (fits_fields hb)
    (TimeVal.strictMono_fields h)

/-- **The texts are in the order of the times** up to the year 9999, so times are told apart by them too. -/
theorem formatDateTimeUTC_lt_iff {a b : TimeVal} (ha : a.date.year ≤ 9999) (hb : b.date.year ≤ 9999) :
    formatDateTimeUTC a < formatDateTimeUTC b ↔ a.sec < b.sec ∨ a.sec = b.sec ∧ a.usec < b.usec := by
  rw [formatDateTimeUTC_strictMonoOn.lt_iff_lt ha hb]
  show a.micros < b.micros ↔ _
  have := a.usec_lt
  have := b.usec_lt
  unfold TimeVal.micros
  omega

/-- The last microsecond of February 1970. -/
def februaryEnds : TimeVal := ⟨5097599, 999999, by decide⟩

/-- The first of March 1970. -/
def marchBegins : TimeVal := ⟨5097600, 0, by decide⟩

theorem formatDateTimeUTC_lt_march : formatDateTimeUTC februaryEnds < formatDateTimeUTC marchBegins :=
  (formatDateTimeUTC_lt_iff (by decide +kernel) (by decide +kernel)).mpr (by decide)

example : formatDateTimeUTC februaryEnds = lit "1970-02-28T23:59:59.999999Z" := by decide +kernel

end Dodo.Common
