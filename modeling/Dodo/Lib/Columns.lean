import Mathlib.Data.List.Forall2
import Mathlib.Data.List.Lex
import Mathlib.Order.Monotone.Basic
import Mathlib.Algebra.Order.Ring.Nat

/-!
# `Lib.Columns` — numbers in columns of fixed width

A quantity that is given by several numbers, each of which counts what is left of the one before, is ordered as the list
of these numbers is (`strictMono_remainder`). Written with leading zeros, in columns that are wide enough, the numbers
are ordered as texts in the same way (`row_strictMonoOn`): the first column that differs decides, whatever stands between
the columns.
-/

namespace Dodo.Lib

variable {α : Type*} [LinearOrder α]

/-- Texts that begin with parts of the same length are compared part by part. -/
theorem append_lt_append_of_length {a b x y : List α} (h : a.length = b.length) :
    a ++ x < b ++ y ↔ a < b ∨ a = b ∧ x < y := by
  induction a generalizing b with
  | nil =>
      obtain rfl := List.eq_nil_of_length_eq_zero h.symm
      simp
  | cons c a ih =>
      cases b with
      | nil => cases h
      | cons d b =>
          rw [List.cons_append, List.cons_append, List.cons_lt_cons_iff, List.cons_lt_cons_iff, ih (Nat.succ.inj h),
            List.cons.injEq]
          tauto

/-! ## Quotients and remainders -/

/-- Of two numbers the one with the smaller quotient is smaller, or the one with the smaller remainder. -/
theorem div_lt_or_mod_lt {m n : Nat} (h : m < n) (d : Nat) : m / d < n / d ∨ m / d = n / d ∧ m % d < n % d := by
  rcases (Nat.div_le_div_right h.le : m / d ≤ n / d).lt_or_eq with hlt | heq
  · exact .inl hlt
  · refine .inr ⟨heq, ?_⟩
    have hm := Nat.div_add_mod m d
    have hn := Nat.div_add_mod n d
    rw [heq] at hm
    omega

/-- What is counted in units of `d` and a rest is ordered by the list of the two. -/
theorem strictMono_remainder {key : Nat → List Nat} {k : Nat} (hkey : StrictMono key) (hlength : ∀ n, (key n).length = k)
    (d : Nat) : StrictMono (fun n => key (n / d) ++ [n % d]) := by
  intro m n h
  show key (m / d) ++ [m % d] < key (n / d) ++ [n % d]
  rw [append_lt_append_of_length ((hlength _).trans (hlength _).symm)]
  rcases div_lt_or_mod_lt h d with hlt | ⟨heq, hlt⟩
  · exact .inl (hkey hlt)
  · exact .inr ⟨congrArg key heq, List.Lex.rel hlt⟩

/-! ## Columns of digits -/

/-- The `w` lowest digits of a number, the highest of them first. -/
def columns (b : Nat) (digit : Nat → α) : Nat → Nat → List α
  | 0, _ => []
  | w + 1, n => columns b digit w (n / b) ++ [digit (n % b)]

/-- The numbers one after the other, each in its column, with the text that follows the column. -/
def row (b : Nat) (digit : Nat → α) : List (Nat × List α) → List Nat → List α
  | (w, between) :: layout, n :: ns => columns b digit w n ++ (between ++ row b digit layout ns)
  | _, _ => []

/-- There is a column for every number, and it is wide enough. -/
def Fits (b : Nat) (layout : List (Nat × List α)) (ns : List Nat) : Prop :=
  List.Forall₂ (fun column n => n < b ^ column.1) layout ns

variable {b : Nat} {digit : Nat → α}

omit [LinearOrder α] in
@[simp] theorem length_columns (w n : Nat) : (columns b digit w n).length = w := by
  induction w generalizing n with
  | zero => rfl
  | succ w ih => rw [columns, List.length_append, ih, List.length_singleton]

section Digits

variable (hb : 0 < b) (hdigit : StrictMonoOn digit (Set.Iio b))
include hb hdigit

theorem columns_strictMonoOn (w : Nat) : StrictMonoOn (columns b digit w) (Set.Iio (b ^ w)) := by
  induction w with
  | zero =>
      intro m _ n hn h
      have hzero : n < 1 := hn
      omega
  | succ w ih =>
      intro m hm n hn h
      -- the quotients are the numbers in the columns before the last one
      have hquotient {n : Nat} (hn : n < b ^ (w + 1)) : n / b < b ^ w :=
        Nat.div_lt_of_lt_mul (by rwa [Nat.pow_succ, Nat.mul_comm] at hn)
      show columns b digit w (m / b) ++ [digit (m % b)] < columns b digit w (n / b) ++ [digit (n % b)]
      rw [append_lt_append_of_length (by rw [length_columns, length_columns])]
      rcases div_lt_or_mod_lt h b with hlt | ⟨heq, hlt⟩
      · exact .inl (ih (hquotient hm) (hquotient hn) hlt)
      · exact .inr ⟨congrArg _ heq, List.Lex.rel (hdigit (Nat.mod_lt m hb) (Nat.mod_lt n hb) hlt)⟩

/-- **Rows are ordered as the lists of their numbers.** -/
theorem row_strictMonoOn (layout : List (Nat × List α)) :
    StrictMonoOn (row b digit layout) {ns | Fits b layout ns} := by
  induction layout with
  | nil =>
      intro ns hns ms hms h
      obtain rfl := List.forall₂_nil_left_iff.mp hns
      obtain rfl := List.forall₂_nil_left_iff.mp hms
      exact absurd h (lt_irrefl _)
  | cons column layout ih =>
      intro ns hns ms hms h
      obtain ⟨n, ns, hn, hns', rfl⟩ := List.forall₂_cons_left_iff.mp hns
      obtain ⟨m, ms, hm, hms', rfl⟩ := List.forall₂_cons_left_iff.mp hms
      show columns b digit column.1 n ++ (column.2 ++ row b digit layout ns) <
        columns b digit column.1 m ++ (column.2 ++ row b digit layout ms)
      rw [append_lt_append_of_length (by rw [length_columns, length_columns])]
      rcases List.cons_lt_cons_iff.mp h with hlt | ⟨rfl, hlt⟩
      · exact .inl (columns_strictMonoOn hb hdigit _ hn hm hlt)
      · exact .inr ⟨rfl, List.Lex.append_left _ (ih hns' hms' hlt) column.2⟩

end Digits
end Dodo.Lib
