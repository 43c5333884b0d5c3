import Mathlib.Init

/-!
# `Lib.While` — `while` loops over a pure state

`loop n` makes at most `n` passes. A run of passes is `Steps`; where the passes lower a measure, more passes
than the measure bring the loop to its end, and the end is the same whatever way it is reached.
-/

namespace Dodo.Lib.While

variable {S : Type} {cond : S → Bool} {body : S → S} {s t u : S}

/-- At most `n` passes of `while ( cond ) body`. -/
def loop (cond : S → Bool) (body : S → S) : Nat → S → S
  | 0, s => s
  | n + 1, s => if cond s then loop cond body n (body s) else s

/-- Some passes of the loop lead from one state to another. -/
inductive Steps (cond : S → Bool) (body : S → S) : S → S → Prop where
  | refl (s : S) : Steps cond body s s
  | pass {s t : S} (going : cond s = true) (rest : Steps cond body (body s) t) : Steps cond body s t

theorem Steps.trans (h : Steps cond body s t) (h' : Steps cond body t u) : Steps cond body s u := by
  induction h with
  | refl => exact h'
  | pass going rest ih => exact .pass going (ih h')

theorem Steps.single (going : cond s = true) : Steps cond body s (body s) := .pass going (.refl _)

/-- **Invariants**: what every pass keeps holds wherever the loop comes to. -/
theorem Steps.preserves {P : S → Prop} (hpass : ∀ s, cond s = true → P s → P (body s)) (h : Steps cond body s t)
    (hs : P s) : P t := by
  induction h with
  | refl => exact hs
  | pass going rest ih => exact ih (hpass _ going hs)

/-- A loop ends in one state. -/
theorem Steps.unique (h : Steps cond body s t) (h' : Steps cond body s u) (ht : cond t = false)
    (hu : cond u = false) : t = u := by
  induction h with
  | refl s =>
      cases h' with
      | refl => rfl
      | pass going => exact absurd going (by simp [ht])
  | pass going rest ih =>
      cases h' with
      | refl => exact absurd going (by simp [hu])
      | pass _ rest' => exact ih rest' ht

theorem steps_loop (n : Nat) (s : S) : Steps cond body s (loop cond body n s) := by
  induction n generalizing s with
  | zero => exact .refl s
  | succ n ih =>
      unfold loop
      split
      · exact .pass ‹_› (ih _)
      · exact .refl s

theorem loop_of_ended (n : Nat) (h : cond s = false) : loop cond body n s = s := by
  cases n with
  | zero => rfl
  | succ n => simp [loop, h]

/-- **Termination**: a pass that does not end the loop lowers the measure. -/
theorem loop_ended (measure : S → Nat)
    (hlower : ∀ s, cond s = true → cond (body s) = true → measure (body s) < measure s) {n : Nat}
    (hn : measure s < n) : cond (loop cond body n s) = false := by
  induction n generalizing s with
  | zero => exact absurd hn (Nat.not_lt_zero _)
  | succ n ih =>
      unfold loop
      by_cases hs : cond s = true
      · rw [if_pos hs]
        by_cases hbody : cond (body s) = true
        · exact ih (Nat.lt_of_lt_of_le (hlower s hs hbody) (Nat.le_of_lt_succ hn))
        · have hended := Bool.eq_false_iff.mpr hbody
          rw [loop_of_ended n hended]
          exact hended
      · rw [if_neg hs]
        exact Bool.eq_false_iff.mpr hs

end Dodo.Lib.While
