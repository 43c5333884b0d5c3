import Mathlib.Logic.Function.Basic

/-!
# `Lib.Ownership` — things that are in one place at a time

Things `ι` come into being, are handed from place to place (`π`) and cease to be. An owner map says where
each thing is, so it cannot be in two places. A system in which things are spread over queues, sets and
threads refines such a map if it counts each thing once in its place and nowhere else.
-/

namespace Dodo.Lib.Ownership

variable {ι π : Type}

/-- Where each thing is; `none` where it does not exist. -/
abbrev Owner (ι π : Type) := ι → Option π

/-- One thing changes its place, as `allowed` says. -/
def Step [DecidableEq ι] (allowed : Option π → Option π → Prop) (owner owner' : Owner ι π) : Prop :=
  ∃ i place, allowed (owner i) place ∧ owner' = Function.update owner i place

/-- `count x i` is how often the thing `i` occurs in the place `x`. -/
def Tracks [DecidableEq π] (owner : Owner ι π) (count : π → ι → Nat) : Prop :=
  ∀ x i, count x i = if owner i = some x then 1 else 0

variable [DecidableEq π] {owner : Owner ι π} {count count' : π → ι → Nat} {i j : ι} {x y : π} {place : Option π}

theorem Tracks.count_eq_one (h : Tracks owner count) : count x i = 1 ↔ owner i = some x := by
  rw [h x i]
  split <;> simp_all

theorem Tracks.count_eq_zero (h : Tracks owner count) : count x i = 0 ↔ owner i ≠ some x := by
  rw [h x i]
  split <;> simp_all

/-- **A thing that exists is in exactly one place.** -/
theorem Tracks.exactly_one (h : Tracks owner count) (hi : (owner i).isSome) :
    ∃ x, count x i = 1 ∧ ∀ y, y ≠ x → count y i = 0 := by
  obtain ⟨x, hx⟩ := Option.isSome_iff_exists.mp hi
  refine ⟨x, h.count_eq_one.mpr hx, ?_⟩
  intro y hne
  rw [h.count_eq_zero, hx]
  intro heq
  exact hne (Option.some.inj heq).symm

omit [DecidableEq π] in
/-- A thing that is moved still exists. -/
theorem isSome_update [DecidableEq ι] (hi : (owner i).isSome) :
    (Function.update owner i (some x) j).isSome ↔ (owner j).isSome := by
  by_cases hj : j = i
  · subst hj
    rw [Function.update_self]
    exact iff_of_true rfl hi
  · rw [Function.update_of_ne hj]

/-- The counts follow the owner map when one thing is moved. -/
theorem Tracks.move [DecidableEq ι] (h : Tracks owner count) (hmoved : ∀ x, count' x i = if place = some x then 1 else 0)
    (hother : ∀ x j, j ≠ i → count' x j = count x j) : Tracks (Function.update owner i place) count' := by
  intro x j
  by_cases hj : j = i
  · subst hj
    rw [Function.update_self, hmoved]
  · rw [Function.update_of_ne hj, hother x j hj, h x j]

end Dodo.Lib.Ownership
