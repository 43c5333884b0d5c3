import Mathlib.Data.List.Basic
import Mathlib.Data.List.Nodup

/-!
# `Lib.Lru` — an ideal cache that gives up what was not used for the longest time

The cache is the list of its keys, the one used least recently first. A use moves its key to the end, and
a key that does not fit pushes out the first one. That this is the order in which the keys were last used
is a theorem about the list of all uses.
-/

namespace Dodo.Lib.Lru

variable {κ : Type} [DecidableEq κ]

/-- Use the key `k` of the cache `order`. -/
def use (order : List κ) (k : κ) : List κ := order.erase k ++ [k]

/-- Use the key `k`, which is new, in a cache of at most `max` keys: where there are more now, the first
    one goes. -/
def insert (max : Nat) (order : List κ) (k : κ) : List κ :=
  if max < order.length + 1 then (order ++ [k]).tail else order ++ [k]

/-- `a` was last used before `b`; `uses` are the keys in the order of their uses, the newest first. -/
def Older (uses : List κ) (a b : κ) : Prop := uses.idxOf b < uses.idxOf a

instance (uses : List κ) (a b : κ) : Decidable (Older uses a b) := Nat.decLt _ _

/-- Every key of the cache was used, and the cache lists them in the order of their last use. -/
structure Ordered (uses order : List κ) : Prop where
  used : ∀ a ∈ order, a ∈ uses
  pairwise : order.Pairwise (Older uses)

variable {uses order order' : List κ} {a b k : κ} {max : Nat}

theorem older_cons_self (h : a ≠ k) : Older (k :: uses) a k := by
  unfold Older
  rw [List.idxOf_cons_self, List.idxOf_cons_ne _ (Ne.symm h)]
  exact Nat.succ_pos _

/-- A use does not change the order of the other keys. -/
theorem older_cons_iff (ha : a ≠ k) (hb : b ≠ k) : Older (k :: uses) a b ↔ Older uses a b := by
  unfold Older
  rw [List.idxOf_cons_ne _ (Ne.symm ha), List.idxOf_cons_ne _ (Ne.symm hb)]
  exact Nat.succ_lt_succ_iff

theorem Ordered.nodup (h : Ordered uses order) : order.Nodup := by
  apply List.Pairwise.imp _ h.pairwise
  intro a b hab heq
  subst heq
  exact Nat.lt_irrefl _ hab

theorem Ordered.sublist (h : Ordered uses order) (hsub : order'.Sublist order) : Ordered uses order' where
  used a ha := h.used a (hsub.subset ha)
  pairwise := List.Pairwise.sublist hsub h.pairwise

/-- A key that is not in the cache yet goes to its end. -/
theorem Ordered.append (h : Ordered uses order) (hk : k ∉ order) : Ordered (k :: uses) (order ++ [k]) := by
  have hne : ∀ a ∈ order, a ≠ k := by
    intro a ha heq
    exact hk (heq ▸ ha)
  constructor
  · intro a ha
    rcases List.mem_append.mp ha with ha | ha
    · exact List.mem_cons_of_mem k (h.used a ha)
    · rw [List.mem_singleton.mp ha]
      exact List.mem_cons_self
  · rw [List.pairwise_append]
    refine ⟨?_, List.pairwise_singleton _ _, ?_⟩
    · apply List.Pairwise.imp_of_mem _ h.pairwise
      intro a b ha hb hab
      exact (older_cons_iff (hne a ha) (hne b hb)).mpr hab
    · intro a ha b hb
      rw [List.mem_singleton.mp hb]
      exact older_cons_self (hne a ha)

/-- **A cache that is too full gives up one key**, the one whose last use is the oldest. It is not the new
    key, unless no key fits at all. -/
theorem Ordered.insert_full (h : Ordered uses order) (hk : k ∉ order) (hfull : max < order.length + 1) :
    ∃ victim, order ++ [k] = victim :: Lru.insert max order k ∧
      (∀ a ∈ Lru.insert max order k, Older (k :: uses) victim a) ∧ (1 ≤ max → victim ≠ k) := by
  have hordered := (h.append hk).pairwise
  unfold Lru.insert
  rw [if_pos hfull]
  cases order with
  | nil =>
      refine ⟨k, rfl, by simp, ?_⟩
      intro hmax
      simp only [List.length_nil] at hfull
      omega
  | cons victim order =>
      refine ⟨victim, rfl, ?_, ?_⟩
      · intro a ha
        exact List.rel_of_pairwise_cons hordered ha
      · intro _ heq
        exact hk (heq ▸ List.mem_cons_self)

end Dodo.Lib.Lru
