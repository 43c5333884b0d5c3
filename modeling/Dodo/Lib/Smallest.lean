import Mathlib.Data.Finset.Max
import Dodo.Lib.While

/-!
# `Lib.Smallest` — dropping the smallest elements of a finite set

A bounded collection that drops its smallest element until at most `n` are left. `surplus s n` is what it drops, said
without the loop: the elements that have at least `n` greater ones. The rest are at most `n`, and each of them is greater
than everything that was dropped.
-/

namespace Dodo.Lib

variable {α : Type*} [LinearOrder α] {s : Finset α} {n : Nat} {a b : α}

/-- The elements of `s` that are greater than `a`. -/
def above (s : Finset α) (a : α) : Finset α := s.filter (a < ·)

/-- All but the `n` greatest elements. -/
def surplus (s : Finset α) (n : Nat) : Finset α := s.filter (fun a => n ≤ (above s a).card)

theorem mem_surplus : a ∈ surplus s n ↔ a ∈ s ∧ n ≤ (above s a).card := Finset.mem_filter

theorem above_subset_of_le (h : a ≤ b) : above s b ⊆ above s a := by
  intro c hc
  rw [above, Finset.mem_filter] at hc ⊢
  exact ⟨hc.1, h.trans_lt hc.2⟩

/-- What is kept is greater than what is dropped. -/
theorem lt_of_mem_surplus (ha : a ∈ surplus s n) (hb : b ∈ s) (hkept : b ∉ surplus s n) : a < b := by
  by_contra hle
  have hcard := Finset.card_le_card (above_subset_of_le (s := s) (not_lt.mp hle))
  exact hkept (mem_surplus.mpr ⟨hb, (mem_surplus.mp ha).2.trans hcard⟩)

theorem surplus_eq_empty (h : s.card ≤ n) : surplus s n = ∅ := by
  rw [surplus, Finset.filter_eq_empty_iff]
  intro a ha hmany
  have hproper : (above s a).card < s.card :=
    Finset.card_lt_card (Finset.filter_ssubset.mpr ⟨a, ha, lt_irrefl a⟩)
  omega

section Least

variable [DecidableEq α] {m : α} (hleast : ∀ b ∈ s, m ≤ b)
include hleast

theorem above_least : above s m = s.erase m := by
  ext b
  rw [above, Finset.mem_filter, Finset.mem_erase]
  constructor
  · rintro ⟨hb, hlt⟩
    exact ⟨hlt.ne', hb⟩
  · rintro ⟨hne, hb⟩
    exact ⟨hb, lt_of_le_of_ne (hleast b hb) hne.symm⟩

theorem above_erase_least (hb : b ∈ s) : above (s.erase m) b = above s b := by
  ext c
  simp only [above, Finset.mem_filter, Finset.mem_erase]
  constructor
  · rintro ⟨⟨_, hc⟩, hlt⟩
    exact ⟨hc, hlt⟩
  · rintro ⟨hc, hlt⟩
    exact ⟨⟨((hleast b hb).trans_lt hlt).ne', hc⟩, hlt⟩

theorem surplus_eq_insert_least (hm : m ∈ s) (h : n < s.card) : surplus s n = insert m (surplus (s.erase m) n) := by
  ext b
  rw [Finset.mem_insert, mem_surplus, mem_surplus, Finset.mem_erase]
  constructor
  · rintro ⟨hb, hmany⟩
    by_cases heq : b = m
    · exact .inl heq
    · exact .inr ⟨⟨heq, hb⟩, by rwa [above_erase_least hleast hb]⟩
  · rintro (rfl | ⟨⟨_, hb⟩, hmany⟩)
    · refine ⟨hm, ?_⟩
      rw [above_least hleast, Finset.card_erase_of_mem hm]
      omega
    · exact ⟨hb, by rwa [above_erase_least hleast hb] at hmany⟩

end Least

/-- The smallest element is dropped, and then what is still too much. -/
theorem surplus_eq_insert [DecidableEq α] (hs : s.Nonempty) (h : n < s.card) :
    surplus s n = insert (s.min' hs) (surplus (s.erase (s.min' hs)) n) :=
  surplus_eq_insert_least (fun b hb => s.min'_le b hb) (s.min'_mem hs) h

/-- As many are kept as there is room for. -/
theorem card_sdiff_surplus [DecidableEq α] : (s \ surplus s n).card = min n s.card := by
  induction hcard : s.card generalizing s with
  | zero =>
      rw [Finset.card_eq_zero.mp hcard]
      simp
  | succ k ih =>
      by_cases hlong : n < s.card
      · have hs : s.Nonempty := Finset.card_pos.mp (by omega)
        have herase : (s.erase (s.min' hs)).card = k := by
          rw [Finset.card_erase_of_mem (s.min'_mem hs)]
          omega
        rw [surplus_eq_insert hs hlong, Finset.sdiff_insert, ← Finset.erase_sdiff_comm, ih herase]
        omega
      · rw [surplus_eq_empty (not_lt.mp hlong), Finset.sdiff_empty]
        omega

/-- Only the order of the elements matters. -/
theorem surplus_image {β : Type*} [LinearOrder β] [DecidableEq β] {f : α → β} (hf : StrictMonoOn f s) :
    surplus (s.image f) n = (surplus s n).image f := by
  have habove {a : α} (ha : a ∈ s) : above (s.image f) (f a) = (above s a).image f := by
    ext b
    simp only [above, Finset.mem_filter, Finset.mem_image]
    constructor
    · rintro ⟨⟨c, hc, rfl⟩, hlt⟩
      exact ⟨c, ⟨hc, (hf.lt_iff_lt ha hc).mp hlt⟩, rfl⟩
    · rintro ⟨c, ⟨hc, hlt⟩, rfl⟩
      exact ⟨⟨c, hc, rfl⟩, hf ha hc hlt⟩
  have hcard {a : α} (ha : a ∈ s) : (above (s.image f) (f a)).card = (above s a).card := by
    rw [habove ha]
    exact Finset.card_image_of_injOn (hf.injOn.mono (Finset.filter_subset _ _))
  ext b
  rw [mem_surplus, Finset.mem_image, Finset.mem_image]
  constructor
  · rintro ⟨⟨a, ha, rfl⟩, hmany⟩
    exact ⟨a, mem_surplus.mpr ⟨ha, hcard ha ▸ hmany⟩, rfl⟩
  · rintro ⟨a, ha, rfl⟩
    obtain ⟨has, hmany⟩ := mem_surplus.mp ha
    exact ⟨⟨a, has, rfl⟩, (hcard has).symm ▸ hmany⟩

/-! ## What is kept

Elements that come in later: what was dropped before does not matter for what is kept in the end. -/

/-- The `n` greatest elements. -/
def greatest [DecidableEq α] (s : Finset α) (n : Nat) : Finset α := s \ surplus s n

section Greatest

variable [DecidableEq α]

theorem mem_greatest : a ∈ greatest s n ↔ a ∈ s ∧ (above s a).card < n := by
  rw [greatest, Finset.mem_sdiff, mem_surplus, not_and, not_le]
  exact ⟨fun h => ⟨h.1, h.2 h.1⟩, fun h => ⟨h.1, fun _ => h.2⟩⟩

theorem greatest_subset : greatest s n ⊆ s := Finset.sdiff_subset

/-- Only from a set that is too large something is dropped. -/
theorem le_card_greatest (ha : a ∈ surplus s n) : n ≤ (greatest s n).card := by
  -- the elements above the greatest one that is dropped are kept
  have hne : (surplus s n).Nonempty := ⟨a, ha⟩
  have hmem := (surplus s n).max'_mem hne
  have hsubset : above s ((surplus s n).max' hne) ⊆ greatest s n := by
    intro b hb
    obtain ⟨hbs, hlt⟩ := Finset.mem_filter.mp hb
    refine Finset.mem_sdiff.mpr ⟨hbs, fun hdropped => ?_⟩
    exact absurd hlt (not_lt.mpr ((surplus s n).le_max' b hdropped))
  exact (mem_surplus.mp hmem).2.trans (Finset.card_le_card hsubset)

theorem greatest_union_greatest (s t : Finset α) (n : Nat) : greatest (greatest s n ∪ t) n = greatest (s ∪ t) n := by
  have hsub : greatest s n ∪ t ⊆ s ∪ t := Finset.union_subset_union_left greatest_subset
  have habove (a : α) : above (greatest s n ∪ t) a ⊆ above (s ∪ t) a := Finset.filter_subset_filter _ hsub
  ext a
  rw [mem_greatest, mem_greatest]
  constructor
  · rintro ⟨ha, hfew⟩
    refine ⟨hsub ha, ?_⟩
    by_cases hall : above (s ∪ t) a ⊆ above (greatest s n ∪ t) a
    · exact (Finset.card_le_card hall).trans_lt hfew
    · -- something above was dropped, so all `n` that were kept are above too
      obtain ⟨c, hc, hgone⟩ := Finset.not_subset.mp hall
      obtain ⟨hcs, hlt⟩ := Finset.mem_filter.mp hc
      have hkept : c ∉ greatest s n ∪ t := fun h => hgone (Finset.mem_filter.mpr ⟨h, hlt⟩)
      rw [Finset.mem_union, not_or, greatest, Finset.mem_sdiff, not_and_not_right] at hkept
      have hdropped := hkept.1 ((Finset.mem_union.mp hcs).resolve_right hkept.2)
      have hsubset : greatest s n ⊆ above (greatest s n ∪ t) a := by
        intro b hb
        obtain ⟨hbs, hbkept⟩ := Finset.mem_sdiff.mp hb
        have hcb := lt_of_mem_surplus hdropped hbs hbkept
        exact Finset.mem_filter.mpr ⟨Finset.mem_union_left t hb, hlt.trans hcb⟩
      exact absurd (Finset.card_le_card hsubset) (not_le.mpr (hfew.trans_le (le_card_greatest hdropped)))
  · rintro ⟨ha, hfew⟩
    refine ⟨?_, (Finset.card_le_card (habove a)).trans_lt hfew⟩
    rcases Finset.mem_union.mp ha with has | hat
    · have hs : above s a ⊆ above (s ∪ t) a := Finset.filter_subset_filter _ Finset.subset_union_left
      exact Finset.mem_union_left t (mem_greatest.mpr ⟨has, (Finset.card_le_card hs).trans_lt hfew⟩)
    · exact Finset.mem_union_right _ hat

end Greatest

end Dodo.Lib
