import Mathlib.Data.List.Basic
import Mathlib.Data.List.TakeWhile
import Mathlib.Order.Lattice

/-!
# `Lib.Multimap` — maps, and maps that hold several values for one index

A multimap keeps its pairs in the order of their indices; among equal indices the one inserted last
comes last. The order is a field of the structure, so every multimap is sorted.
-/

namespace Dodo.Lib

/-- The value written last stays. -/
theorem insert_insert {κ ν : Type} [Ord κ] [Std.TransOrd κ] [Std.LawfulEqOrd κ]
    {m : Std.ExtTreeMap κ ν compare} {k : κ} {a b : ν} : (m.insert k a).insert k b = m.insert k b := by
  apply Std.ExtTreeMap.ext_getElem?
  intro k
  simp only [Std.ExtTreeMap.getElem?_insert]
  split <;> rfl

structure Multimap (τ κ : Type) [LinearOrder τ] where
  entries : List (τ × κ)
  sorted : entries.Pairwise fun a b => a.1 ≤ b.1

namespace Multimap

variable {τ κ : Type} [LinearOrder τ]

def empty : Multimap τ κ := ⟨[], .nil⟩

/-- The values, in the order of their indices. -/
def values (m : Multimap τ κ) : List κ := m.entries.map Prod.snd

theorem pairwise_insert {l : List (τ × κ)} (h : l.Pairwise fun a b => a.1 ≤ b.1) (t : τ) (k : κ) :
    (l.takeWhile (fun e => e.1 ≤ t) ++ (t, k) :: l.dropWhile (fun e => e.1 ≤ t)).Pairwise
      fun a b => a.1 ≤ b.1 := by
  have hsplit := h
  rw [← List.takeWhile_append_dropWhile (p := fun e => decide (e.1 ≤ t)) (l := l),
    List.pairwise_append] at hsplit
  have hfront : ∀ a ∈ l.takeWhile (fun e => e.1 ≤ t), a.1 ≤ t := by
    intro a ha
    simpa using List.mem_takeWhile_imp ha
  have hback : ∀ b ∈ l.dropWhile (fun e => e.1 ≤ t), t ≤ b.1 := by
    intro b hb
    cases hl : l.dropWhile (fun e => e.1 ≤ t) with
    | nil => rw [hl] at hb; cases hb
    | cons c l' =>
        have hc : t < c.1 := by
          have hne : l.dropWhile (fun e => e.1 ≤ t) ≠ [] := by simp [hl]
          have hhead := List.head_dropWhile_not (fun e : τ × κ => decide (e.1 ≤ t)) hne
          simpa [hl] using hhead
        have hpair := hsplit.2.1
        rw [hl] at hpair hb
        rcases List.mem_cons.mp hb with rfl | hb
        · exact hc.le
        · exact hc.le.trans (List.rel_of_pairwise_cons hpair hb)
  refine List.pairwise_append.mpr ⟨hsplit.1, List.pairwise_cons.mpr ⟨hback, hsplit.2.1⟩, ?_⟩
  intro a ha b hb
  rcases List.mem_cons.mp hb with rfl | hb
  · exact hfront a ha
  · exact (hfront a ha).trans (hback b hb)

/-- Insert behind all pairs whose index is not greater. -/
def insert (m : Multimap τ κ) (t : τ) (k : κ) : Multimap τ κ where
  entries := m.entries.takeWhile (fun e => e.1 ≤ t) ++ (t, k) :: m.entries.dropWhile (fun e => e.1 ≤ t)
  sorted := pairwise_insert m.sorted t k

/-- Erase the first pair. -/
def eraseFirst (m : Multimap τ κ) : Multimap τ κ := ⟨m.entries.tail, m.sorted.tail⟩

/-- Erase the first pair with the index `t` and the value `k`, if there is one. -/
def erase [DecidableEq κ] (m : Multimap τ κ) (t : τ) (k : κ) : Multimap τ κ :=
  ⟨m.entries.erase (t, k), m.sorted.sublist List.erase_sublist⟩

@[simp] theorem entries_empty : (empty : Multimap τ κ).entries = [] := rfl

@[simp] theorem entries_erase [DecidableEq κ] {m : Multimap τ κ} {t : τ} {k : κ} :
    (m.erase t k).entries = m.entries.erase (t, k) := rfl

/-- A pair whose index is not less than any other goes to the end. -/
theorem entries_insert {m : Multimap τ κ} {t : τ} {k : κ} (h : ∀ e ∈ m.entries, e.1 ≤ t) :
    (m.insert t k).entries = m.entries ++ [(t, k)] := by
  have hall : ∀ e ∈ m.entries, decide (e.1 ≤ t) = true := by simpa using h
  show m.entries.takeWhile _ ++ (t, k) :: m.entries.dropWhile _ = _
  rw [List.takeWhile_eq_self_iff.mpr hall, List.dropWhile_eq_nil_iff.mpr hall]

/-- Wherever it goes, one pair is inserted. -/
theorem perm_insert {m : Multimap τ κ} {t : τ} {k : κ} : (m.insert t k).entries.Perm ((t, k) :: m.entries) := by
  have hperm : (m.insert t k).entries.Perm ((t, k) ::
      (m.entries.takeWhile (fun e => e.1 ≤ t) ++ m.entries.dropWhile (fun e => e.1 ≤ t))) := List.perm_middle
  rwa [List.takeWhile_append_dropWhile] at hperm

/-- Where every value stands once, erasing a pair is erasing its value. -/
theorem values_erase [DecidableEq κ] {m : Multimap τ κ} {t : τ} {k : κ} (hnodup : m.values.Nodup)
    (hmem : (t, k) ∈ m.entries) : (m.erase t k).values = m.values.erase k := by
  unfold values at *
  rw [entries_erase]
  generalize m.entries = l at hnodup hmem
  induction l with
  | nil => cases hmem
  | cons e l ih =>
      rw [List.map_cons, List.nodup_cons] at hnodup
      by_cases he : e = (t, k)
      · subst he
        simp
      · have hmem : (t, k) ∈ l := by
          rcases List.mem_cons.mp hmem with h | h
          · exact absurd h.symm he
          · exact h
        have hk : e.2 ≠ k := by
          rintro rfl
          exact hnodup.1 (List.mem_map.mpr ⟨_, hmem, rfl⟩)
        rw [List.erase_cons_tail (by simpa using he), List.map_cons, List.map_cons,
          List.erase_cons_tail (by simpa using hk), ih hnodup.2 hmem]

end Multimap
end Dodo.Lib
