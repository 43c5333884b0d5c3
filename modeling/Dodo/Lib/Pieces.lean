import Mathlib.Data.List.Basic

/-!
# `Lib.Pieces` — a stream that arrives in pieces

A stream is a list of pieces. `dropOctets n` is what is left of it behind its first `n` elements: whole pieces,
and the rest of the piece that was cut. `gather n` is a reader that asks for up to `n` elements again and again,
until it has got `n` of them or more. It takes `n` of them, and no more, exactly if they are `InPieces`: at the
front of one piece, or in pieces of their own.
-/

namespace Dodo.Lib

variable {α : Type} {qs got rest : List (List α)} {l q : List α} {n m : Nat}

/-- What holds of every element of a list and those in front of it, by its first element. -/
theorem forall_front_cons {a : α} {l : List α} {P : List α → α → Prop} :
    (∀ front x back, a :: l = front ++ x :: back → P front x) ↔
      P [] a ∧ ∀ front x back, l = front ++ x :: back → P (a :: front) x := by
  constructor
  · intro h
    refine ⟨h [] a l rfl, fun front x back hl => h (a :: front) x back ?_⟩
    rw [hl, List.cons_append]
  · rintro ⟨hhead, htail⟩ front x back hl
    cases front with
    | nil =>
        obtain ⟨rfl, -⟩ := List.cons.inj hl
        exact hhead
    | cons b front =>
        obtain ⟨rfl, hback⟩ := List.cons.inj hl
        exact htail front x back hback

/-! ## What is left -/

/-- The pieces behind the first `n` elements. -/
def dropOctets (n : Nat) : List (List α) → List (List α)
  | [] => []
  | q :: qs => if q.length ≤ n then dropOctets (n - q.length) qs else q.drop n :: qs

@[simp] theorem dropOctets_nil : dropOctets n ([] : List (List α)) = [] := rfl

theorem flatten_dropOctets : (dropOctets n qs).flatten = qs.flatten.drop n := by
  induction qs generalizing n with
  | nil => simp
  | cons q qs ih =>
      rw [dropOctets, List.flatten_cons, List.drop_append]
      split
      case isTrue h => rw [ih, List.drop_eq_nil_of_le h, List.nil_append]
      case isFalse h => rw [List.flatten_cons, Nat.sub_eq_zero_of_le (by omega), List.drop_zero]

theorem dropOctets_zero (h : ∀ q ∈ qs, q ≠ []) : dropOctets 0 qs = qs := by
  cases qs with
  | nil => rfl
  | cons q qs =>
      have hq := List.length_pos_of_ne_nil (h q List.mem_cons_self)
      rw [dropOctets, if_neg (by omega), List.drop_zero]

theorem ne_nil_of_mem_dropOctets (h : ∀ q ∈ qs, q ≠ []) : ∀ q ∈ dropOctets n qs, q ≠ [] := by
  induction qs generalizing n with
  | nil => simp
  | cons q qs ih =>
      have htail := fun r hr => h r (List.mem_cons_of_mem q hr)
      rw [dropOctets]
      split
      case isTrue => exact ih htail
      case isFalse hlt =>
        intro r hr
        rcases List.mem_cons.mp hr with rfl | hr
        · rw [Ne, List.drop_eq_nil_iff]
          exact hlt
        · exact htail r hr

theorem dropOctets_add : dropOctets (n + m) qs = dropOctets m (dropOctets n qs) := by
  induction qs generalizing n with
  | nil => rfl
  | cons q qs ih =>
      by_cases hn : q.length ≤ n
      · rw [dropOctets, if_pos (by omega), dropOctets, if_pos hn, ← ih]
        congr 1
        omega
      · rw [dropOctets, dropOctets, if_neg hn, dropOctets, List.length_drop]
        by_cases hm : q.length ≤ n + m
        · rw [if_pos hm, if_pos (by omega)]
          congr 1
          omega
        · rw [if_neg hm, if_neg (by omega), List.drop_drop]

theorem dropOctets_length (h : ∀ r ∈ qs, r ≠ []) : dropOctets q.length (q :: qs) = qs := by
  rw [dropOctets, if_pos (Nat.le_refl _), Nat.sub_self, dropOctets_zero h]

/-- Behind whole pieces there are the others. -/
theorem dropOctets_flatten (h : ∀ q ∈ rest, q ≠ []) : dropOctets got.flatten.length (got ++ rest) = rest := by
  induction got with
  | nil => exact dropOctets_zero h
  | cons q got ih =>
      rw [List.cons_append, dropOctets, List.flatten_cons, List.length_append, if_pos (by omega),
        Nat.add_sub_cancel_left, ih]

/-! ## Reading -/

/-- Requests of `n` elements, until `n` have been received; `total` have been received before. -/
def gather (n : Nat) : Nat → List (List α) → Option (List (List α) × List (List α))
  | _, [] => none
  | total, q :: qs =>
    if n ≤ total + (q.take n).length then some ([q.take n], dropOctets (q.take n).length (q :: qs))
    else (gather n (total + q.length) qs).map fun (got, rest) => (q :: got, rest)

/-- A piece that is not enough is shorter than the request, which takes it whole. -/
theorem take_of_not_enough {total : Nat} {q : List α} (h : ¬ n ≤ total + (q.take n).length) : q.take n = q := by
  rw [List.length_take] at h
  exact List.take_of_length_le (by omega)

/-- The elements `l` come as the pieces `got`: these are pieces of their own, or `l` is the front of a piece. -/
def InPieces (l : List α) (got qs : List (List α)) : Prop :=
  got.flatten = l ∧ ((∃ rest, qs = got ++ rest) ∨ ∃ q rest, got = [l] ∧ qs = (l ++ q) :: rest)

theorem gather_spec {total : Nat} (h : gather n total qs = some (got, rest)) :
    qs.flatten = got.flatten ++ rest.flatten ∧ n ≤ total + got.flatten.length ∧
      rest = dropOctets got.flatten.length qs := by
  induction qs generalizing total got with
  | nil => cases h
  | cons q qs ih =>
      rw [gather] at h
      split at h
      case isTrue hn =>
        obtain ⟨rfl, rfl⟩ := Prod.mk.inj (Option.some.inj h)
        have hflat : [q.take n].flatten = q.take n := List.flatten_singleton
        refine ⟨?_, by rw [hflat]; exact hn, by rw [hflat]⟩
        have htake : q.take n = (q ++ qs.flatten).take (min n q.length) := by
          rw [List.take_append_of_le_length (Nat.min_le_right n q.length), List.take_eq_take_min]
        rw [hflat, flatten_dropOctets, List.flatten_cons, List.length_take, htake, List.take_append_drop]
      case isFalse hn =>
        obtain ⟨⟨got', rest'⟩, hgather, hpair⟩ := Option.map_eq_some_iff.mp h
        obtain ⟨rfl, rfl⟩ := Prod.mk.inj hpair
        obtain ⟨hflat, hle, hrest⟩ := ih hgather
        refine ⟨by rw [List.flatten_cons, List.flatten_cons, hflat, List.append_assoc], ?_, ?_⟩
        · rw [List.flatten_cons, List.length_append]
          omega
        · rw [List.flatten_cons, List.length_append, dropOctets, if_pos (by omega), Nat.add_sub_cancel_left]
          exact hrest

/-- No piece that is gathered is longer than the request. -/
theorem length_le_of_gather {total : Nat} (h : gather n total qs = some (got, rest)) : ∀ g ∈ got, g.length ≤ n := by
  induction qs generalizing total got with
  | nil => cases h
  | cons q qs ih =>
      rw [gather] at h
      split at h
      case isTrue =>
        obtain ⟨rfl, -⟩ := Prod.mk.inj (Option.some.inj h)
        simp only [List.mem_singleton, forall_eq, List.length_take]
        exact Nat.min_le_left n q.length
      case isFalse hlt =>
        obtain ⟨⟨got', rest'⟩, hgather, hpair⟩ := Option.map_eq_some_iff.mp h
        obtain ⟨rfl, rfl⟩ := Prod.mk.inj hpair
        rw [List.length_take] at hlt
        intro g hg
        rcases List.mem_cons.mp hg with rfl | hg
        · omega
        · exact ih hgather g hg

/-- A reader in the middle of its elements takes pieces of their own. -/
theorem gather_append {total : Nat} (hgot : got ≠ []) (hne : ∀ q ∈ got ++ rest, q ≠ []) (htotal : 0 < total)
    (h : total + got.flatten.length = n) : gather n total (got ++ rest) = some (got, rest) := by
  induction got generalizing total with
  | nil => exact absurd rfl hgot
  | cons q got ih =>
      rw [List.flatten_cons, List.length_append] at h
      have hrest : ∀ r ∈ rest, r ≠ [] := fun r hr => hne r (List.mem_append_right _ hr)
      have htake : q.take n = q := List.take_of_length_le (by omega)
      rw [List.cons_append, gather, htake]
      cases got with
      | nil =>
          rw [List.flatten_nil, List.length_nil] at h
          rw [if_pos (by omega), List.nil_append, dropOctets_length hrest]
      | cons r got =>
          have hr := List.length_pos_of_ne_nil (hne r (by simp))
          have hlong : r.length ≤ (r :: got).flatten.length := by simp
          rw [if_neg (by omega), ih (by simp) (fun x hx => hne x (List.mem_cons_of_mem q hx)) (by omega) (by omega)]
          rfl

theorem eq_append_of_gather {total : Nat} (hne : ∀ q ∈ qs, q ≠ []) (htotal : 0 < total)
    (h : gather n total qs = some (got, rest)) (hn : total + got.flatten.length = n) : qs = got ++ rest := by
  induction qs generalizing total got with
  | nil => cases h
  | cons q qs ih =>
      have htail : ∀ r ∈ qs, r ≠ [] := fun r hr => hne r (List.mem_cons_of_mem q hr)
      rw [gather] at h
      split at h
      case isTrue =>
        obtain ⟨rfl, rfl⟩ := Prod.mk.inj (Option.some.inj h)
        rw [List.flatten_singleton, List.length_take] at hn
        have htake : q.take n = q := List.take_of_length_le (by omega)
        rw [htake, dropOctets_length htail, List.singleton_append]
      case isFalse =>
        obtain ⟨⟨got', rest'⟩, hgather, hpair⟩ := Option.map_eq_some_iff.mp h
        obtain ⟨rfl, rfl⟩ := Prod.mk.inj hpair
        rw [List.flatten_cons, List.length_append] at hn
        rw [ih htail (by omega) hgather (by omega), List.cons_append]

/-- **Exact reading**: elements that come in pieces of their own, or at the front of one, are read and nothing
    else is. -/
theorem gather_of_inPieces (hne : ∀ q ∈ qs, q ≠ []) (hl : l ≠ []) (h : InPieces l got qs) :
    gather l.length 0 qs = some (got, dropOctets l.length qs) := by
  obtain ⟨rfl, ⟨rest, rfl⟩ | ⟨q, rest, hgot, rfl⟩⟩ := h
  · cases got with
    | nil => exact absurd rfl hl
    | cons q got =>
        have hq := List.length_pos_of_ne_nil (hne q (by simp))
        have hrest : ∀ r ∈ rest, r ≠ [] := fun r hr => hne r (List.mem_append_right _ hr)
        rw [dropOctets_flatten hrest, List.flatten_cons, List.length_append, List.cons_append, gather,
          List.take_of_length_le (by omega)]
        cases got with
        | nil =>
            rw [if_pos (by simp), List.nil_append, dropOctets_length hrest]
        | cons r got =>
            have hr := List.length_pos_of_ne_nil (hne r (by simp))
            have hlong : r.length ≤ (r :: got).flatten.length := by simp
            rw [if_neg (by omega),
              gather_append (by simp) (fun x hx => hne x (List.mem_cons_of_mem q hx)) (by omega) (by omega)]
            rfl
  · rw [gather, List.take_left, if_pos (by omega)]
    rw [← hgot]

theorem inPieces_of_gather (hne : ∀ q ∈ qs, q ≠ []) (h : gather n 0 qs = some (got, rest))
    (hlength : got.flatten.length = n) : InPieces got.flatten got qs := by
  refine ⟨rfl, ?_⟩
  cases qs with
  | nil => cases h
  | cons q qs =>
      rw [gather] at h
      split at h
      case isTrue =>
        obtain ⟨rfl, -⟩ := Prod.mk.inj (Option.some.inj h)
        rw [List.flatten_singleton]
        exact .inr ⟨q.drop n, qs, rfl, by rw [List.take_append_drop]⟩
      case isFalse =>
        obtain ⟨⟨got', rest'⟩, hgather, hpair⟩ := Option.map_eq_some_iff.mp h
        obtain ⟨rfl, rfl⟩ := Prod.mk.inj hpair
        have hq := List.length_pos_of_ne_nil (hne q List.mem_cons_self)
        rw [List.flatten_cons, List.length_append] at hlength
        have hqs := eq_append_of_gather (fun r hr => hne r (List.mem_cons_of_mem q hr)) (by omega) hgather
          (by omega)
        exact .inl ⟨rest', by rw [hqs, List.cons_append]⟩

end Dodo.Lib
