import Mathlib.Algebra.Ring.Nat
import Mathlib.Tactic.ByContra
import Dodo.Lib.Machine

/-!
# `Lib.Fair` — what happens in the end, if every thread gets its turn

An endless run takes a step of the machine at each time, or none. It is weakly fair if no thread that can take a step
from some time on is passed over for ever. That something happens in the end is shown by a rank and a helpful thread:
no step raises the rank, the helpful thread can take a step, and lowers the rank when it does; until then it stays
the helpful one.
-/

namespace Dodo.Lib.Machine

variable {S A T : Type} {step : S → A → Option S}

/-- An endless run: the states, and the action taken at each time, if there is one. -/
structure Run (step : S → A → Option S) where
  state : Nat → S
  action : Nat → Option A
  next : ∀ n, (action n).elim (some (state n)) (step (state n)) = some (state (n + 1))

/-- The thread can take a step. -/
def Ready (step : S → A → Option S) (thread : A → T) (t : T) (s : S) : Prop :=
  ∃ a s', thread a = t ∧ step s a = some s'

namespace Run

/-- A thread that is ready from some time on takes a step. -/
def WeaklyFair (r : Run step) (thread : A → T) : Prop :=
  ∀ t n, (∀ m, n ≤ m → Ready step thread t (r.state m)) → ∃ m a, n ≤ m ∧ r.action m = some a ∧ thread a = t

theorem next_of_none {r : Run step} {n : Nat} (h : r.action n = none) : r.state (n + 1) = r.state n := by
  have hnext := r.next n
  rw [h] at hnext
  exact (Option.some.inj hnext).symm

theorem next_of_some {r : Run step} {n : Nat} {a : A} (h : r.action n = some a) :
    step (r.state n) a = some (r.state (n + 1)) := by
  have hnext := r.next n
  rw [h] at hnext
  exact hnext

/-- What every step preserves holds from the time on at which it holds. -/
theorem invariant {r : Run step} {Inv : S → Prop} (hstep : ∀ s a s', Inv s → step s a = some s' → Inv s') {n : Nat}
    (hinv : Inv (r.state n)) {m : Nat} (hle : n ≤ m) : Inv (r.state m) := by
  induction m, hle using Nat.le_induction with
  | base => exact hinv
  | succ m _ ih =>
      cases haction : r.action m with
      | none => exact (next_of_none haction).symm ▸ ih
      | some a => exact hstep _ a _ ih (next_of_some haction)

/-- The states up to a time are those of the actions taken so far. -/
theorem exec_state (r : Run step) (n : Nat) :
    ∃ as, exec step (r.state 0) as = some (r.state n) := by
  have hexec : ∀ s as s' a s'', exec step s as = some s' → step s' a = some s'' →
      exec step s (as ++ [a]) = some s'' := by
    intro s as s' a s'' has ha
    induction as generalizing s with
    | nil =>
        obtain rfl := Option.some.inj has
        exact exec_cons.mpr ⟨s'', ha, rfl⟩
    | cons b as ih =>
        obtain ⟨t, hb, hrest⟩ := exec_cons.mp has
        exact exec_cons.mpr ⟨t, hb, ih t hrest⟩
  induction n with
  | zero => exact ⟨[], rfl⟩
  | succ n ih =>
      obtain ⟨as, has⟩ := ih
      cases haction : r.action n with
      | none => exact ⟨as, (next_of_none haction).symm ▸ has⟩
      | some a => exact ⟨as ++ [a], hexec _ as _ a _ has (next_of_some haction)⟩

section Rank

variable {thread : A → T} {Inv Done : S → Prop} {rank : S → Nat} {helpful : S → T}

/-- **The rule for what happens in the end.** -/
theorem eventually_of_rank
    (hstep : ∀ s a s', Inv s → step s a = some s' → Inv s')
    (hready : ∀ s, Inv s → ¬ Done s → Ready step thread (helpful s) s)
    (hhelps : ∀ s a s', Inv s → ¬ Done s → step s a = some s' → thread a = helpful s → rank s' < rank s)
    (hothers : ∀ s a s', Inv s → ¬ Done s → step s a = some s' →
      rank s' < rank s ∨ (rank s' = rank s ∧ helpful s' = helpful s))
    (r : Run step) (hfair : r.WeaklyFair thread) (n : Nat) (hinv : Inv (r.state n)) :
    ∃ m, n ≤ m ∧ Done (r.state m) := by
  induction hrank : rank (r.state n) using Nat.strong_induction_on generalizing n with
  | _ k ih =>
    subst hrank
    by_contra hnever
    have hnot : ∀ m, n ≤ m → ¬ Done (r.state m) := fun m hm hdone => hnever ⟨m, hm, hdone⟩
    have hinv' : ∀ m, n ≤ m → Inv (r.state m) := fun m hm => invariant hstep hinv hm
    -- the rank does not fall, since then the rest of the run would be done in the end
    have hstays : ∀ m, n ≤ m → ¬ rank (r.state m) < rank (r.state n) := by
      intro m hm hlt
      obtain ⟨m', hm', hdone⟩ := ih _ hlt m (hinv' m hm) rfl
      exact hnever ⟨m', Nat.le_trans hm hm', hdone⟩
    -- so the helpful thread stays the same
    have hsame : ∀ m, n ≤ m → rank (r.state m) = rank (r.state n) ∧ helpful (r.state m) = helpful (r.state n) := by
      intro m hm
      induction m, hm using Nat.le_induction with
      | base => exact ⟨rfl, rfl⟩
      | succ m hm ihm =>
          cases haction : r.action m with
          | none => exact (next_of_none haction).symm ▸ ihm
          | some a =>
              rcases hothers _ a _ (hinv' m hm) (hnot m hm) (next_of_some haction) with hlt | ⟨hrank, hhelpful⟩
              · rw [ihm.1] at hlt
                exact absurd hlt (hstays (m + 1) (Nat.le_succ_of_le hm))
              · exact ⟨hrank.trans ihm.1, hhelpful.trans ihm.2⟩
    obtain ⟨m, a, hm, haction, ha⟩ := hfair (helpful (r.state n)) n fun m hm =>
      (hsame m hm).2 ▸ hready _ (hinv' m hm) (hnot m hm)
    have hlt := hhelps _ a _ (hinv' m hm) (hnot m hm) (next_of_some haction) (ha.trans (hsame m hm).2.symm)
    rw [(hsame m hm).1] at hlt
    exact hstays (m + 1) (Nat.le_succ_of_le hm) hlt

end Rank
end Run

/-- The rank of a list of threads is the sum of theirs: one of them changes. -/
theorem sum_map_set (f : S → Nat) {xs : List S} {i : Nat} {x : S} (h : xs[i]? = some x) (y : S) :
    ((xs.set i y).map f).sum + f x = (xs.map f).sum + f y := by
  induction xs generalizing i with
  | nil => cases h
  | cons z zs ih =>
      cases i with
      | zero =>
          obtain rfl := Option.some.inj h
          simp only [List.set_cons_zero, List.map_cons, List.sum_cons]
          omega
      | succ i =>
          have hrest := ih h
          simp only [List.set_cons_succ, List.map_cons, List.sum_cons]
          omega

/-- A run of finitely many actions, and none behind them. -/
def Run.ofList (step : S → A → Option S) (s : S) (as : List A) {s' : S} (h : exec step s as = some s') : Run step where
  state n := (exec step s (as.take n)).getD s'
  action n := as[n]?
  next := by
    have hprefix : ∀ n, ∃ t, exec step s (as.take n) = some t ∧
        (as[n]?).elim (some t) (step t) = exec step s (as.take (n + 1)) := by
      induction as generalizing s with
      | nil =>
          intro n
          rw [List.take_nil, List.take_nil, List.getElem?_nil]
          exact ⟨s, rfl, rfl⟩
      | cons a as ih =>
          obtain ⟨t, ha, hrest⟩ := exec_cons.mp h
          intro n
          cases n with
          | zero =>
              refine ⟨s, rfl, ?_⟩
              show step s a = (step s a).bind fun t => exec step t (as.take 0)
              rw [ha]
              rfl
          | succ n =>
              obtain ⟨t', ht', hnext⟩ := ih t hrest n
              refine ⟨t', exec_cons.mpr ⟨t, ha, ht'⟩, ?_⟩
              rw [List.getElem?_cons_succ, hnext, List.take_succ_cons]
              show _ = (step s a).bind (exec step · (as.take (n + 1)))
              rw [ha, Option.bind_some]
    intro n
    obtain ⟨t, ht, hnext⟩ := hprefix n
    obtain ⟨t', ht', -⟩ := hprefix (n + 1)
    rw [ht', Option.getD_some, ht, Option.getD_some, hnext, ht']

theorem Run.state_ofList {s s' : S} {as : List A} (h : exec step s as = some s') {n : Nat} (hn : as.length ≤ n) :
    (Run.ofList step s as h).state n = s' := by
  show (exec step s (as.take n)).getD s' = s'
  rw [List.take_of_length_le hn, h, Option.getD_some]

/-- A run that ends where no thread is ready is fair. -/
theorem Run.weaklyFair_ofList {s s' : S} {as : List A} (h : exec step s as = some s') (thread : A → T)
    (hdone : ∀ a, step s' a = none) : (Run.ofList step s as h).WeaklyFair thread := by
  intro t n hready
  obtain ⟨a, s'', -, hstep⟩ := hready (n + as.length) (Nat.le_add_right _ _)
  rw [state_ofList h (Nat.le_add_left _ _), hdone] at hstep
  cases hstep

end Dodo.Lib.Machine
