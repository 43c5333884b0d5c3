import Mathlib.Init

/-!
# `Lib.Machine` — executions of a partial step function

A machine is a function `step : S → A → Option S`: the state after an action, where the action can be taken.
Several threads are one machine whose actions say which thread takes the next step; a list of actions is
then an interleaving.
-/

namespace Dodo.Lib.Machine

variable {S A : Type} {step : S → A → Option S} {s s' : S} {as : List A}

/-- The state after a list of actions, where all of them can be taken. -/
def exec (step : S → A → Option S) : S → List A → Option S
  | s, [] => some s
  | s, a :: as => (step s a).bind (exec step · as)

/-- Every action of the list meets `G` in the state in which it is taken. -/
def Along (step : S → A → Option S) (G : S → A → Prop) : S → List A → Prop
  | _, [] => True
  | s, a :: as => G s a ∧ ∀ s' ∈ step s a, Along step G s' as

instance Along.decidable (G : S → A → Prop) [∀ s a, Decidable (G s a)] :
    ∀ s as, Decidable (Along step G s as)
  | _, [] => isTrue trivial
  | s, a :: as =>
    have : ∀ s', Decidable (Along step G s' as) := fun s' => decidable G s' as
    inferInstanceAs (Decidable (G s a ∧ ∀ s' ∈ step s a, Along step G s' as))

/-- `P` holds in every state of the run. -/
def Always (step : S → A → Option S) (P : S → Prop) : S → List A → Prop
  | s, [] => P s
  | s, a :: as => P s ∧ ∀ s' ∈ step s a, Always step P s' as

/-- What the actions of a list give, each in the state in which it is taken. -/
def collect {B : Type} (f : S → A → List B) (step : S → A → Option S) : S → List A → List B
  | _, [] => []
  | s, a :: as => f s a ++ (step s a).elim [] (collect f step · as)

theorem exec_cons {a : A} : exec step s (a :: as) = some s' ↔ ∃ t, step s a = some t ∧ exec step t as = some s' :=
  Option.bind_eq_some_iff

/-- **Induction over a run**: what every step that meets `G` preserves holds in the end, if all steps of the
    run meet `G`. -/
theorem exec_invariant_along {G : S → A → Prop} (Inv : S → Prop)
    (hstep : ∀ s a s', Inv s → G s a → step s a = some s' → Inv s')
    (hinit : Inv s) (halong : Along step G s as) (hexec : exec step s as = some s') : Inv s' := by
  induction as generalizing s with
  | nil =>
      rw [← Option.some.inj hexec]
      exact hinit
  | cons a as ih =>
      obtain ⟨t, hfirst, hrest⟩ := exec_cons.mp hexec
      exact ih (hstep s a t hinit halong.1 hfirst) (halong.2 t hfirst) hrest

theorem along_true : Along step (fun _ _ => True) s as := by
  induction as generalizing s with
  | nil => trivial
  | cons a as ih => exact ⟨trivial, fun t _ => ih⟩

/-- What every step preserves holds after every run. -/
theorem exec_invariant (Inv : S → Prop) (hstep : ∀ s a s', Inv s → step s a = some s' → Inv s')
    (hinit : Inv s) (hexec : exec step s as = some s') : Inv s' := by
  apply exec_invariant_along Inv _ hinit along_true hexec
  intro s a s' h _ hs
  exact hstep s a s' h hs

/-- **Exact conditions on steps**: where a step keeps `P` exactly if it meets `G`, a run keeps `P` exactly if all
    its steps meet `G`. The invariant `Inv` may be used on the way. -/
theorem along_iff_always {G : S → A → Prop} {P : S → Prop} (Inv : S → Prop)
    (hstep : ∀ s a s', Inv s → step s a = some s' → Inv s')
    (hkeeps : ∀ s a s', Inv s → P s → step s a = some s' → (G s a ↔ P s'))
    (hstuck : ∀ s a, step s a = none → G s a)
    (hinv : Inv s) (hinit : P s) : Along step G s as ↔ Always step P s as := by
  induction as generalizing s with
  | nil => exact ⟨fun _ => hinit, fun _ => trivial⟩
  | cons a as ih =>
      unfold Along Always
      cases hs : step s a with
      | none => exact ⟨fun _ => ⟨hinit, fun t ht => nomatch ht⟩, fun _ => ⟨hstuck s a hs, fun t ht => nomatch ht⟩⟩
      | some t =>
          have hgood := hkeeps s a t hinv hinit hs
          have hnext : P t → (Along step G t as ↔ Always step P t as) := ih (hstep s a t hinv hs)
          have hfirst : Always step P t as → P t := by
            cases as with
            | nil => exact id
            | cons b bs => exact And.left
          simp only [Option.mem_def, Option.some.injEq, forall_eq']
          constructor
          · rintro ⟨hg, halong⟩
            exact ⟨hinit, (hnext (hgood.mp hg)).mp halong⟩
          · rintro ⟨-, halways⟩
            have ht := hfirst halways
            exact ⟨hgood.mpr ht, (hnext ht).mpr halways⟩

/-- What follows from an invariant holds in every state of every run. -/
theorem always_of_invariant {P : S → Prop} (Inv : S → Prop)
    (hstep : ∀ s a s', Inv s → step s a = some s' → Inv s') (hP : ∀ s, Inv s → P s) (hinit : Inv s) :
    Always step P s as := by
  induction as generalizing s with
  | nil => exact hP s hinit
  | cons a as ih => exact ⟨hP s hinit, fun t ht => ih (hstep s a t hinit ht)⟩

/-- Induction over a run, with what its actions have given so far. -/
theorem exec_collect {B : Type} {f : S → A → List B} (Inv : S → List B → Prop)
    (hstep : ∀ s given a s', Inv s given → step s a = some s' → Inv s' (given ++ f s a))
    (hinit : Inv s []) (hexec : exec step s as = some s') : Inv s' (collect f step s as) := by
  suffices hgiven : ∀ given, Inv s given → Inv s' (given ++ collect f step s as) from hgiven [] hinit
  clear hinit
  induction as generalizing s with
  | nil =>
      intro given hinv
      rw [collect, List.append_nil, ← Option.some.inj hexec]
      exact hinv
  | cons a as ih =>
      intro given hinv
      obtain ⟨t, hfirst, hrest⟩ := exec_cons.mp hexec
      rw [collect, hfirst, Option.elim_some, ← List.append_assoc]
      exact ih hrest _ (hstep s given a t hinv hfirst)

end Dodo.Lib.Machine
