import Mathlib.Logic.Basic

/-!
# `Lib.Comp` — imperative computations with loops, exceptions and shared state

A shallow embedding of imperative code: a `Comp S ε α` reads and writes a state `S`, and ends by
returning an `α` or by throwing an `ε`. Loops are allowed, so a computation may also go on forever.

## Contents
- **Fuel.** `run n` executes with at most `n` iterations of every loop; `none` means that the fuel ran
  out. Monotonicity in the fuel is a field of the structure, so no computation can be built without it.
- **Big steps.** `Returns p s r s'`: `p` started in `s` ends with `r` in `s'`, for all large enough fuel.
  It is deterministic, and it is inverted at `pure`, `>>=`, `throw` and `loop` by one lemma each.
- **Judgments.** `Compositional J`: `J` has a rule for each way to build a computation, so that it is derived along
  the structure of the code.
- **Frames.** `Stays Inv throws p`: whatever way `p` ends, it keeps `Inv`, and it throws only if `throws`.
  There is one rule for each way to build a computation. `Keeps Inv p` says nothing about throwing.
- **Total correctness.** `wp p Q s`: `p` started in `s` ends, and `Q` holds of the way it ends.
-/

namespace Dodo.Lib

/-- A computation over the state `S` that ends with an `α` or by throwing an `ε`. -/
structure Comp (S ε α : Type) where
  /-- Execution with at most `n` iterations of every loop. -/
  run : Nat → S → Option (Except ε α × S)
  /-- An execution that ended ends in the same way with more fuel. -/
  mono : ∀ {n m s r}, n ≤ m → run n s = some r → run m s = some r

namespace Comp

variable {S S' ε α γ L : Type}

/-! ## Constructors -/

/-- End at once with `a`. -/
def ret (a : α) : Comp S ε α := ⟨fun _ s => some (.ok a, s), fun _ h => h⟩

/-- Throw `e`; the state is left as it is at the throw. -/
def throw (e : ε) : Comp S ε α := ⟨fun _ s => some (.error e, s), fun _ h => h⟩

/-- A primitive operation on the state. -/
def prim (f : S → Except ε α × S) : Comp S ε α := ⟨fun _ s => some (f s), fun _ h => h⟩

/-- What follows an execution of the first half of a sequence. -/
def bindRun (f : α → S → Option (Except ε γ × S)) :
    Option (Except ε α × S) → Option (Except ε γ × S)
  | none => none
  | some (.error e, s) => some (.error e, s)
  | some (.ok a, s) => f a s

/-- Run `p`, then `f` on its result; an exception of `p` skips `f`. -/
def bind (p : Comp S ε α) (f : α → Comp S ε γ) : Comp S ε γ where
  run n s := bindRun (fun a s' => (f a).run n s') (p.run n s)
  mono := by
    intro n m s r hnm h
    cases hp : p.run n s with
    | none => rw [hp] at h; exact absurd h (by simp [bindRun])
    | some q =>
        rw [hp] at h
        rw [p.mono hnm hp]
        obtain ⟨res, s'⟩ := q
        cases res with
        | error e => exact h
        | ok a => exact (f a).mono hnm h

/-- The iterations of a loop: `k` bounds their number, `n` is the fuel of each. -/
def loopRun (body : L → Comp S ε (L ⊕ α)) (n : Nat) : Nat → L → S → Option (Except ε α × S)
  | 0, _, _ => none
  | k + 1, l, s =>
    match (body l).run n s with
    | none => none
    | some (.error e, s') => some (.error e, s')
    | some (.ok (.inl l'), s') => loopRun body n k l' s'
    | some (.ok (.inr a), s') => some (.ok a, s')

theorem loopRun_mono (body : L → Comp S ε (L ⊕ α)) {n m : Nat} (hnm : n ≤ m) :
    ∀ {k j : Nat} {l : L} {s : S} {r : Except ε α × S}, k ≤ j →
      loopRun body n k l s = some r → loopRun body m j l s = some r := by
  intro k
  induction k with
  | zero => intro j l s r _ h; exact absurd h (by simp [loopRun])
  | succ k ih =>
      intro j l s r hkj h
      obtain ⟨j, rfl⟩ : ∃ j', j = j' + 1 := ⟨j - 1, by omega⟩
      simp only [loopRun] at h ⊢
      cases hb : (body l).run n s with
      | none => rw [hb] at h; exact absurd h (by simp)
      | some q =>
          rw [hb] at h
          rw [(body l).mono hnm hb]
          obtain ⟨res, s'⟩ := q
          cases res with
          | error e => exact h
          | ok v =>
              cases v with
              | inl l' => exact ih (by omega) h
              | inr a => exact h

/-- Repeat `body` on the loop's local variables `L` until it leaves the loop with an `α`. -/
def loop (body : L → Comp S ε (L ⊕ α)) (l : L) : Comp S ε α where
  run n s := loopRun body n n l s
  mono hnm h := loopRun_mono body hnm hnm h

/-- Run a computation on a part of the state, seen through `view` and written back with `put`. -/
def zoom (view : S → S') (put : S' → S → S) (p : Comp S' ε α) : Comp S ε α where
  run n s := (p.run n (view s)).map (fun q => (q.1, put q.2 s))
  mono := by
    intro n m s r hnm h
    rw [Option.map_eq_some_iff] at h ⊢
    obtain ⟨q, hq, hr⟩ := h
    exact ⟨q, p.mono hnm hq, hr⟩

instance : Monad (Comp S ε) where
  pure := ret
  bind := bind

/-! ## Big-step results -/

/-- `p` started in `s` ends with the result `r` in the state `s'`. -/
def Returns (p : Comp S ε α) (s : S) (r : Except ε α) (s' : S) : Prop :=
  ∃ n, p.run n s = some (r, s')

/-- **Determinism**: a computation ends in at most one way. -/
theorem Returns.unique {p : Comp S ε α} {s s₁ s₂ : S} {r₁ r₂ : Except ε α}
    (h₁ : Returns p s r₁ s₁) (h₂ : Returns p s r₂ s₂) : r₁ = r₂ ∧ s₁ = s₂ := by
  obtain ⟨n, hn⟩ := h₁
  obtain ⟨m, hm⟩ := h₂
  have hn' := p.mono (Nat.le_max_left n m) hn
  have hm' := p.mono (Nat.le_max_right n m) hm
  rw [hn'] at hm'
  exact Prod.mk.inj (Option.some.inj hm')

@[simp] theorem returns_pure {a : α} {s s' : S} {r : Except ε α} :
    Returns (pure a : Comp S ε α) s r s' ↔ r = .ok a ∧ s' = s := by
  constructor
  · rintro ⟨n, h⟩
    obtain ⟨h₁, h₂⟩ := Prod.mk.inj (Option.some.inj h)
    exact ⟨h₁.symm, h₂.symm⟩
  · rintro ⟨rfl, rfl⟩; exact ⟨0, rfl⟩

@[simp] theorem returns_throw {e : ε} {s s' : S} {r : Except ε α} :
    Returns (throw e : Comp S ε α) s r s' ↔ r = .error e ∧ s' = s := by
  constructor
  · rintro ⟨n, h⟩
    obtain ⟨h₁, h₂⟩ := Prod.mk.inj (Option.some.inj h)
    exact ⟨h₁.symm, h₂.symm⟩
  · rintro ⟨rfl, rfl⟩; exact ⟨0, rfl⟩

@[simp] theorem returns_prim {f : S → Except ε α × S} {s s' : S} {r : Except ε α} :
    Returns (prim f) s r s' ↔ f s = (r, s') := by
  constructor
  · rintro ⟨n, h⟩; exact Option.some.inj h
  · intro h; exact ⟨0, congrArg some h⟩

/-- Sequencing, inverted: `p` returned and `f` took over, or `p` threw. -/
theorem returns_bind {p : Comp S ε α} {f : α → Comp S ε γ} {s s' : S} {r : Except ε γ} :
    Returns (p >>= f) s r s' ↔
      (∃ a s₁, Returns p s (.ok a) s₁ ∧ Returns (f a) s₁ r s') ∨
      (∃ e, Returns p s (.error e) s' ∧ r = .error e) := by
  constructor
  · rintro ⟨n, h⟩
    replace h : bindRun (fun a s' => (f a).run n s') (p.run n s) = some (r, s') := h
    cases hp : p.run n s with
    | none => rw [hp] at h; exact absurd h (by simp [bindRun])
    | some q =>
        rw [hp] at h
        obtain ⟨res, s₁⟩ := q
        cases res with
        | error e =>
            obtain ⟨h₁, h₂⟩ := Prod.mk.inj (Option.some.inj h)
            subst h₂
            exact Or.inr ⟨e, ⟨n, hp⟩, h₁.symm⟩
        | ok a => exact Or.inl ⟨a, s₁, ⟨n, hp⟩, ⟨n, h⟩⟩
  · rintro (⟨a, s₁, ⟨n, hp⟩, ⟨m, hf⟩⟩ | ⟨e, ⟨n, hp⟩, rfl⟩)
    · refine ⟨max n m, ?_⟩
      show bindRun _ (p.run (max n m) s) = _
      rw [p.mono (Nat.le_max_left n m) hp]
      exact (f a).mono (Nat.le_max_right n m) hf
    · refine ⟨n, ?_⟩
      show bindRun _ (p.run n s) = _
      rw [hp]
      rfl

/-- A sequence that did not throw. -/
theorem returns_bind_ok {p : Comp S ε α} {f : α → Comp S ε γ} {s s' : S} {c : γ} :
    Returns (p >>= f) s (.ok c) s' ↔ ∃ a s₁, Returns p s (.ok a) s₁ ∧ Returns (f a) s₁ (.ok c) s' := by
  rw [returns_bind]
  constructor
  · rintro (h | ⟨e, -, he⟩)
    · exact h
    · cases he
  · exact Or.inl

/-- Where the first half returned, the second one decides. -/
theorem Returns.bind_iff {p : Comp S ε α} {f : α → Comp S ε γ} {s s₁ s' : S} {a : α} {r : Except ε γ}
    (hp : Returns p s (.ok a) s₁) : Returns (p >>= f) s r s' ↔ Returns (f a) s₁ r s' := by
  constructor
  · intro h
    obtain ⟨a', s₂, hp', hf⟩ | ⟨e, hp', rfl⟩ := returns_bind.mp h
    · obtain ⟨ha, rfl⟩ := hp.unique hp'
      obtain rfl := Except.ok.inj ha
      exact hf
    · cases (hp.unique hp').1
  · exact fun hf => returns_bind.mpr (.inl ⟨a, s₁, hp, hf⟩)

/-- Where the first half ends in the same way, so does the sequence. -/
theorem Returns.bind_congr {p : Comp S ε α} {f : α → Comp S ε γ} {s t s₀ s' : S} {r₀ : Except ε α} {r : Except ε γ}
    (hs : Returns p s r₀ s₀) (ht : Returns p t r₀ s₀) (h : Returns (p >>= f) s r s') : Returns (p >>= f) t r s' := by
  obtain ⟨a, s₁, hp, hf⟩ | ⟨e, hp, rfl⟩ := returns_bind.mp h
  · obtain ⟨rfl, rfl⟩ := hs.unique hp
    exact returns_bind.mpr (.inl ⟨a, _, ht, hf⟩)
  · obtain ⟨rfl, rfl⟩ := hs.unique hp
    exact returns_bind.mpr (.inr ⟨e, ht, rfl⟩)

/-- One iteration of a loop, then the rest of it. -/
def loopNext (body : L → Comp S ε (L ⊕ α)) : L ⊕ α → Comp S ε α
  | .inl l' => loop body l'
  | .inr a => pure a

/-- A loop unfolds: its first iteration, and then the loop again or its result. -/
theorem returns_loop {body : L → Comp S ε (L ⊕ α)} {l : L} {s s' : S} {r : Except ε α} :
    Returns (loop body l) s r s' ↔ Returns (body l >>= loopNext body) s r s' := by
  rw [returns_bind]
  constructor
  · rintro ⟨n, h⟩
    cases n with
    | zero => exact absurd h (by simp [loop, loopRun])
    | succ n =>
        replace h : loopRun body (n + 1) (n + 1) l s = some (r, s') := h
        simp only [loopRun] at h
        cases hb : (body l).run (n + 1) s with
        | none => rw [hb] at h; exact absurd h (by simp)
        | some q =>
            rw [hb] at h
            obtain ⟨res, s₁⟩ := q
            cases res with
            | error e =>
                obtain ⟨h₁, h₂⟩ := Prod.mk.inj (Option.some.inj h)
                subst h₂
                exact Or.inr ⟨e, ⟨n + 1, hb⟩, h₁.symm⟩
            | ok v =>
                refine Or.inl ⟨v, s₁, ⟨n + 1, hb⟩, ?_⟩
                cases v with
                | inl l' => exact ⟨n + 1, loopRun_mono body (Nat.le_refl _) (Nat.le_succ n) h⟩
                | inr a =>
                    obtain ⟨h₁, h₂⟩ := Prod.mk.inj (Option.some.inj h)
                    exact returns_pure.mpr ⟨h₁.symm, h₂.symm⟩
  · rintro (⟨v, s₁, ⟨n, hb⟩, hv⟩ | ⟨e, ⟨n, hb⟩, rfl⟩)
    · cases v with
      | inl l' =>
          obtain ⟨m, hm⟩ := hv
          -- one more iteration than the rest of the loop needs
          refine ⟨max n m + 1, ?_⟩
          show loopRun body (max n m + 1) (max n m + 1) l s = _
          simp only [loopRun]
          rw [(body l).mono (Nat.le_succ_of_le (Nat.le_max_left n m)) hb]
          exact loopRun_mono body (Nat.le_succ_of_le (Nat.le_max_right n m)) (Nat.le_max_right n m) hm
      | inr a =>
          obtain ⟨rfl, rfl⟩ := returns_pure.mp hv
          refine ⟨n + 1, ?_⟩
          show loopRun body (n + 1) (n + 1) l s = _
          simp only [loopRun]
          rw [(body l).mono (Nat.le_succ n) hb]
    · refine ⟨n + 1, ?_⟩
      show loopRun body (n + 1) (n + 1) l s = _
      simp only [loopRun]
      rw [(body l).mono (Nat.le_succ n) hb]

@[simp] theorem returns_zoom {view : S → S'} {put : S' → S → S} {p : Comp S' ε α} {s s' : S}
    {r : Except ε α} :
    Returns (zoom view put p) s r s' ↔ ∃ t, Returns p (view s) r t ∧ s' = put t s := by
  constructor
  · rintro ⟨n, h⟩
    obtain ⟨⟨r', t⟩, hq, hr⟩ := Option.map_eq_some_iff.mp h
    obtain ⟨rfl, rfl⟩ := Prod.mk.inj hr
    exact ⟨t, ⟨n, hq⟩, rfl⟩
  · rintro ⟨t, ⟨n, hq⟩, rfl⟩
    exact ⟨n, Option.map_eq_some_iff.mpr ⟨(r, t), hq, rfl⟩⟩

/-- **Induction on the passes** of a loop that ends. -/
theorem Returns.loop_induction {body : L → Comp S ε (L ⊕ α)} {motive : L → S → Except ε α → S → Prop}
    (hthrow : ∀ l s e s', Returns (body l) s (.error e) s' → motive l s (.error e) s')
    (hbreak : ∀ l s a s', Returns (body l) s (.ok (.inr a)) s' → motive l s (.ok a) s')
    (hnext : ∀ l s l₁ s₁ r s', Returns (body l) s (.ok (.inl l₁)) s₁ → motive l₁ s₁ r s' → motive l s r s')
    {l : L} {s s' : S} {r : Except ε α} (h : Returns (loop body l) s r s') : motive l s r s' := by
  obtain ⟨n, hn⟩ := h
  replace hn : loopRun body n n l s = some (r, s') := hn
  -- induction on the number of iterations, with the fuel of each of them kept fixed
  suffices hk : ∀ k l s, loopRun body n k l s = some (r, s') → motive l s r s' from hk n l s hn
  intro k
  induction k with
  | zero => intro l s h; exact absurd h (by simp [loopRun])
  | succ k ih =>
      intro l s h
      simp only [loopRun] at h
      cases hb : (body l).run n s with
      | none => rw [hb] at h; exact absurd h (by simp)
      | some q =>
          rw [hb] at h
          obtain ⟨res, s₁⟩ := q
          cases res with
          | error e =>
              obtain ⟨rfl, rfl⟩ := Prod.mk.inj (Option.some.inj h)
              exact hthrow l s e s₁ ⟨n, hb⟩
          | ok v =>
              cases v with
              | inl l' => exact hnext l s l' s₁ r s' ⟨n, hb⟩ (ih l' s₁ h)
              | inr a =>
                  obtain ⟨rfl, rfl⟩ := Prod.mk.inj (Option.some.inj h)
                  exact hbreak l s a s₁ ⟨n, hb⟩

/-- **Loop invariant** (partial correctness): what every iteration keeps holds when the loop is left. -/
theorem Returns.loop_invariant {body : L → Comp S ε (L ⊕ α)} (Inv : L → S → Prop)
    (hstep : ∀ l s l' s', Inv l s → Returns (body l) s (.ok (.inl l')) s' → Inv l' s')
    {l : L} {s s' : S} {r : Except ε α} (hinv : Inv l s) (h : Returns (loop body l) s r s') :
    ∃ l₁ s₁, Inv l₁ s₁ ∧
      ((∃ a, Returns (body l₁) s₁ (.ok (.inr a)) s' ∧ r = .ok a) ∨
       (∃ e, Returns (body l₁) s₁ (.error e) s' ∧ r = .error e)) := by
  revert hinv
  refine h.loop_induction (motive := fun l s r s' => Inv l s → ∃ l₁ s₁, Inv l₁ s₁ ∧
    ((∃ a, Returns (body l₁) s₁ (.ok (.inr a)) s' ∧ r = .ok a) ∨
     (∃ e, Returns (body l₁) s₁ (.error e) s' ∧ r = .error e))) ?_ ?_ ?_
  · intro l s e s' hlast hinv
    exact ⟨l, s, hinv, .inr ⟨e, hlast, rfl⟩⟩
  · intro l s a s' hlast hinv
    exact ⟨l, s, hinv, .inl ⟨a, hlast, rfl⟩⟩
  · intro l s l₁ s₁ r s' hpass ih hinv
    exact ih (hstep l s l₁ s₁ hinv hpass)

/-! ## Judgments -/

/-- A judgment on computations that has a rule for each way to build one. -/
structure Compositional (J : ∀ ⦃α : Type⦄, Comp S ε α → Prop) : Prop where
  pure : ∀ {α : Type} {a : α}, J (Pure.pure a : Comp S ε α)
  bind : ∀ {α γ : Type} {p : Comp S ε α} {f : α → Comp S ε γ}, J p → (∀ a, J (f a)) → J (p >>= f)
  loop : ∀ {L α : Type} {body : L → Comp S ε (L ⊕ α)} {l : L}, (∀ l, J (body l)) → J (Comp.loop body l)

theorem Compositional.ite {J : ∀ ⦃α : Type⦄, Comp S ε α → Prop} (_ : Compositional J) {c : Prop} [Decidable c]
    {p q : Comp S ε α} (hp : J p) (hq : J q) : J (if c then p else q) := by
  split
  · exact hp
  · exact hq

/-! ## Frames -/

/-- Whatever way `p` ends, started where `Inv` holds, it keeps `Inv`; and it throws only if `throws`. -/
def Stays (Inv : S → Prop) (throws : Prop) (p : Comp S ε α) : Prop :=
  ∀ s r s', Inv s → Returns p s r s' → Inv s' ∧ ∀ e, r = .error e → throws

section Stays

variable {Inv : S → Prop} {throws : Prop}

theorem stays_pure {a : α} : Stays Inv throws (pure a : Comp S ε α) := by
  intro s r s' hs h
  obtain ⟨rfl, rfl⟩ := returns_pure.mp h
  exact ⟨hs, fun e he => by cases he⟩

theorem stays_prim {f : S → Except ε α × S}
    (hf : ∀ s, Inv s → Inv (f s).2 ∧ ∀ e, (f s).1 = .error e → throws) : Stays Inv throws (prim f) := by
  intro s r s' hs h
  have := hf s hs
  rwa [returns_prim.mp h] at this

theorem Stays.bind {p : Comp S ε α} {f : α → Comp S ε γ} (hp : Stays Inv throws p)
    (hf : ∀ a, Stays Inv throws (f a)) : Stays Inv throws (p >>= f) := by
  intro s r s' hs h
  obtain ⟨a, s₁, h₁, h₂⟩ | ⟨e, h₁, rfl⟩ := returns_bind.mp h
  · exact hf a _ _ _ (hp _ _ _ hs h₁).1 h₂
  · obtain ⟨hs', hthrows⟩ := hp _ _ _ hs h₁
    exact ⟨hs', fun _ _ => hthrows e rfl⟩

theorem Stays.ite {c : Prop} [Decidable c] {p q : Comp S ε α} (hp : Stays Inv throws p)
    (hq : Stays Inv throws q) : Stays Inv throws (if c then p else q) := by
  split
  · exact hp
  · exact hq

theorem stays_loop {body : L → Comp S ε (L ⊕ α)} {l : L} (hbody : ∀ l, Stays Inv throws (body l)) :
    Stays Inv throws (loop body l) := by
  intro s r s' hs h
  obtain ⟨l₁, s₁, hs₁, ⟨a, hlast, rfl⟩ | ⟨e, hlast, rfl⟩⟩ :=
    Returns.loop_invariant (fun _ s => Inv s) (fun l s l' s' hs h => (hbody l _ _ _ hs h).1) hs h
  · exact ⟨(hbody l₁ _ _ _ hs₁ hlast).1, fun e he => by cases he⟩
  · obtain ⟨hs', hthrows⟩ := hbody l₁ _ _ _ hs₁ hlast
    exact ⟨hs', fun _ _ => hthrows e rfl⟩

theorem compositional_stays : Compositional fun _ (p : Comp S ε _) => Stays Inv throws p :=
  ⟨stays_pure, Stays.bind, stays_loop⟩

end Stays

/-- Whatever way `p` ends, it keeps `Inv`. -/
def Keeps (Inv : S → Prop) (p : Comp S ε α) : Prop := ∀ s r s', Inv s → Returns p s r s' → Inv s'

theorem keeps_of_stays {Inv : S → Prop} {throws : Prop} {p : Comp S ε α} (h : Stays Inv throws p) :
    Keeps Inv p := fun s r s' hs hr => (h s r s' hs hr).1

/-! ## Total correctness -/

/-- `p` started in `s` ends, and `Q` holds of its result and final state. -/
def wp (p : Comp S ε α) (Q : Except ε α → S → Prop) (s : S) : Prop :=
  ∃ r s', Returns p s r s' ∧ Q r s'

/-- The postcondition of the first half of a sequence. -/
def seqPost (f : α → Comp S ε γ) (Q : Except ε γ → S → Prop) : Except ε α → S → Prop
  | .ok a, s => wp (f a) Q s
  | .error e, s => Q (.error e) s

@[simp] theorem seqPost_ok {f : α → Comp S ε γ} {Q : Except ε γ → S → Prop} {a : α} {s : S} :
    seqPost f Q (.ok a) s = wp (f a) Q s := rfl

@[simp] theorem seqPost_error {f : α → Comp S ε γ} {Q : Except ε γ → S → Prop} {e : ε} {s : S} :
    seqPost f Q (.error e) s = Q (.error e) s := rfl

theorem wp_mono {p : Comp S ε α} {Q Q' : Except ε α → S → Prop} {s : S}
    (h : wp p Q s) (hQ : ∀ r s', Q r s' → Q' r s') : wp p Q' s := by
  obtain ⟨r, s', hr, hq⟩ := h
  exact ⟨r, s', hr, hQ r s' hq⟩

/-- A computation ends in one way, so a postcondition is a fact about that one outcome. -/
theorem wp_iff {p : Comp S ε α} {Q P : Except ε α → S → Prop} {s : S} {c : Prop} (h : wp p Q s)
    (hc : ∀ r s', Q r s' → (P r s' ↔ c)) : wp p P s ↔ c := by
  obtain ⟨r, s', hret, hq⟩ := h
  refine Iff.trans ?_ (hc r s' hq)
  constructor
  · rintro ⟨r₁, s₁, hret₁, hp⟩
    obtain ⟨rfl, rfl⟩ := hret.unique hret₁
    exact hp
  · intro hp
    exact ⟨r, s', hret, hp⟩

/-- A computation that does not throw ends with a value. -/
theorem Stays.wp_ok {p : Comp S ε α} {Inv : S → Prop} {Q : Except ε α → S → Prop} {s : S}
    (hp : Stays Inv False p) (hs : Inv s) (h : wp p Q s) : wp p (fun r s' => Q r s' ∧ ∃ a, r = .ok a) s := by
  obtain ⟨r, s', hr, hq⟩ := h
  cases r with
  | ok a => exact ⟨.ok a, s', hr, hq, a, rfl⟩
  | error e => exact ((hp _ _ _ hs hr).2 e rfl).elim

/-- An execution on a concrete state, to be evaluated. -/
theorem wp_of_run {p : Comp S ε α} {Q : Except ε α → S → Prop} {s : S} (n : Nat)
    (h : ∃ x ∈ p.run n s, Q x.1 x.2) : wp p Q s := by
  obtain ⟨⟨r, s'⟩, hx, hq⟩ := h
  exact ⟨r, s', ⟨n, hx⟩, hq⟩

@[simp] theorem wp_pure {a : α} {Q : Except ε α → S → Prop} {s : S} :
    wp (pure a) Q s ↔ Q (.ok a) s := by
  simp [wp, and_assoc]

@[simp] theorem wp_throw {e : ε} {Q : Except ε α → S → Prop} {s : S} :
    wp (throw e) Q s ↔ Q (.error e) s := by
  simp [wp, and_assoc]

@[simp] theorem wp_prim {f : S → Except ε α × S} {Q : Except ε α → S → Prop} {s : S} :
    wp (prim f) Q s ↔ Q (f s).1 (f s).2 := by
  simp only [wp, returns_prim]
  constructor
  · rintro ⟨r, s', h, hq⟩; rw [h]; exact hq
  · intro h; exact ⟨(f s).1, (f s).2, rfl, h⟩

@[simp] theorem wp_bind {p : Comp S ε α} {f : α → Comp S ε γ} {Q : Except ε γ → S → Prop} {s : S} :
    wp (p >>= f) Q s ↔ wp p (seqPost f Q) s := by
  simp only [wp, returns_bind]
  constructor
  · rintro ⟨r, s', (⟨a, s₁, hp, hf⟩ | ⟨e, hp, rfl⟩), hq⟩
    · exact ⟨.ok a, s₁, hp, r, s', hf, hq⟩
    · exact ⟨.error e, s', hp, hq⟩
  · rintro ⟨r, s₁, hp, hq⟩
    cases r with
    | ok a =>
        obtain ⟨r', s', hf, hq'⟩ := hq
        exact ⟨r', s', Or.inl ⟨a, s₁, hp, hf⟩, hq'⟩
    | error e => exact ⟨.error e, s₁, Or.inr ⟨e, hp, rfl⟩, hq⟩

/-- A loop unfolds by one iteration. -/
theorem wp_loop {body : L → Comp S ε (L ⊕ α)} {l : L} {Q : Except ε α → S → Prop} {s : S} :
    wp (loop body l) Q s ↔ wp (body l) (seqPost (loopNext body) Q) s := by
  rw [← wp_bind]
  simp only [wp, returns_loop]

/-- The end of a pass that goes on with the loop. -/
@[simp] theorem wp_continue {body : L → Comp S ε (L ⊕ α)} {l : L} {Q : Except ε α → S → Prop}
    {s : S} : wp (pure (.inl l)) (seqPost (loopNext body) Q) s ↔ wp (loop body l) Q s := by
  rw [wp_pure]; exact Iff.rfl

/-- The end of a pass that leaves the loop. -/
@[simp] theorem wp_break {body : L → Comp S ε (L ⊕ α)} {a : α} {Q : Except ε α → S → Prop}
    {s : S} : wp (pure (.inr a)) (seqPost (loopNext body) Q) s ↔ Q (.ok a) s := by
  rw [wp_pure]; exact wp_pure

@[simp] theorem wp_zoom {view : S → S'} {put : S' → S → S} {p : Comp S' ε α}
    {Q : Except ε α → S → Prop} {s : S} :
    wp (zoom view put p) Q s ↔ wp p (fun r t => Q r (put t s)) (view s) := by
  simp only [wp, returns_zoom]
  constructor
  · rintro ⟨r, _, ⟨t, hp, rfl⟩, hq⟩; exact ⟨r, t, hp, hq⟩
  · rintro ⟨r, t, hp, hq⟩; exact ⟨r, _, ⟨t, hp, rfl⟩, hq⟩

end Comp
end Dodo.Lib
