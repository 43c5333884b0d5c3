import Mathlib.Init

/-!
# `Lib.Agree` — two computations with the same outcome

A computation on concrete data refines one on abstract data if both fail with the same error, or both succeed with
related results. Errors that must not occur are excluded by the predicate on errors. `Agree.bind` carries this through
a program that is written once for both.
-/

namespace Dodo.Lib

variable {ε α α' γ γ' : Type} {E : ε → Prop} {Q : α → γ → Prop} {Q' : α' → γ' → Prop} {x : Except ε α}
  {y : Except ε γ}

/-- The same error, one of `E`, or related results. -/
inductive Agree (E : ε → Prop) (Q : α → γ → Prop) : Except ε α → Except ε γ → Prop where
  | error {e : ε} (h : E e) : Agree E Q (.error e) (.error e)
  | ok {a : α} {c : γ} (h : Q a c) : Agree E Q (.ok a) (.ok c)

namespace Agree

theorem bind {f : α → Except ε α'} {g : γ → Except ε γ'} (h : Agree E Q x y)
    (hnext : ∀ a c, Q a c → Agree E Q' (f a) (g c)) : Agree E Q' (x >>= f) (y >>= g) := by
  cases h with
  | error h => exact .error h
  | ok h => exact hnext _ _ h

theorem exists_ok {c : γ} (h : Agree E Q x y) (hy : y = .ok c) : ∃ a, x = .ok a ∧ Q a c := by
  cases h with
  | error h => cases hy
  | ok h =>
      obtain rfl := Except.ok.inj hy
      exact ⟨_, rfl, h⟩

theorem ne_error {e : ε} (h : Agree E Q x y) (he : ¬ E e) : x ≠ .error e := by
  cases h with
  | error h =>
      intro heq
      obtain rfl := Except.error.inj heq
      exact he h
  | ok h => exact fun heq => nomatch heq

end Agree

/-! A call whose errors are translated, with what follows it. -/

section

variable {ε' : Type} {f : ε → ε'} {g : α → Except ε' α'}

theorem mapError_ok_bind (a : α) : ((Except.ok a).mapError f >>= g) = g a := rfl

theorem mapError_error_bind (e : ε) : ((Except.error e).mapError f >>= g) = .error (f e) := rfl

end

end Dodo.Lib
