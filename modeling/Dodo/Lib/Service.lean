import Mathlib.Data.Option.Basic

/-!
# `Lib.Service` — systems that answer requests

A service answers each request and goes on in a new state, or comes to an end with the answer. Two services that simulate
each other step by step give the same answers to every list of requests.
-/

namespace Dodo.Lib.Service

variable {S T I O : Type}

/-- The answers to a list of requests, up to the end of the service, and the state it is in, unless it has ended. -/
def run (step : S → I → O × Option S) : S → List I → List O × Option S
  | s, [] => ([], some s)
  | s, i :: is =>
    match step s i with
    | (o, none) => ([o], none)
    | (o, some s') => (o :: (run step s' is).1, (run step s' is).2)

/-- Related states give the same answers and go on in related states. -/
def Simulates (step : S → I → O × Option S) (step' : T → I → O × Option T) (R : S → T → Prop) : Prop :=
  ∀ s t i, R s t → (step s i).1 = (step' t i).1 ∧ Option.Rel R (step s i).2 (step' t i).2

variable {step : S → I → O × Option S} {step' : T → I → O × Option T} {s s' : S} {i : I} {is js : List I} {o : O}

@[simp] theorem run_nil : run step s [] = ([], some s) := rfl

theorem run_cons_none (h : step s i = (o, none)) : run step s (i :: is) = ([o], none) := by
  rw [run, h]

theorem run_cons_some (h : step s i = (o, some s')) :
    run step s (i :: is) = (o :: (run step s' is).1, (run step s' is).2) := by
  rw [run, h]

/-- **The rule for two services.** -/
theorem run_of_simulates {R : S → T → Prop} (h : Simulates step step' R) {s : S} {t : T} (hR : R s t) (is : List I) :
    (run step s is).1 = (run step' t is).1 ∧ Option.Rel R (run step s is).2 (run step' t is).2 := by
  induction is generalizing s t with
  | nil => exact ⟨rfl, .some hR⟩
  | cons i is ih =>
      obtain ⟨hanswer, hnext⟩ := h s t i hR
      rcases hs : step s i with ⟨o, e⟩
      rcases ht : step' t i with ⟨o', e'⟩
      rw [hs, ht] at hanswer hnext
      obtain rfl : o = o' := hanswer
      cases hnext with
      | none =>
          rw [run_cons_none hs, run_cons_none ht]
          exact ⟨rfl, .none⟩
      | some hnext =>
          obtain ⟨hanswers, hend⟩ := ih hnext
          rw [run_cons_some hs, run_cons_some ht]
          exact ⟨congrArg (o :: ·) hanswers, hend⟩

/-- The requests of a second list are answered from where the first one ends. -/
theorem run_append (h : (run step s is).2 = some s') :
    run step s (is ++ js) = ((run step s is).1 ++ (run step s' js).1, (run step s' js).2) := by
  induction is generalizing s with
  | nil =>
      obtain rfl := Option.some.inj h
      rfl
  | cons i is ih =>
      rcases hs : step s i with ⟨o, e⟩
      cases e with
      | none =>
          rw [run_cons_none hs] at h
          cases h
      | some s₁ =>
          rw [run_cons_some hs] at h
          rw [List.cons_append, run_cons_some hs, run_cons_some hs, ih h]
          rfl

end Dodo.Lib.Service
