import Mathlib.Algebra.Group.End
import Mathlib.Algebra.Group.Submonoid.Defs
import Dodo.Lib.Comp

/-!
# `Lib.Uniform` — computations that do not look at what they write

A computation on a pair of an input and an object is uniform if the object does not decide what it does: from every
object it ends in the same way, and what it does to the object is one and the same update. The updates are taken from a
submonoid, so that a sequence of updates is one again.
-/

namespace Dodo.Lib.Comp

variable {β ω ω' ε α γ L : Type}

/-- However `p` ends on one object, it ends so on every object, and the effect on the object is one update in `M`. -/
def Uniform (M : Submonoid (Function.End ω)) (p : Comp (β × ω) ε α) : Prop :=
  ∀ b o r b' o', Returns p (b, o) r (b', o') → ∃ f ∈ M, o' = f o ∧ ∀ o₁, Returns p (b, o₁) r (b', f o₁)

variable {M : Submonoid (Function.End ω)}

theorem uniform_pure {a : α} : Uniform M (pure a : Comp (β × ω) ε α) := by
  intro b o r b' o' h
  obtain ⟨rfl, hs⟩ := returns_pure.mp h
  obtain ⟨rfl, rfl⟩ := Prod.mk.inj hs
  exact ⟨1, M.one_mem, rfl, fun o₁ => returns_pure.mpr ⟨rfl, rfl⟩⟩

/-- An operation on the input. -/
theorem uniform_input {f : β → Except ε α × β} :
    Uniform M (prim fun s => ((f s.1).1, (f s.1).2, s.2) : Comp (β × ω) ε α) := by
  intro b o r b' o' h
  obtain ⟨rfl, hs⟩ := Prod.mk.inj (returns_prim.mp h)
  obtain ⟨rfl, rfl⟩ := Prod.mk.inj hs
  exact ⟨1, M.one_mem, rfl, fun o₁ => returns_prim.mpr rfl⟩

/-- An update of the object. -/
theorem uniform_update {f : Function.End ω} {a : α} (hf : f ∈ M) :
    Uniform M (prim fun s => (.ok a, s.1, f s.2) : Comp (β × ω) ε α) := by
  intro b o r b' o' h
  obtain ⟨rfl, hs⟩ := Prod.mk.inj (returns_prim.mp h)
  obtain ⟨rfl, rfl⟩ := Prod.mk.inj hs
  exact ⟨f, hf, rfl, fun o₁ => returns_prim.mpr rfl⟩

theorem Uniform.bind {p : Comp (β × ω) ε α} {f : α → Comp (β × ω) ε γ} (hp : Uniform M p)
    (hf : ∀ a, Uniform M (f a)) : Uniform M (p >>= f) := by
  intro b o r b' o' h
  obtain ⟨a, ⟨b₁, o₁⟩, h₁, h₂⟩ | ⟨e, h₁, rfl⟩ := returns_bind.mp h
  · obtain ⟨g, hg, rfl, hfirst⟩ := hp _ _ _ _ _ h₁
    obtain ⟨g', hg', rfl, hsecond⟩ := hf a _ _ _ _ _ h₂
    refine ⟨g' * g, M.mul_mem hg' hg, rfl, fun o₂ => ?_⟩
    exact returns_bind.mpr (.inl ⟨a, _, hfirst o₂, hsecond (g o₂)⟩)
  · obtain ⟨g, hg, rfl, hfirst⟩ := hp _ _ _ _ _ h₁
    exact ⟨g, hg, rfl, fun o₂ => returns_bind.mpr (.inr ⟨e, hfirst o₂, rfl⟩)⟩

theorem uniform_loop {body : L → Comp (β × ω) ε (L ⊕ α)} {l : L} (hbody : ∀ l, Uniform M (body l)) :
    Uniform M (loop body l) := by
  intro b o r b' o' h
  refine h.loop_induction (motive := fun l s r s' => ∃ f ∈ M, s'.2 = f s.2 ∧
    ∀ o₁, Returns (loop body l) (s.1, o₁) r (s'.1, f o₁)) ?_ ?_ ?_
  · intro l s e s' hlast
    obtain ⟨f, hf, heq, hall⟩ := hbody l _ _ _ _ _ hlast
    exact ⟨f, hf, heq, fun o₁ => returns_loop.mpr (returns_bind.mpr (.inr ⟨e, hall o₁, rfl⟩))⟩
  · intro l s a s' hlast
    obtain ⟨f, hf, heq, hall⟩ := hbody l _ _ _ _ _ hlast
    refine ⟨f, hf, heq, fun o₁ => returns_loop.mpr (returns_bind.mpr (.inl ⟨_, _, hall o₁, ?_⟩))⟩
    exact returns_pure.mpr ⟨rfl, rfl⟩
  · rintro l s l₁ ⟨b₁, o₁⟩ r s' hpass ⟨g, hg, heq', hrest⟩
    obtain ⟨f, hf, rfl, hall⟩ := hbody l _ _ _ _ _ hpass
    refine ⟨g * f, M.mul_mem hg hf, heq', fun o₂ => ?_⟩
    exact returns_loop.mpr (returns_bind.mpr (.inl ⟨_, _, hall o₂, hrest (f o₂)⟩))

theorem compositional_uniform : Compositional fun _ (p : Comp (β × ω) ε _) => Uniform M p :=
  ⟨uniform_pure, Uniform.bind, uniform_loop⟩

/-- A computation on a part of the object. -/
theorem Uniform.zoom {M' : Submonoid (Function.End ω')} {view : ω → ω'} {put : ω' → ω → ω} {p : Comp (β × ω') ε α}
    (hp : Uniform M' p) (hput : ∀ f ∈ M', (fun o => put (f (view o)) o : Function.End ω) ∈ M) :
    Uniform M (zoom (fun s => (s.1, view s.2)) (fun t s => (t.1, put t.2 s.2)) p : Comp (β × ω) ε α) := by
  intro b o r b' o' h
  obtain ⟨⟨b₁, t⟩, ht, hs⟩ := returns_zoom.mp h
  obtain ⟨rfl, rfl⟩ := Prod.mk.inj hs
  obtain ⟨f, hf, rfl, hall⟩ := hp _ _ _ _ _ ht
  exact ⟨_, hput f hf, rfl, fun o₁ => returns_zoom.mpr ⟨_, hall _, rfl⟩⟩

end Dodo.Lib.Comp
