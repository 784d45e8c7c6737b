import Concept32.Proofs.Steps

/-!
# Two computations side by side

A computation simulates another when, started in related states, both succeed with related answers or both fail
alike, and end in related states.
-/

namespace EStateM
variable {ε σ τ α α' β β' : Type} {V V' : α → α' → Prop} {W : β → β' → Prop} {R R' : σ → τ → Prop}

/-- Both succeeded, with related answers, or both failed alike; the states are related. -/
inductive SameEnd (V : α → α' → Prop) (R : σ → τ → Prop) : Result ε σ α → Result ε τ α' → Prop
  | ok {a : α} {a' : α'} {s : σ} {t : τ} (hV : V a a') (hR : R s t) : SameEnd V R (.ok a s) (.ok a' t)
  | error {e : ε} {s : σ} {t : τ} (hR : R s t) : SameEnd V R (.error e s) (.error e t)

/-- Started in related states, both end alike. -/
def Simulates (V : α → α' → Prop) (R : σ → τ → Prop) (x : EStateM ε σ α) (y : EStateM ε τ α') : Prop :=
  ∀ s t, R s t → SameEnd V R (x s) (y t)

theorem SameEnd.mono {r : Result ε σ α} {r' : Result ε τ α'} (h : SameEnd V R r r') (hV : ∀ a a', V a a' → V' a a')
    (hR : ∀ s t, R s t → R' s t) : SameEnd V' R' r r' := by
  cases h with
  | ok hV' hR' => exact .ok (hV _ _ hV') (hR _ _ hR')
  | error hR' => exact .error (hR _ _ hR')

theorem SameEnd.bind {x : EStateM ε σ α} {y : EStateM ε τ α'} {f : α → EStateM ε σ β} {g : α' → EStateM ε τ β'}
    {s : σ} {t : τ} (h : SameEnd V R (x s) (y t)) (hf : ∀ a a', V a a' → Simulates W R (f a) (g a')) :
    SameEnd W R ((x >>= f) s) ((y >>= g) t) := by
  cases hx : x s with
  | ok a u =>
    cases hy : y t with
    | ok a' v =>
      rw [hx, hy] at h
      cases h with
      | ok hV hR =>
        rw [bind_of_ok hx, bind_of_ok hy]
        exact hf a a' hV u v hR
    | error e v => rw [hx, hy] at h; cases h
  | error e u =>
    cases hy : y t with
    | ok a' v => rw [hx, hy] at h; cases h
    | error e' v =>
      rw [hx, hy] at h
      cases h with
      | error hR =>
        rw [bind_of_error hx, bind_of_error hy]
        exact .error hR

namespace Simulates
variable {x x₁ : EStateM ε σ α} {y y₁ : EStateM ε τ α'} {f : α → EStateM ε σ β} {g : α' → EStateM ε τ β'}

theorem pure {a : α} {a' : α'} (h : V a a') : Simulates V R (Pure.pure a : EStateM ε σ α) (Pure.pure a') :=
  fun _ _ hR => .ok h hR

theorem throw {e : ε} : Simulates V R (MonadExcept.throw e : EStateM ε σ α) (MonadExcept.throw e) :=
  fun _ _ hR => .error hR

theorem bind (hx : Simulates V R x y) (hf : ∀ a a', V a a' → Simulates W R (f a) (g a')) :
    Simulates W R (x >>= f) (y >>= g) :=
  fun s t hR => (hx s t hR).bind hf

theorem get : Simulates R R (get : EStateM ε σ σ) (get : EStateM ε τ τ) := fun _ _ hR => .ok hR hR

theorem ite {c c' : Prop} [Decidable c] [Decidable c'] (hc : c ↔ c') (hx : Simulates V R x y)
    (hx₁ : Simulates V R x₁ y₁) : Simulates V R (if c then x else x₁) (if c' then y else y₁) := by
  by_cases h : c
  · rw [if_pos h, if_pos (hc.mp h)]
    exact hx
  · rw [if_neg h, if_neg fun h' => h (hc.mpr h')]
    exact hx₁

end Simulates

end EStateM
