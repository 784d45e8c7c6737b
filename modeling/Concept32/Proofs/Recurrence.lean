import Mathlib.Data.Fintype.Pigeonhole

/-!
# Steps that come back

A step may be impossible, so a number of them may come to an end. They never do if they come back to where they were, and
with only so many places to go they come to an end or come back.
-/

namespace Concept32
variable {σ : Type} {step : σ → Option σ} {s : σ} {m n : Nat}

/-- Where `n` steps lead, if they can all be taken. -/
def afterSteps? (step : σ → Option σ) : (n : Nat) → σ → Option σ
  | 0, s => some s
  | n + 1, s => (step s).bind (afterSteps? step n)

theorem afterSteps?_add (m n : Nat) (s : σ) :
    afterSteps? step (m + n) s = (afterSteps? step m s).bind (afterSteps? step n) := by
  induction m generalizing s with
  | zero =>
    rw [Nat.zero_add]
    rfl
  | succ m ih =>
    rw [Nat.succ_add, afterSteps?, afterSteps?]
    cases step s with
    | none => rfl
    | some s' => exact ih s'

/-- Steps that cannot be taken are not followed by others. -/
theorem afterSteps?_eq_none_of_le (hmn : m ≤ n) (h : afterSteps? step m s = none) : afterSteps? step n s = none := by
  obtain ⟨k, rfl⟩ := Nat.exists_eq_add_of_le hmn
  rw [afterSteps?_add, h]
  rfl

/-- Steps come back to where they were before. -/
def Recurs (step : σ → Option σ) (s : σ) : Prop :=
  ∃ i j, i < j ∧ (afterSteps? step i s).isSome ∧ afterSteps? step i s = afterSteps? step j s

/-- Steps that come back can be taken for ever. -/
theorem Recurs.isSome (h : Recurs step s) (n : Nat) : (afterSteps? step n s).isSome := by
  obtain ⟨i, j, hij, hsome, hback⟩ := h
  induction n using Nat.strong_induction_on with
  | _ n ih =>
    by_cases hn : n ≤ j
    · by_contra hnone
      rw [Option.not_isSome_iff_eq_none] at hnone
      rw [hback, afterSteps?_eq_none_of_le hn hnone] at hsome
      cases hsome
    · -- What follows at `j` is what followed at `i`.
      obtain ⟨k, rfl⟩ := Nat.exists_eq_add_of_le (Nat.le_of_not_le hn)
      rw [afterSteps?_add, ← hback, ← afterSteps?_add]
      exact ih (i + k) (by omega)

/-- Among enough steps two lead to the same place. -/
theorem Recurs.of_isSome {size : Nat} (key : σ → Fin size)
    (hkey : ∀ s₁ s₂ s₁' s₂', step s₁ = some s₁' → step s₂ = some s₂' → key s₁' = key s₂' → s₁' = s₂')
    (h : (afterSteps? step (size + 1) s).isSome) : Recurs step s := by
  have hsome : ∀ n ≤ size + 1, ∃ s', afterSteps? step n s = some s' := by
    intro n hn
    rw [← Option.isSome_iff_exists, ← Option.ne_none_iff_isSome]
    intro hnone
    rw [afterSteps?_eq_none_of_le hn hnone] at h
    cases h
  have hreached : ∀ n : Fin (size + 1), ∃ s₁ s₁', afterSteps? step (n + 1) s = some s₁' ∧ step s₁ = some s₁' := by
    intro n
    obtain ⟨s₁', hs₁'⟩ := hsome (n + 1) (Nat.succ_le_succ (Nat.le_of_lt_succ n.isLt))
    obtain ⟨s₁, hs₁⟩ := hsome n (Nat.le_of_lt n.isLt)
    refine ⟨s₁, s₁', hs₁', ?_⟩
    rw [afterSteps?_add, hs₁] at hs₁'
    simpa [afterSteps?] using hs₁'
  choose before reached hafter hstep using hreached
  obtain ⟨x, y, hne, hsame⟩ := Fintype.exists_ne_map_eq_of_card_lt (fun n => key (reached n))
    (by rw [Fintype.card_fin, Fintype.card_fin]; exact Nat.lt_succ_self size)
  have hback : afterSteps? step (x + 1) s = afterSteps? step (y + 1) s := by
    rw [hafter, hafter, hkey _ _ _ _ (hstep x) (hstep y) hsame]
  rcases Nat.lt_or_gt_of_ne fun h => hne (Fin.ext h) with hlt | hlt
  · exact ⟨x + 1, y + 1, Nat.succ_lt_succ hlt, by rw [hafter]; rfl, hback⟩
  · exact ⟨y + 1, x + 1, Nat.succ_lt_succ hlt, by rw [hafter]; rfl, hback.symm⟩

/-- Two ways to go, side by side: where one can go on so can the other. -/
theorem isSome_afterSteps?_iff {τ : Type} {step' : τ → Option τ} {R : σ → τ → Prop}
    (hstep : ∀ s t, R s t → match step s, step' t with
      | some s', some t' => R s' t'
      | none, none => True
      | _, _ => False)
    {t : τ} (h : R s t) (n : Nat) : (afterSteps? step n s).isSome ↔ (afterSteps? step' n t).isSome := by
  induction n generalizing s t with
  | zero => exact ⟨fun _ => rfl, fun _ => rfl⟩
  | succ n ih =>
    have hboth := hstep s t h
    rw [afterSteps?, afterSteps?]
    cases hs : step s with
    | none =>
      rw [hs] at hboth
      cases ht : step' t with
      | none => exact Iff.rfl
      | some t' => rw [ht] at hboth; exact hboth.elim
    | some s' =>
      rw [hs] at hboth
      cases ht : step' t with
      | none => rw [ht] at hboth; exact hboth.elim
      | some t' => rw [ht] at hboth; exact ih hboth

end Concept32
