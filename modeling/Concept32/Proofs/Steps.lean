/-!
# Steps that succeed and steps that fail

What the parts of a sequence did, read off what the sequence did.
-/

namespace EStateM
variable {ε σ α β : Type} {x : EStateM ε σ α} {f : α → EStateM ε σ β} {s s' : σ}

/-- A sequence succeeds when both of its parts do. -/
theorem bind_eq_ok {b : β} :
    (x >>= f) s = .ok b s' ↔ ∃ a t, x s = .ok a t ∧ f a t = .ok b s' := by
  show (match x s with | .ok a t => f a t | .error e t => .error e t) = .ok b s' ↔ _
  cases x s with
  | ok a t => simp [and_assoc]
  | error e t => simp

/-- A sequence fails in its first part or in its second. -/
theorem bind_eq_error {e : ε} :
    (x >>= f) s = .error e s' ↔ x s = .error e s' ∨ ∃ a t, x s = .ok a t ∧ f a t = .error e s' := by
  show (match x s with | .ok a t => f a t | .error e t => .error e t) = .error e s' ↔ _
  cases x s with
  | ok a t => simp [and_assoc]
  | error e t => simp

theorem bind_of_ok {a : α} {t : σ} (hx : x s = .ok a t) : (x >>= f) s = f a t := by
  show (match x s with | .ok a t => f a t | .error e t => .error e t) = f a t
  rw [hx]

theorem bind_of_error {e : ε} {t : σ} (hx : x s = .error e t) : (x >>= f) s = .error e t := by
  show (match x s with | .ok a t => f a t | .error e t => .error e t) = .error e t
  rw [hx]

/-- The state that a step leaves, whether it succeeds or fails. -/
def after (x : EStateM ε σ α) (s : σ) : σ :=
  match x s with
  | .ok _ t => t
  | .error _ t => t

theorem pure_eq_ok {a b : α} : (pure a : EStateM ε σ α) s = .ok b s' ↔ a = b ∧ s = s' := by
  show Result.ok a s = Result.ok b s' ↔ _
  simp

theorem get_eq_ok {t : σ} : (get : EStateM ε σ σ) s = .ok t s' ↔ s = t ∧ s = s' := by
  show Result.ok s s = Result.ok t s' ↔ _
  simp

theorem modify_eq_ok {g : σ → σ} {u : PUnit} : (modify g : EStateM ε σ PUnit) s = .ok u s' ↔ g s = s' := by
  show Result.ok _ (g s) = Result.ok u s' ↔ _
  simp

/-! ### Relations between the states before and after -/

/-- A step that succeeds relates the states before and after it by `R`, which may look at its result, and one
that fails relates them by `S`. -/
structure Ends (R : α → σ → σ → Prop) (S : σ → σ → Prop) (x : EStateM ε σ α) : Prop where
  ok : ∀ {s s' : σ} {a : α}, x s = .ok a s' → R a s s'
  error : ∀ {s s' : σ} {e : ε}, x s = .error e s' → S s s'

/-- However the step ends, the states before and after it are related. -/
abbrev Moves (R : σ → σ → Prop) (x : EStateM ε σ α) : Prop := Ends (fun _ => R) R x

/-- A part of the state is as it was. -/
def Keeps {τ : Type} (part : σ → τ) (s s' : σ) : Prop := part s' = part s

instance {τ : Type} {part : σ → τ} : Std.Refl (Keeps part) := ⟨fun _ => rfl⟩

instance {τ : Type} {part : σ → τ} : Trans (Keeps part) (Keeps part) (Keeps part) :=
  ⟨fun h h' => Eq.trans h' h⟩

/-- No states: as the relation of a failure, the step does not fail. -/
def Never (_ _ : σ) : Prop := False

/-- Any states. -/
def Anyhow (_ _ : σ) : Prop := True

instance : Std.Refl (@Anyhow σ) := ⟨fun _ => trivial⟩

instance {Q : σ → σ → Prop} : Trans Q (@Anyhow σ) (@Anyhow σ) := ⟨fun _ _ => trivial⟩

namespace Ends
variable {R R' : α → σ → σ → Prop} {T : β → σ → σ → Prop} {Q S S' : σ → σ → Prop}

theorem mono (h : Ends R S x) (hR : ∀ a s s', R a s s' → R' a s s') (hS : ∀ s s', S s s' → S' s s') :
    Ends R' S' x where
  ok hx := hR _ _ _ (h.ok hx)
  error hx := hS _ _ (h.error hx)

theorem pure {a : α} [Std.Refl (R a)] : Ends R S (Pure.pure a : EStateM ε σ α) where
  ok h := by obtain ⟨rfl, rfl⟩ := pure_eq_ok.mp h; exact Std.Refl.refl _
  error h := by cases h

theorem throw {e : ε} [Std.Refl S] : Ends R S (MonadExcept.throw e : EStateM ε σ α) where
  ok h := by cases h
  error h := by cases h; exact Std.Refl.refl _

/-- Both parts of a sequence may fail. -/
theorem bind [∀ b, Trans Q (T b) (T b)] [Trans Q S S] (hx : Ends (fun _ => Q) S x) (hf : ∀ a, Ends T S (f a)) :
    Ends T S (x >>= f) where
  ok h := by
    obtain ⟨a, t, hxt, hft⟩ := bind_eq_ok.mp h
    exact Trans.trans (hx.ok hxt) ((hf a).ok hft)
  error h := by
    rcases bind_eq_error.mp h with h | ⟨a, t, hxt, hft⟩
    · exact hx.error h
    · exact Trans.trans (hx.ok hxt) ((hf a).error hft)

/-- Only the first part of a sequence may fail. -/
theorem finish [∀ b, Trans Q (T b) (T b)] (hx : Ends (fun _ => Q) S x) (hf : ∀ a, Ends T Never (f a)) :
    Ends T S (x >>= f) where
  ok h := by
    obtain ⟨a, t, hxt, hft⟩ := bind_eq_ok.mp h
    exact Trans.trans (hx.ok hxt) ((hf a).ok hft)
  error h := by
    rcases bind_eq_error.mp h with h | ⟨a, t, -, hft⟩
    · exact hx.error h
    · exact ((hf a).error hft).elim

/-- What follows a check that succeeded. -/
theorem bind_check {P : σ → Prop} (hx : Ends (fun _ s s' => P s ∧ s' = s) S x)
    (hf : ∀ a, Ends (fun _ => Anyhow) S (f a)) : Ends (fun _ s _ => P s) S (x >>= f) where
  ok h := by
    obtain ⟨a, t, hxt, -⟩ := bind_eq_ok.mp h
    exact (hx.ok hxt).1
  error h := by
    rcases bind_eq_error.mp h with h | ⟨a, t, hxt, hft⟩
    · exact hx.error h
    · obtain ⟨-, rfl⟩ := hx.ok hxt
      exact (hf a).error hft

end Ends

namespace Moves
variable {R : σ → σ → Prop}

theorem pure [Std.Refl R] (a : α) : Moves R (Pure.pure a : EStateM ε σ α) := Ends.pure

theorem throw [Std.Refl R] (e : ε) : Moves R (MonadExcept.throw e : EStateM ε σ α) := Ends.throw

theorem bind [Trans R R R] (hx : Moves R x) (hf : ∀ a, Moves R (f a)) : Moves R (x >>= f) := Ends.bind hx hf

end Moves

/-- What comes after a step matters to a part of the state only if it reaches it. -/
theorem part_after_bind {τ : Type} {part : σ → τ} (hf : ∀ a, Moves (Keeps part) (f a)) :
    part (after (x >>= f) s) = part (after x s) := by
  rw [after, after]
  cases hx : x s with
  | ok a t =>
    rw [bind_of_ok hx]
    dsimp only
    cases hft : f a t with
    | ok b u => exact (hf a).ok hft
    | error e u => exact (hf a).error hft
  | error e t => rw [bind_of_error hx]

/-! ### Answers -/

/-- Whatever the step answers has a property. -/
def Answers (P : α → Prop) (x : EStateM ε σ α) : Prop := ∀ s a s', x s = .ok a s' → P a

namespace Answers
variable {P : α → Prop} {P' : β → Prop}

theorem of_ok {a : α} (h : x s = .ok a s') (hx : Answers P x) : P a := hx _ _ _ h

theorem pure {a : α} (h : P a) : Answers P (Pure.pure a : EStateM ε σ α) := fun _ _ _ hx =>
  (pure_eq_ok.mp hx).1 ▸ h

theorem bind (hf : ∀ a, Answers P' (f a)) : Answers P' (x >>= f) := fun _ _ _ h => by
  obtain ⟨a, t, -, hft⟩ := bind_eq_ok.mp h
  exact hf a _ _ _ hft

end Answers

/-! ### Failures -/

/-- Whenever the step fails, its error and the state at that point are of the kind `E`. The parts of a sequence and
the branches of a choice are found by inference. -/
class Fails (E : ε → σ → Prop) (x : EStateM ε σ α) : Prop where
  of_error : ∀ {s s' : σ} {e : ε}, x s = .error e s' → E e s'

namespace Fails
variable {E : ε → σ → Prop}

instance pure {a : α} : Fails E (Pure.pure a : EStateM ε σ α) := ⟨fun h => by cases h⟩

instance bind [Fails E x] [∀ a, Fails E (f a)] : Fails E (x >>= f) where
  of_error h := by
    rcases bind_eq_error.mp h with h | ⟨a, t, -, h⟩
    · exact of_error h
    · exact of_error h

/-- A sequence whose second part is not found by inference. -/
theorem andThen [Fails E x] (hf : ∀ a, Fails E (f a)) : Fails E (x >>= f) := bind

instance ite {p : Prop} [Decidable p] {y : EStateM ε σ α} [Fails E x] [Fails E y] :
    Fails E (if p then x else y) := by
  split
  · infer_instance
  · infer_instance

end Fails

end EStateM

/-- An error that is told in another way is an error still. -/
theorem Except.mapError_eq_ok {ε ε' α : Type} {x : Except ε α} {f : ε → ε'} {a : α} : x.mapError f = .ok a ↔ x = .ok a := by
  cases x with
  | error e =>
    show (.error (f e) : Except ε' α) = .ok a ↔ (.error e : Except ε α) = .ok a
    simp
  | ok b =>
    show (.ok b : Except ε' α) = .ok a ↔ (.ok b : Except ε α) = .ok a
    simp
