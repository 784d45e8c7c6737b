import Concept32.Channel.Program
import Concept32.Proofs.Simulation

/-!
# Programs without their staged word

Fetching never looks at the staged word: it is kept or given up, and all else goes the same way.
-/

namespace Concept32.ChannelProgram
open EStateM
variable {mem : Memory} {word : Option StagedWord} {p q : ChannelProgram}

/-- The program without its staged word. -/
def unstaged (p : ChannelProgram) : ChannelProgram := { p with staged := none }

/-- One program is the other without its staged word, which is a given one or has been given up. -/
def Agrees (word : Option StagedWord) (p q : ChannelProgram) : Prop :=
  q = p.unstaged ∧ (p.staged = word ∨ p.staged = none)

theorem Agrees.count (h : Agrees word p q) : q.count = p.count := by rw [h.1]; rfl

theorem Agrees.flags (h : Agrees word p q) : q.flags = p.flags := by rw [h.1]; rfl

/-- A step does not look at the staged word, and keeps it or gives it up. -/
def Blind {α : Type} (x : Step α) : Prop := ∀ word, Simulates Eq (Agrees word) x x

namespace Blind
variable {α β : Type} {x : Step α} {f : α → Step β}

theorem pure {a : α} : Blind (Pure.pure a) := fun _ => .pure rfl

theorem throw {s : ChannelStatus} : Blind (MonadExcept.throw s : Step α) := fun _ => .throw

theorem bind (hx : Blind x) (hf : ∀ a, Blind (f a)) : Blind (x >>= f) := fun word =>
  (hx word).bind fun a _ h => h ▸ hf a word

theorem get {f : ChannelProgram → Step β} (hf : ∀ p, f p.unstaged = f p) (hblind : ∀ p, Blind (f p)) :
    Blind (MonadState.get >>= f) := fun word =>
  .bind .get fun p q hq => by
    rw [hq.1, hf]
    exact hblind p word

theorem change {g : ChannelProgram → ChannelProgram} (hg : ∀ p, g p.unstaged = (g p).unstaged)
    (hstaged : ∀ p, (g p).staged = p.staged ∨ (g p).staged = none) : Blind (modify g : Step PUnit) := fun _ p q hq => by
  obtain ⟨rfl, hword⟩ := hq
  refine .ok rfl ⟨hg p, ?_⟩
  rcases hstaged p with h | h
  · exact hword.imp h.trans h.trans
  · exact .inr h

theorem ite {c : Prop} [Decidable c] {y : Step α} (hx : Blind x) (hy : Blind y) : Blind (if c then x else y) := by
  split
  · exact hx
  · exact hy

theorem optional {c : Prop} [Decidable c] {y : Step PUnit} (hy : Blind y) (hx : Blind x) :
    Blind (if c then (do y; x) else x) :=
  .ite (.bind hy fun _ => hx) hx

end Blind

theorem blind_fail {α : Type} {s : ChannelStatus} : Blind (fail s : Step α) :=
  .bind (.change (fun _ => rfl) fun _ => .inl rfl) fun _ => .get (fun _ => rfl) fun _ => .throw

theorem blind_listWord {a : Address} : Blind (listWord mem a) := by
  rw [listWord]
  split
  · exact .pure
  · exact blind_fail

theorem blind_firstWord {transferAllowed : Bool} : Blind (firstWord mem transferAllowed) :=
  .get (fun _ => rfl) fun _ => .ite (.get (fun _ => rfl) fun _ => .throw) <|
    .get (fun _ => rfl) fun _ => .optional (.change (fun _ => rfl) fun _ => .inl rfl) <|
      .get (fun _ => rfl) fun _ => .bind blind_listWord fun _ => .ite .pure <| .optional blind_fail <|
        .bind (.change (fun _ => rfl) fun _ => .inl rfl) fun _ =>
          .get (fun _ => rfl) fun _ => .bind blind_listWord fun _ => .optional blind_fail .pure

/-- The end of a fetch: a count of zero is right only without data. -/
def checked (issued : Option Byte) : Step (Option Byte) := do
  if (← get).count = 0 && (← get).dataAddress ≠ 0 then fail .programCheck
  return issued

theorem blind_checked {issued : Option Byte} : Blind (checked issued) :=
  .get (fun _ => rfl) fun _ => .get (fun _ => rfl) fun _ => .optional blind_fail .pure

theorem blind_fetch {transferAllowed : Bool} : Blind (fetch mem transferAllowed) :=
  .bind blind_firstWord fun _ => .get (fun _ => rfl) fun _ =>
    .bind (.change (fun _ => rfl) fun _ => .inl rfl) fun _ => .get (fun _ => rfl) fun _ =>
      .bind blind_listWord fun _ => .bind (.change (fun _ => rfl) fun _ => .inr rfl) fun _ =>
        .get (fun _ => rfl) fun _ =>
          .optional (.change (fun _ => rfl) fun _ => .inl rfl) blind_checked

/-- Going through a list by data chaining does not depend on the staged word. -/
theorem sameEnd_chainData {limit : Nat} (h : Agrees word p q) :
    SameEnd Eq (Agrees word) (chainData mem limit p) (chainData mem limit q) := by
  induction limit generalizing p q with
  | zero =>
    rw [chainData, chainData, h.count, h.flags]
    split
    · exact .ok rfl h
    split
    · exact .ok rfl h
    · exact blind_fail word p q h
  | succ limit ih =>
    rw [chainData, chainData, h.count, h.flags]
    split
    · exact .ok rfl h
    split
    · exact .ok rfl h
    have hfetch : SameEnd Eq (Agrees word) (fetch mem true p) (fetch mem true q) := blind_fetch word p q h
    generalize fetch mem true p = left at hfetch
    generalize fetch mem true q = right at hfetch
    cases hfetch with
    | ok _ hagrees => exact ih hagrees
    | error hagrees => exact .error hagrees

end Concept32.ChannelProgram
