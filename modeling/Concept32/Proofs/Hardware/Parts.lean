import Concept32.Hardware.Basic
import Concept32.Proofs.Steps

/-!
# Steps of parts of the hardware

How a step of the processor and memory, or of the channels, moves the hardware as a whole, for every relation
between the states before and after that allows what the step does.
-/

namespace Concept32.Hardware
open EStateM
variable {δ ω ε α : Type} {s s' : Hardware δ ω} {R : Hardware δ ω → Hardware δ ω → Prop}

/-- A sequence of steps of the processor and memory is a sequence of steps of the hardware. -/
theorem onCore_bind {β : Type} {x : EStateM ε Core α} {f : α → EStateM ε Core β} :
    (onCore (x >>= f) : EStateM ε (Hardware δ ω) β) = onCore x >>= fun a => onCore (f a) := by
  funext ⟨core, channels⟩
  cases hx : x core with
  | ok a t => rw [bind_of_ok (show onCore x ⟨core, channels⟩ = .ok a ⟨t, channels⟩ by rw [onCore, hx]), onCore, onCore,
      bind_of_ok hx]
  | error e t => rw [bind_of_error (show onCore x ⟨core, channels⟩ = .error e ⟨t, channels⟩ by rw [onCore, hx]), onCore,
      bind_of_error hx]

theorem onCore_eq_ok {x : EStateM ε Core α} {a : α} (h : onCore x s = .ok a s') :
    s'.channels = s.channels ∧ x s.core = .ok a s'.core := by
  obtain ⟨core, channels⟩ := s
  rw [onCore] at h
  split at h <;> cases h
  next heq => exact ⟨rfl, heq⟩

theorem onCore_eq_error {x : EStateM ε Core α} {e : ε} (h : onCore x s = .error e s') :
    s'.channels = s.channels ∧ x s.core = .error e s'.core := by
  obtain ⟨core, channels⟩ := s
  rw [onCore] at h
  split at h <;> cases h
  next heq => exact ⟨rfl, heq⟩

theorem after_onCore {x : EStateM ε Core α} : after (onCore x) s = ⟨after x s.core, s.channels⟩ := by
  obtain ⟨core, channels⟩ := s
  rw [after, after, onCore]
  cases x core with
  | ok a t => rfl
  | error e t => rfl

theorem moves_onCore {x : EStateM ε Core α}
    (hR : ∀ core core' channels, R ⟨core, channels⟩ ⟨core', channels⟩) : Moves R (onCore x) where
  ok {s s' a} h := by
    obtain ⟨core, channels⟩ := s
    obtain ⟨rfl, -⟩ := onCore_eq_ok h
    exact hR _ _ _
  error {s s' e} h := by
    obtain ⟨core, channels⟩ := s
    obtain ⟨rfl, -⟩ := onCore_eq_error h
    exact hR _ _ _

theorem moves_onChannels {f : Channels δ ω → α × Channels δ ω}
    (hf : ∀ core channels, R ⟨core, channels⟩ ⟨core, (f channels).2⟩) :
    Moves R (onChannels f : EStateM ε (Hardware δ ω) α) where
  ok h := by cases h; exact hf _ _
  error h := by cases h

theorem moves_onChannelsAndMemory {f : Channels δ ω → Memory → α × Channels δ ω × Memory}
    (hf : ∀ cpu memory channels, R ⟨⟨cpu, memory⟩, channels⟩
      ⟨⟨cpu, (f channels memory).2.2⟩, (f channels memory).2.1⟩) :
    Moves R (onChannelsAndMemory f : EStateM ε (Hardware δ ω) α) where
  ok h := by cases h; exact hf _ _ _
  error h := by cases h

theorem onChannelsAndMemory_of_eq {f : Channels δ ω → Memory → α × Channels δ ω × Memory} {cpu : Cpu}
    {mem mem' : Memory} {c c' : Channels δ ω} {a : α} (h : f c mem = (a, c', mem')) :
    (onChannelsAndMemory f : EStateM ε (Hardware δ ω) α) ⟨⟨cpu, mem⟩, c⟩ = .ok a ⟨⟨cpu, mem'⟩, c'⟩ := by
  rw [onChannelsAndMemory, h]

/-! ### Steps of the processor and memory -/

/-- The processor and memory are related, and the channels are as they were. -/
def OnCore (R : Core → Core → Prop) (s s' : Hardware δ ω) : Prop := R s.core s'.core ∧ s'.channels = s.channels

instance {R : Core → Core → Prop} [Std.Refl R] : Std.Refl (@OnCore δ ω R) :=
  ⟨fun _ => ⟨Std.Refl.refl _, rfl⟩⟩

instance {R R' R'' : Core → Core → Prop} [Trans R R' R''] :
    Trans (@OnCore δ ω R) (OnCore R') (OnCore R'') :=
  ⟨fun h h' => ⟨Trans.trans h.1 h'.1, h'.2.trans h.2⟩⟩

theorem ends_onCore {R : α → Core → Core → Prop} {S : Core → Core → Prop} {x : EStateM ε Core α} (h : Ends R S x) :
    Ends (fun a => @OnCore δ ω (R a)) (OnCore S) (onCore x) where
  ok hx := by
    obtain ⟨hchannels, hcore⟩ := onCore_eq_ok hx
    exact ⟨h.ok hcore, hchannels⟩
  error hx := by
    obtain ⟨hchannels, hcore⟩ := onCore_eq_error hx
    exact ⟨h.error hcore, hchannels⟩

theorem anyhow_onCore {x : EStateM ε Core α} (h : Ends (fun _ => Anyhow) Never x) :
    Ends (fun _ => Anyhow) Never (onCore x : EStateM ε (Hardware δ ω) α) :=
  (ends_onCore h).mono (fun _ _ _ _ => trivial) fun _ _ hn => hn.1.elim

theorem anyhow_onChannels {f : Channels δ ω → α × Channels δ ω} {S : Hardware δ ω → Hardware δ ω → Prop} :
    Ends (fun _ => Anyhow) S (onChannels f : EStateM ε (Hardware δ ω) α) :=
  ⟨fun _ => trivial, fun h => by cases h⟩

theorem anyhow_onChannelsAndMemory {f : Channels δ ω → Memory → α × Channels δ ω × Memory}
    {S : Hardware δ ω → Hardware δ ω → Prop} :
    Ends (fun _ => Anyhow) S (onChannelsAndMemory f : EStateM ε (Hardware δ ω) α) :=
  ⟨fun _ => trivial, fun h => by cases h⟩

end Concept32.Hardware
