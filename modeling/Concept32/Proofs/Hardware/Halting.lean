import Concept32.Proofs.Hardware.Interrupts
import Concept32.Proofs.Hardware.Traps

/-!
# The processor halts when something cannot be delivered

An interrupt that is taken sets the processor running, and so does a trap that is delivered. When either cannot be
delivered the processor has halted, and the channels have at most presented status.
-/

namespace Concept32

namespace Delivery
open EStateM
variable {α : Type} {now : Nat} {t : Trap} {resume : Word}

/-- The step leaves the processor halted when it fails. -/
abbrev Halts (x : Delivery α) : Prop := Fails (fun _ s => s.cpu.mode = .halted) x

instance : Halts (haltOn now t : Delivery α) := ⟨fun h => by cases h; rfl⟩

instance {x : Exec α} : Halts (orHalt now t x) where
  of_error h := by
    rw [orHalt] at h
    split at h <;> cases h
    rfl

instance {f : Cpu → Cpu} : Halts (modifyCpu f) := ⟨fun h => by cases h⟩

instance : Halts (get : Delivery Core) := ⟨fun h => by cases h⟩

instance : Halts (takeTrap now t resume) := by
  rw [takeTrap]
  refine .andThen fun core => ?_
  split <;> infer_instance

end Delivery

namespace Hardware
open EStateM
variable {δ ω α : Type} {s s' : Hardware δ ω} {now level left : Nat} {taken : Bool} {i : Instruction} {next : Word}
  {t : Trap} {halt : TrapHalt} {entry : ConfigurationEntry}

/-! ### Interrupts -/

/-- A look for an interrupt has found one or not; the processor runs if it has. -/
structure Found (taken : Bool) (s s' : Hardware δ ω) : Prop where
  channels : Drains s.channels s'.channels
  mode : s'.core.cpu.mode = if taken then .running else s.core.cpu.mode

/-- A look for an interrupt has found one that cannot be delivered. -/
structure Stuck (s s' : Hardware δ ω) : Prop where
  channels : Drains s.channels s'.channels
  mode : s'.core.cpu.mode = .halted

instance : Std.Refl (@Found δ ω false) := ⟨fun _ => ⟨.refl, rfl⟩⟩

instance : Trans (@Found δ ω false) (Found taken) (Found taken) :=
  ⟨fun h h' => ⟨h.channels.trans h'.channels, h'.mode.trans (by rw [h.mode]; rfl)⟩⟩

instance : Trans (@Found δ ω false) Stuck Stuck := ⟨fun h h' => ⟨h.channels.trans h'.channels, h'.mode⟩⟩

theorem mode_takeInterrupt :
    Ends (fun (taken : Bool) (core core' : Core) => core'.cpu.mode = if taken then .running else core.cpu.mode)
      (fun _ core' : Core => core'.cpu.mode = .halted) (takeInterrupt now level entry) := by
  constructor
  · intro core core' taken h
    rcases takeInterrupt_cases now level entry core with ⟨-, htake⟩ | ⟨_, _, -, ⟨-, htake⟩ | ⟨_, -, htake⟩⟩
    · rw [htake] at h; cases h; rfl
    · rw [htake] at h; cases h; rfl
    · rw [htake] at h; cases h
  · intro core core' halt h
    rcases takeInterrupt_cases now level entry core with ⟨-, htake⟩ | ⟨_, _, -, ⟨-, htake⟩ | ⟨_, -, htake⟩⟩
    · rw [htake] at h; cases h
    · rw [htake] at h; cases h
    · rw [htake] at h; cases h; rfl

theorem found_takeInterrupt : Ends (@Found δ ω) Stuck (onCore (takeInterrupt now level entry)) where
  ok h := by
    obtain ⟨hchannels, h⟩ := onCore_eq_ok h
    exact ⟨hchannels ▸ .refl, mode_takeInterrupt.ok h⟩
  error h := by
    obtain ⟨hchannels, h⟩ := onCore_eq_error h
    exact ⟨hchannels ▸ .refl, mode_takeInterrupt.error h⟩

theorem found_presentStatus : Ends (fun _ => @Found δ ω false) Stuck (presentStatus entry level) where
  ok {s s' presented} h := by
    have hdrains : Drains s.channels s'.channels := by
      rcases presentStatus_inv h with ⟨-, rfl, -⟩ | ⟨hdrains, -⟩
      · exact .refl
      · exact hdrains
    refine ⟨hdrains, ?_⟩
    obtain ⟨⟨cpu, memory⟩, channels⟩ := s
    rw [presentStatus] at h
    repeat' split at h
    all_goals
      cases h
      rfl
  error {s s' e} h := by
    obtain ⟨⟨cpu, memory⟩, channels⟩ := s
    rw [presentStatus] at h
    repeat' split at h
    all_goals cases h

section
variable {R : Bool → Hardware δ ω → Hardware δ ω → Prop} {S : Hardware δ ω → Hardware δ ω → Prop}
  [Std.Refl (R false)] [∀ taken, Trans (R false) (R taken) (R taken)] [Trans (R false) S S]

/-- What presenting status and taking an interrupt do a look for an interrupt does. -/
theorem ends_scanLevels (hpresent : ∀ {entry level}, Ends (fun _ => R false) S (presentStatus entry level))
    (htake : ∀ {entry level}, Ends R S (onCore (takeInterrupt now level entry))) : Ends R S (scanLevels now left) := by
  induction left with
  | zero => exact .pure
  | succ left ih =>
    have hget : Ends (fun _ => R false) S (get : EStateM TrapHalt (Hardware δ ω) (Hardware δ ω)) :=
      ⟨fun h => by cases h; exact Std.Refl.refl _, fun h => by cases h⟩
    rw [scanLevels]
    refine .bind hget fun s => ?_
    dsimp only
    split
    · exact .pure
    split
    · exact ih
    split
    · exact htake
    split
    · exact ih
    · refine .bind hpresent fun presented => ?_
      split
      · exact htake
      · exact ih

theorem ends_scanForInterrupt (hpresent : ∀ {entry level}, Ends (fun _ => R false) S (presentStatus entry level))
    (htake : ∀ {entry level}, Ends R S (onCore (takeInterrupt now level entry))) :
    Ends R S (scanForInterrupt now) := by
  have hget : Ends (fun _ => R false) S (get : EStateM TrapHalt (Hardware δ ω) (Hardware δ ω)) :=
    ⟨fun h => by cases h; exact Std.Refl.refl _, fun h => by cases h⟩
  rw [scanForInterrupt]
  refine .bind hget fun s => ?_
  split
  · exact .pure
  · exact ends_scanLevels hpresent htake

end

/-- A look for an interrupt sets the processor running when it takes one, and halts it when it fails. -/
theorem found_scanForInterrupt : Ends (@Found δ ω) Stuck (scanForInterrupt now) :=
  ends_scanForInterrupt found_presentStatus found_takeInterrupt

/-! ### Instructions -/

/-- After a trap only its delivery can fail. -/
theorem halted_of_takeTrap_error {resume : Word} {x : EStateM TrapHalt (Hardware δ ω) Nat}
    (hx : Ends (fun _ => Anyhow) Never x)
    (h : (do onCore (Delivery.takeTrap now t resume); x : EStateM TrapHalt (Hardware δ ω) Nat) s = .error halt s') :
    s'.core.cpu.mode = .halted ∧ s'.channels = s.channels := by
  obtain h | ⟨_, _, _, h⟩ := bind_eq_error.mp h
  · obtain ⟨hchannels, h⟩ := onCore_eq_error h
    have hhalts : Delivery.Halts (Delivery.takeTrap now t resume) := inferInstance
    exact ⟨hhalts.of_error h, hchannels⟩
  · exact (hx.error h).elim

theorem anyhow_remember {before : Psd} : Ends (fun _ => Anyhow) Never (do
      onCore (Delivery.modifyCpu (remember before i))
      let indirections := (← get).core.cpu.indirections
      return Timing.instruction i before.based indirections : EStateM TrapHalt (Hardware δ ω) Nat) :=
  ⟨fun _ => trivial, fun h => by cases h⟩

variable [Peripheral δ ω]

theorem channels_of_perform_error (h : perform now i next s = .error t s') : s'.channels = s.channels := by
  rcases perform_eq_error h with ⟨-, rfl⟩ | ⟨opcode, -, hx | ⟨o, u, hx, hperform⟩⟩
  · rfl
  · exact (onCore_eq_error hx).1
  · have hread := (onCore_eq_ok hx).1
    rcases hperform with hio | hcore
    · exact (guarded_ioInstruction.error hio).2.trans hread
    · exact (onCore_eq_error hcore).1.trans hread

/-- An instruction that traps has not reached the channels. -/
theorem channels_of_dispatch_error (h : dispatch now i next s = .error t s') : s'.channels = s.channels := by
  rw [dispatch] at h
  split at h
  · obtain hx | ⟨target, u, hx, hperform⟩ := bind_eq_error.mp h
    · exact (onCore_eq_error hx).1
    have hread := (onCore_eq_ok hx).1
    split at hperform
    · cases hperform
      exact hread
    · exact (channels_of_perform_error hperform).trans hread
  · exact channels_of_perform_error h

/-- An instruction fails only when its trap cannot be delivered. -/
theorem executeInstruction_eq_error (h : executeInstruction now s = .error halt s') :
    s'.core.cpu.mode = .halted ∧ s'.channels = s.channels := by
  obtain ⟨⟨cpu, memory⟩, channels⟩ := s
  rw [executeInstruction] at h
  dsimp only at h
  split at h
  · have hpure : Ends (fun _ => Anyhow) Never (pure Timing.trap : EStateM TrapHalt (Hardware δ ω) Nat) := .pure
    have hhalted := halted_of_takeTrap_error hpure h
    exact hhalted
  · split at h
    · next u _ =>
      obtain ⟨⟨_, _⟩, _⟩ := u
      cases h
    · next hdispatch =>
      obtain ⟨hmode, hchannels⟩ := halted_of_takeTrap_error anyhow_remember h
      have hsame : _ = channels := channels_of_dispatch_error hdispatch
      exact ⟨hmode, hchannels.trans hsame⟩

end Hardware
end Concept32
