import Concept32.Proofs.Hardware.Events
import Concept32.Proofs.Machine.Ticks

/-!
# The events of a machine

Whatever is done to a machine, and every tick of it also if it fails, leads its hardware through events. The hardware of
every machine that can come about is therefore at the end of a run.
-/

namespace Concept32

namespace Hardware
open EStateM
variable {δ ω α ε : Type} [Peripheral δ ω] {s s' u : Hardware δ ω} {events later : List (Event δ ω)}

theorem run_append : run (events ++ later) s = run later (run events s) := by
  induction events generalizing s with
  | nil => rfl
  | cons e events ih => exact ih

/-- Some events lead from one state to another. -/
def Leads (s s' : Hardware δ ω) : Prop := ∃ events, run events s = s'

theorem Leads.trans : Leads s s' → Leads s' u → Leads s u
  | ⟨events, h⟩, ⟨later, h'⟩ => ⟨events ++ later, by rw [run_append, h, h']⟩

instance : Std.Refl (@Leads δ ω _) := ⟨fun _ => ⟨[], rfl⟩⟩

instance : Trans (@Leads δ ω _) Leads Leads := ⟨.trans⟩

theorem leads_apply (e : Event δ ω) : Leads s (e.apply s) := ⟨[e], rfl⟩

/-- A step that is what an event does. -/
theorem leads_of_event {x : EStateM ε (Hardware δ ω) α} (e : Event δ ω) (he : ∀ s, e.apply s = after x s) :
    Moves Leads x where
  ok {s s' a} h := by
    have hleads : Leads s (e.apply s) := leads_apply e
    rwa [he, after, h] at hleads
  error {s s' t} h := by
    have hleads : Leads s (e.apply s) := leads_apply e
    rwa [he, after, h] at hleads

theorem leads_onChannelsAndMemory {f : Channels δ ω → Memory → α × Channels δ ω × Memory} :
    Moves Leads (onChannelsAndMemory f : EStateM ε (Hardware δ ω) α) :=
  moves_onChannelsAndMemory fun _ _ _ => leads_apply (.devices _ _)

theorem leads_onChannels {f : Channels δ ω → α × Channels δ ω} :
    Moves Leads (onChannels f : EStateM ε (Hardware δ ω) α) :=
  moves_onChannels fun core _ => leads_apply (.devices _ core.memory)

/-- A step that halts the processor when it traps. -/
theorem leads_orHaltOnTrap {now : Nat} {x : Concept32.Exec α}
    (hx : Moves Leads (onCore x : EStateM Trap (Hardware δ ω) α)) :
    Moves (@Leads δ ω _) (onCore (Delivery.orHaltOnTrap now x)) where
  ok {s s' a} h := by
    obtain ⟨core, channels⟩ := s
    rw [onCore, Delivery.orHaltOnTrap] at h
    cases hend : x core with
    | ok b core' =>
      rw [hend] at h
      cases h
      exact hx.ok (show onCore x ⟨core, channels⟩ = .ok a ⟨core', channels⟩ by rw [onCore, hend])
    | error t core' =>
      rw [hend] at h
      cases h
  error {s s' halt} h := by
    obtain ⟨core, channels⟩ := s
    rw [onCore, Delivery.orHaltOnTrap] at h
    cases hend : x core with
    | ok b core' =>
      rw [hend] at h
      cases h
    | error t core' =>
      rw [hend] at h
      cases h
      have htrapped : Leads ⟨core, channels⟩ ⟨core', channels⟩ :=
        hx.error (show onCore x ⟨core, channels⟩ = .error t ⟨core', channels⟩ by rw [onCore, hend])
      exact htrapped.trans (leads_apply .halt)

end Hardware

namespace Machine
open EStateM Hardware
variable {δ ω α : Type} [Peripheral δ ω] {m m' : Machine δ ω} {now due : Nat}

/-- Some events lead the hardware of one machine to that of another. -/
def Leads (m m' : Machine δ ω) : Prop := Hardware.Leads m.hardware m'.hardware

theorem Leads.of_hardware (h : m'.hardware = m.hardware) : Leads m m' := ⟨[], h.symm⟩

instance : Std.Refl (@Leads δ ω _) := ⟨fun _ => .of_hardware rfl⟩

instance : Trans (@Leads δ ω _) Leads Leads := ⟨Hardware.Leads.trans⟩

/-! ### Ticks -/

theorem leads_onHardware {x : EStateM TrapHalt (Hardware δ ω) α} (hx : Moves Hardware.Leads x) :
    Moves Leads (onHardware x) where
  ok h := by
    obtain ⟨s, hs, rfl⟩ := onHardware_eq_ok.mp h
    exact hx.ok hs
  error h := by
    obtain ⟨halt, s, hs, -, rfl⟩ := onHardware_eq_error.mp h
    exact hx.error hs

theorem leads_modify {f : Machine δ ω → Machine δ ω} (hf : ∀ m, (f m).hardware = m.hardware) :
    Moves Leads (modify f : Action δ ω Unit) where
  ok h := by
    obtain rfl := modify_eq_ok.mp h
    exact .of_hardware (hf _)
  error h := by cases h

theorem leads_pollIfPending : Moves Leads (pollIfPending now : Action δ ω Unit) := by
  refine .bind (leads_onHardware leads_onChannels) fun pending => ?_
  split
  · exact leads_modify fun _ => rfl
  · exact .pure _

theorem leads_endLoad {progress : LoadProgress} : Moves Leads (endLoad now progress : Action δ ω Unit) := by
  cases progress with
  | complete a =>
    have hstart : Moves Hardware.Leads (onCore (Exec.startAt 0) : EStateM Trap (Hardware δ ω) Unit) :=
      leads_of_event (.load 0) fun _ => rfl
    exact .bind (leads_onHardware (leads_orHaltOnTrap hstart)) fun _ => leads_modify fun _ => rfl
  | failed e => exact .bind (leads_onHardware (leads_of_event .halt fun _ => rfl)) fun _ => .throw _

theorem leads_poll : Moves Leads (poll now : Action δ ω Unit) := by
  refine .bind (leads_onHardware leads_onChannelsAndMemory) fun _ => .bind (leads_onHardware leads_onChannels)
    fun next => .bind (leads_modify fun _ => rfl) fun _ => .bind (leads_onHardware leads_onChannelsAndMemory)
    fun progress => ?_
  cases progress with
  | none => exact leads_pollIfPending
  | some progress => exact .bind leads_endLoad fun _ => leads_pollIfPending

theorem leads_advancePoll : Moves Leads (advancePoll now : Action δ ω Unit) := by
  refine .bind (leads_onHardware leads_onChannels) fun next => ?_
  cases next with
  | none => exact leads_pollIfPending
  | some due => exact .bind (leads_modify fun _ => rfl) fun _ => leads_pollIfPending

theorem leads_get : Moves Leads (get : Action δ ω (Machine δ ω)) where
  ok h := by
    cases h
    exact .of_hardware rfl
  error h := by cases h

theorem leads_execute : Moves Leads (execute now due : Action δ ω Unit) := by
  refine .bind (leads_modify fun _ => rfl) fun _ => .bind (leads_onHardware (leads_of_event (.instruct now) fun _ => rfl))
    fun duration => .bind (leads_modify fun _ => rfl) fun _ => .bind leads_get fun m => ?_
  split
  · exact .bind (leads_modify fun _ => rfl) fun _ => leads_advancePoll
  · exact leads_advancePoll

theorem leads_executeDue : Moves Leads (executeDue now : Action δ ω Unit) := by
  refine .bind leads_get fun m => .bind leads_get fun m' => ?_
  split
  · split
    · exact leads_execute
    · exact .pure _
  · exact leads_modify fun _ => rfl
  · exact .pure _

/-- A tick, also one that fails, is some events. -/
theorem leads_tick : Moves Leads (tick now : Action δ ω Unit) := by
  have hact : ∀ taken : Bool, Moves Leads
      (if taken then setInstructionDue (some (now + Timing.interrupt)) else executeDue now : Action δ ω Unit) := by
    intro taken
    split
    · exact leads_modify fun _ => rfl
    · exact leads_executeDue
  have hlook : Moves Leads (do
      let interrupted ←
        if (← get).mode = .halted then pure false else onHardware (Hardware.scanForInterrupt now)
      if interrupted then setInstructionDue (some (now + Timing.interrupt))
      else executeDue now : Action δ ω Unit) := by
    refine .bind leads_get fun m => ?_
    split
    · exact .bind (.pure _) hact
    · exact .bind (leads_onHardware (leads_of_event (.scan now) fun _ => rfl)) hact
  refine .bind leads_get fun m => ?_
  split
  · exact .bind leads_poll fun _ => hlook
  · exact hlook

/-! ### Machines that can come about -/

theorem leads_reset : Leads m (m.reset now) := by
  have hreset : Hardware.Leads m.hardware ((Event.reset).apply m.hardware) := leads_apply _
  exact hreset.trans (leads_apply (.devices _ _))

theorem leads_loadImage (a : Word) (image : List Byte) : Leads m (m.loadImage a image).2 := by
  rw [loadImage]
  split
  · exact leads_apply (.devices _ _)
  · exact leads_apply (.devices _ _)

theorem leads_boot (a : DeviceAddress) : Leads m (m.boot now a).2 := by
  have hreset : Leads m (m.reset now) := leads_reset
  exact Hardware.Leads.trans hreset (leads_apply (.devices _ _))

/-- The hardware of every machine that can come about is what some events make of hardware without devices. -/
theorem Reachable.leads (h : Reachable m now) : ∃ config, Hardware.Leads (.initial config) m.hardware := by
  induction h with
  | @build config m now choice h =>
    refine ⟨config, ?_⟩
    rw [Machine.build] at h
    let bare : Machine δ ω := ⟨config, .initial config, none, now, 0⟩
    have hreset : Leads bare (bare.reset now) := leads_reset
    cases hvalid : config.validate <;> rw [hvalid] at h <;> cases h
    exact hreset.trans (leads_apply (.devices _ _))
  | attach a device h ih => exact ih.imp fun _ hleads => hleads.trans (leads_apply (.devices _ _))
  | loadImage a image h ih => exact ih.imp fun _ hleads => hleads.trans (leads_loadImage a image)
  | start a h ih => exact ih.imp fun _ hleads => hleads.trans (leads_apply (.start a))
  | boot a h ih => exact ih.imp fun _ hleads => hleads.trans (leads_boot a)
  | requestInterrupt level h ih => exact ih.imp fun _ hleads => hleads.trans (leads_apply (.request level))
  | tick h htick ih => exact ih.imp fun _ hleads => hleads.trans (leads_tick.ok htick)

end Machine
end Concept32
