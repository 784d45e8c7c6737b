import Concept32.Machine.Basic
import Concept32.Hardware.Execute
import Concept32.Hardware.Interrupts

/-!
# Advancing the machine

A tick at a time services the devices that are due and lets channel programs go on, takes an interrupt if
there is one to take, and otherwise executes at most one instruction. `Machine.nextTick` tells when the next
tick is due.
-/

namespace Concept32.Machine
variable {δ ω : Type}

/-- A step of the machine, which may stop it. -/
abbrev Action (δ ω α : Type) := EStateM MachineStop (Machine δ ω) α

/-- A step of the hardware. -/
def onHardware {α : Type} (x : EStateM TrapHalt (Hardware δ ω) α) : Action δ ω α :=
  fun ⟨config, hardware, instructionDue, pollDue, executed⟩ =>
    match x hardware with
    | .ok a hardware => .ok a ⟨config, hardware, instructionDue, pollDue, executed⟩
    | .error halt hardware => .error (.trap halt) ⟨config, hardware, instructionDue, pollDue, executed⟩

/-- Set when the next instruction is due. -/
def setInstructionDue (due : Option Nat) : Action δ ω Unit :=
  modify fun m => { m with instructionDue := due }

/-- Change when the channels are next looked at. -/
def modifyPollDue (f : Nat → Nat) : Action δ ω Unit := modify fun m => { m with pollDue := f m.pollDue }

/-- The earliest time at which a device wants service. -/
def nextService? : Action δ ω (Option Nat) := onHardware (Hardware.onChannels fun c => (c.nextService?, c))

/-- Look at the channels at once if they may have status to present. -/
def pollIfPending (now : Nat) : Action δ ω Unit := do
  if ← onHardware (Hardware.onChannels fun c => (c.interruptPending, c)) then modifyPollDue fun _ => now

variable [Peripheral δ ω]

/-! ### The channels -/

/-- The time between two looks at the channels when no device wants service. -/
def idlePollTime : Nat := 1000000

/-- Act on the end of a program load: start running under the status doubleword at address zero, or halt. -/
def endLoad (now : Nat) : LoadProgress → Action δ ω Unit
  | .complete _ => do
    onHardware (Hardware.onCore (Delivery.orHaltOnTrap now (Exec.startAt 0)))
    setInstructionDue (some now)
  | .failed e => do
    onHardware (Hardware.onCore (Delivery.modifyCpu fun c => { c with mode := .halted }))
    throw (.loadFailed e)

/-- Service the devices that are due and let channel programs go on. -/
def poll (now : Nat) : Action δ ω Unit := do
  onHardware (Hardware.onChannelsAndMemory fun c mem => ((), c.poll now mem))
  let next ← nextService?
  modifyPollDue fun _ =>
    match next with
    | some due => max due now
    | none => now + idlePollTime
  match ← onHardware (Hardware.onChannelsAndMemory fun c mem =>
      match c.scan now mem with
      | (progress, c) => (progress, c, mem)) with
  | none => pure ()
  | some progress => endLoad now progress
  pollIfPending now

/-! ### Instructions -/

/-- Look at the channels no later than an instruction has made necessary. -/
def advancePoll (now : Nat) : Action δ ω Unit := do
  match ← nextService? with
  | some due => modifyPollDue fun p => min p (max due now)
  | none => pure ()
  pollIfPending now

/-- Execute the instruction that was due at a time. The next one is due when it ends, but not before the
next nanosecond; none is due when the processor has stopped. -/
def execute (now due : Nat) : Action δ ω Unit := do
  setInstructionDue none
  let duration ← onHardware (Hardware.executeInstruction now)
  modify fun m => { m with executed := m.executed + 1 }
  if (← get).mode = .running then
    let next := due + duration
    setInstructionDue (some (if next ≤ now then now + 1 else next))
  advancePoll now

/-- Execute the instruction that is due, if one is. A processor that runs again without one, because it was
given a new status doubleword, has its next instruction due at once. -/
def executeDue (now : Nat) : Action δ ω Unit := do
  match (← get).mode, (← get).instructionDue with
  | .running, some due => if due ≤ now then execute now due
  | .running, none => setInstructionDue (some now)
  | _, _ => pure ()

/-- Advance the machine at a time. Taking an interrupt takes the whole tick. -/
def tick (now : Nat) : Action δ ω Unit := do
  if (← get).pollDue ≤ now then poll now
  let interrupted ←
    if (← get).mode = .halted then pure false else onHardware (Hardware.scanForInterrupt now)
  if interrupted then setInstructionDue (some (now + Timing.interrupt))
  else executeDue now

end Concept32.Machine
