import Concept32.Hardware.Basic

/-!
# The machine

The whole machine: the hardware, and when it next has something to do. This module builds a machine, resets
it and sets it to work; `Machine.tick` then advances it. All times are simulated ones, in nanoseconds.
-/

namespace Concept32

inductive MachineStop
  /-- A trap could not be delivered. -/
  | trap (halt : TrapHalt)
  /-- The machine could not be loaded. -/
  | loadFailed (error : BootError)
  deriving DecidableEq, Repr

def MachineStop.message : MachineStop → String
  | .trap halt => halt.message
  | .loadFailed error => "initial program load failed: " ++ error.message

/-- A machine; `δ` are the states of its devices and `ω` is what they put out. -/
structure Machine (δ ω : Type) where
  config : Configuration
  hardware : Hardware δ ω
  /-- When the next instruction is due, if one is. -/
  instructionDue : Option Nat
  /-- When the channels are next looked at. -/
  pollDue : Nat
  /-- The number of instructions executed. -/
  executed : Nat

namespace Machine
variable {δ ω : Type}

/-! ### Parts -/

def cpu (m : Machine δ ω) : Cpu := m.hardware.core.cpu

def memory (m : Machine δ ω) : Memory := m.hardware.core.memory

def channels (m : Machine δ ω) : Channels δ ω := m.hardware.channels

def mode (m : Machine δ ω) : RunMode := m.cpu.mode

/-- The processor is halted and no program load is in progress, so nothing will happen any more. -/
def isStopped (m : Machine δ ω) : Bool := m.mode = .halted && m.channels.loading.isNone

/-- The time at which the machine is next to be advanced. -/
def nextTick (m : Machine δ ω) : Nat :=
  match m.mode, m.instructionDue with
  | .running, some due => min m.pollDue due
  | _, _ => m.pollDue

/-- The machine with an interrupt requested on a level. -/
def requestInterrupt (m : Machine δ ω) (now : Nat) (level : Nat) : Machine δ ω :=
  match m with
  | ⟨config, ⟨⟨cpu, memory⟩, channels⟩, instructionDue, pollDue, executed⟩ =>
    ⟨config, ⟨⟨cpu.requestInterrupt level, memory⟩, channels⟩, instructionDue, min pollDue now, executed⟩

/-! ### Building and resetting -/

/-- The doubleword that reads the first record of a program load: 24 bytes to address zero. The list goes
on with a command, and a short record is no error. -/
def bootstrap : Word × Word := (0x02000000#32, 0x60000018#32)

/-- What the devices have put out, and the machine without it. -/
def takeOutput (m : Machine δ ω) : Array ω × Machine δ ω :=
  match m with
  | ⟨config, ⟨core, channels⟩, instructionDue, pollDue, executed⟩ =>
    (channels.output, ⟨config, ⟨core, { channels with output := #[] }⟩, instructionDue, pollDue, executed⟩)

/-- The machine with another choice among devices that want service at the same time. -/
def choosing (m : Machine δ ω) (choice : Nat → Nat) : Machine δ ω :=
  match m with
  | ⟨config, ⟨core, channels⟩, instructionDue, pollDue, executed⟩ =>
    ⟨config, ⟨core, channels.choosing choice⟩, instructionDue, pollDue, executed⟩

variable [Peripheral δ ω]

/-- Reset the machine: the processor halts, the channels and devices are reset, and memory keeps its
contents except for the bootstrap at address zero. -/
def reset (m : Machine δ ω) (now : Nat) : Machine δ ω :=
  match m with
  | ⟨config, ⟨⟨cpu, memory⟩, channels⟩, _, _, executed⟩ =>
    let memory := memory.after (Memory.writePair 0 bootstrap.1 bootstrap.2)
    ⟨config, ⟨⟨cpu.reset, memory⟩, channels.reset now⟩, none, now, executed⟩

/-- The machine of a configuration, after a reset. -/
def build (now : Nat) (config : Configuration) : Except ConfigurationError (Machine δ ω) :=
  config.validate.map fun _ => (⟨config, .initial config, none, now, 0⟩ : Machine δ ω).reset now

def attach (m : Machine δ ω) (now : Nat) (a : DeviceAddress) (device : δ) : Machine δ ω :=
  match m with
  | ⟨config, ⟨core, channels⟩, instructionDue, _, executed⟩ =>
    ⟨config, ⟨core, channels.attach now a device⟩, instructionDue, now, executed⟩

/-! ### Setting it to work -/

def loadImage (m : Machine δ ω) (a : Word) (image : List Byte) :
    Except MemoryError Unit × Machine δ ω :=
  match m with
  | ⟨config, ⟨⟨cpu, memory⟩, channels⟩, instructionDue, pollDue, executed⟩ =>
    match Memory.loadImage a image memory with
    | .ok _ memory => (.ok (), ⟨config, ⟨⟨cpu, memory⟩, channels⟩, instructionDue, pollDue, executed⟩)
    | .error e memory =>
      (.error e, ⟨config, ⟨⟨cpu, memory⟩, channels⟩, instructionDue, pollDue, executed⟩)

/-- Start running at an address, privileged and unmapped. -/
def start (m : Machine δ ω) (now : Nat) (a : Word) : Machine δ ω :=
  match m with
  | ⟨config, ⟨⟨cpu, memory⟩, channels⟩, _, pollDue, executed⟩ =>
    let cpu := { cpu with psd := Psd.initial.withAddress a, mode := .running }
    ⟨config, ⟨⟨cpu, memory⟩, channels⟩, some now, pollDue, executed⟩

/-- Begin an initial program load: reset the machine and start the bootstrap on a device. -/
def boot (m : Machine δ ω) (now : Nat) (a : DeviceAddress) : Except BootError Unit × Machine δ ω :=
  match m.reset now with
  | ⟨config, ⟨core, channels⟩, instructionDue, pollDue, executed⟩ =>
    match channels.boot now core.memory a with
    | (begun, channels) => (begun, ⟨config, ⟨core, channels⟩, instructionDue, pollDue, executed⟩)

end Machine
end Concept32
