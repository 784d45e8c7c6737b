import Concept32.Channel.Instructions
import Concept32.Channel.Polling
import Concept32.Configuration
import Concept32.Cpu.Delivery

/-!
# The hardware

The processor and memory together with the channels, and the parts of it on which the steps of an
instruction work.
-/

namespace Concept32

/-- The processor, memory and the channels. -/
structure Hardware (δ ω : Type) where
  core : Core
  channels : Channels δ ω

namespace Hardware
variable {δ ω ε α : Type}

/-- The hardware of a model with a size of memory, without devices. -/
def initial (c : Configuration) : Hardware δ ω where
  core := ⟨.initial c.model c.history, .ofSize c.memory⟩
  channels := .empty

/-- A step of the processor and memory alone. -/
def onCore (x : EStateM ε Core α) : EStateM ε (Hardware δ ω) α := fun ⟨core, channels⟩ =>
  match x core with
  | .ok a core => .ok a ⟨core, channels⟩
  | .error e core => .error e ⟨core, channels⟩

/-- A step of the channels alone. -/
def onChannels (f : Channels δ ω → α × Channels δ ω) : EStateM ε (Hardware δ ω) α :=
  fun ⟨core, channels⟩ =>
    match f channels with
    | (a, channels) => .ok a ⟨core, channels⟩

/-- A step of the channels that works on memory. -/
def onChannelsAndMemory (f : Channels δ ω → Memory → α × Channels δ ω × Memory) :
    EStateM ε (Hardware δ ω) α := fun ⟨⟨cpu, memory⟩, channels⟩ =>
  match f channels memory with
  | (a, channels, memory) => .ok a ⟨⟨cpu, memory⟩, channels⟩

end Hardware
end Concept32
