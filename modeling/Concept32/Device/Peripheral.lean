import Concept32.Device.Service

/-!
# Peripheral devices

A device answers the channel with a value and its new state, and may put something out to the world. It
either ends a command at once or asks to be serviced later, and then moves its data and ends the command
through its connection. All times are simulated ones, in nanoseconds.
-/

namespace Concept32

inductive CommandResponse
  /-- The command has ended, or was refused, with this status. -/
  | done (status : ChannelStatus)
  /-- The command will be carried out when the device is serviced, after this time. -/
  | accepted (delay : Nat)
  deriving DecidableEq, Repr

/-- An answer of a device, with its state afterwards and what it put out. -/
structure Reaction (δ ω α : Type) where
  answer : α
  device : δ
  output : List ω

/-- The answer of a device that does nothing else. -/
def Reaction.only {δ ω α : Type} (device : δ) (answer : α) : Reaction δ ω α := ⟨answer, device, []⟩

/-- Devices with states in `δ` that put out values of `ω`. -/
class Peripheral (δ : Type) (ω : outParam Type) where
  name : δ → String
  /-- The device has its medium. -/
  attached : δ → Bool := fun _ => true
  /-- Commands that write are refused before they reach the device. -/
  writeProtected : δ → Bool := fun _ => false
  /-- Return to the initial state, on being attached (`true`) or on a reset. -/
  reset : δ → (now : Nat) → (attaching : Bool) → Reaction δ ω Unit
  startCommand : δ → (now : Nat) → Byte → Reaction δ ω CommandResponse
  /-- Asked before a channel program is started; any status means that the device is not ready. -/
  startIo : δ → (now : Nat) → Reaction δ ω ChannelStatus := fun d _ => .only d .none
  /-- Told that its channel program is stopped. -/
  haltIo : δ → (now : Nat) → Reaction δ ω Unit := fun d _ => .only d ()
  /-- Asked for its status; it may be busy. -/
  testIo : δ → (now : Nat) → Reaction δ ω ChannelStatus := fun d _ => .only d .none
  /-- Carry out the current command, or a part of it. The value is the time after which the device wants
  service again. -/
  service : δ → (now : Nat) → Service ω (δ × Option Nat)
  /-- A single command to a device of class E. -/
  commandDevice : δ → (now : Nat) → Half → Reaction δ ω IoCondition := fun d _ _ => .only d .unsupported
  /-- A single test of a device of class E. -/
  testDevice : δ → (now : Nat) → Half → Reaction δ ω IoCondition := fun d _ _ => .only d .unsupported

end Concept32
