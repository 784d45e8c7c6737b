import Concept32.Channel.Instructions
import Concept32.Channel.Polling

/-!
# Operations on the channels

All that can happen to the channels and the memory that they work on, one after another and in any order.
-/

namespace Concept32

/-- The channels with memory. -/
abbrev Channels.WithMemory (δ ω : Type) : Type := Channels δ ω × Memory

/-- Something that happens to the channels. -/
inductive Operation (δ : Type) where
  /-- Memory changes in any way, and the channels do nothing. -/
  | store (f : Memory → Memory)
  | attach (now : Nat) (a : DeviceAddress) (device : δ)
  | reset (now : Nat)
  | resetChannel (channel : Byte)
  | resetController (now : Nat) (a : DeviceAddress)
  | boot (now : Nat) (a : DeviceAddress)
  | startIo (now : Nat) (a : DeviceAddress) (first : Address)
  | testIo (now : Nat) (a : DeviceAddress) (icb : Word)
  | stopIo (a : DeviceAddress)
  | haltIo (now : Nat) (a : DeviceAddress)
  | commandDevice (now : Nat) (a : DeviceAddress) (command : Half)
  | testDevice (now : Nat) (a : DeviceAddress) (command : Half)
  | postStatus (channel : Byte)
  | storeStatus (a : DeviceAddress)
  /-- A device presents status unasked, between its services. -/
  | receive (a : DeviceAddress) (s : ChannelStatus)
  | wake (a : DeviceAddress) (s : ChannelStatus)
  | poll (now : Nat)
  | scan (now : Nat)

namespace Operation
variable {δ ω : Type} [Peripheral δ ω]

def perform (s : Channels.WithMemory δ ω) : Operation δ → Channels.WithMemory δ ω
  | store f => (s.1, f s.2)
  | attach now a device => (s.1.attach now a device, s.2)
  | reset now => (s.1.reset now, s.2)
  | resetChannel channel => ((s.1.resetChannel channel).2, s.2)
  | resetController now a => ((s.1.resetController now a).2, s.2)
  | boot now a => ((s.1.boot now s.2 a).2, s.2)
  | startIo now a first => (s.1.startIo now s.2 a first).2
  | testIo now a icb => (s.1.testIo now s.2 a icb).2
  | stopIo a => ((s.1.stopIo a).2, s.2)
  | haltIo now a => ((s.1.haltIo now a).2, s.2)
  | commandDevice now a command => ((s.1.commandDevice now a command).2, s.2)
  | testDevice now a command => ((s.1.testDevice now a command).2, s.2)
  | postStatus channel => (s.1.postStatus s.2 channel).2
  | storeStatus a => (s.1.storeStatus a, s.2)
  | receive a status => (s.1.receive a status, s.2)
  | wake a status => (s.1.wake a status, s.2)
  | poll now => s.1.poll now s.2
  | scan now => ((s.1.scan now s.2).2, s.2)

/-- Operations one after another. -/
def performAll (s : Channels.WithMemory δ ω) (ops : List (Operation δ)) : Channels.WithMemory δ ω :=
  ops.foldl perform s

end Operation
end Concept32
