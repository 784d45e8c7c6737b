import Concept32.Channel.Program

/-!
# What a device does while it is serviced

A device that is serviced talks to its channel through a few calls, and what it does next may depend on
the answers. All that it can do is therefore a tree of calls, and it can do nothing else to the machine.
-/

namespace Concept32

/-- What a device can see of the command in progress. -/
structure CommandView where
  address : DeviceAddress
  command : Option Byte
  /-- The bytes that are left of the current doubleword. -/
  count : Half
  deriving DecidableEq, Repr

/-- What a device does while it is serviced, until it is done with a value; `ω` is what it puts out to the
world. -/
inductive Service (ω α : Type) where
  | done (value : α)
  /-- Put something out. -/
  | output (item : ω) (rest : Service ω α)
  | inspect (next : CommandView → Service ω α)
  | readByte (next : Except TransferEnd Byte → Service ω α)
  | writeByte (b : Byte) (next : Except TransferEnd Unit → Service ω α)
  /-- Ask whether there is no more room for data that come in. -/
  | isComplete (next : Bool → Service ω α)
  | endCommand (s : ChannelStatus) (rest : Service ω α)
  /-- Present status without being asked. -/
  | attention (s : ChannelStatus) (rest : Service ω α)
  /-- Queue status that belongs to no program. -/
  | wake (s : ChannelStatus) (rest : Service ω α)

namespace Service

/-- Go on with `f` when `x` is done. -/
def andThen {ω α β : Type} (x : Service ω α) (f : α → Service ω β) : Service ω β :=
  match x with
  | .done value => f value
  | .output item rest => .output item (rest.andThen f)
  | .inspect next => .inspect fun a => (next a).andThen f
  | .readByte next => .readByte fun a => (next a).andThen f
  | .writeByte b next => .writeByte b fun a => (next a).andThen f
  | .isComplete next => .isComplete fun a => (next a).andThen f
  | .endCommand s rest => .endCommand s (rest.andThen f)
  | .attention s rest => .attention s (rest.andThen f)
  | .wake s rest => .wake s (rest.andThen f)

instance {ω : Type} : Monad (Service ω) where
  pure := .done
  bind := andThen

end Service
end Concept32
