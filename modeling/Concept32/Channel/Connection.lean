import Concept32.Channel.RealChannel
import Concept32.Channel.Transfer
import Concept32.Device.Service

/-!
# Connections to a channel

A connection is what a device has of its channel while it is serviced: its channel program with memory, the
queue of status of the real channel, and the signal that the channel has something to look at.
-/

namespace Concept32

/-- The view that a device has of its channel. -/
structure Connection where
  address : DeviceAddress
  transfer : Transfer
  channel : RealChannel
  /-- A channel may have a command to continue or status to present. -/
  raised : Bool

namespace Connection

/-- What a device may ask about the command in progress. -/
def view (c : Connection) : CommandView where
  address := c.address
  command := c.transfer.program.command
  count := c.transfer.program.count

/-- A step of the transfer; one that fails raises the signal. -/
def transferStep {α : Type} (x : Transfer.Step TransferEnd α) :
    Connection → Except TransferEnd α × Connection
  | ⟨address, transfer, channel, raised⟩ =>
    match x transfer with
    | .ok a transfer => (.ok a, ⟨address, transfer, channel, raised⟩)
    | .error e transfer => (.error e, ⟨address, transfer, channel, true⟩)

def readByte : Connection → Except TransferEnd Byte × Connection := transferStep Transfer.readByte

def writeByte (b : Byte) : Connection → Except TransferEnd Unit × Connection :=
  transferStep (Transfer.writeByte b)

def isComplete : Connection → Bool × Connection
  | ⟨address, transfer, channel, raised⟩ =>
    match Transfer.isComplete transfer with
    | .ok complete transfer => (complete, ⟨address, transfer, channel, raised⟩)

def endCommand (s : ChannelStatus) : Connection → Connection
  | ⟨address, transfer, channel, _⟩ =>
    match Transfer.endCommand s transfer with
    | .ok _ transfer => ⟨address, transfer, channel, true⟩

def attention (s : ChannelStatus) : Connection → Connection
  | ⟨address, ⟨program, memory⟩, channel, _⟩ =>
    ⟨address, ⟨program.receive address s, memory⟩, channel, true⟩

def wake (s : ChannelStatus) : Connection → Connection
  | ⟨address, transfer, channel, _⟩ =>
    ⟨address, transfer, channel.push (.of address 0 s 0), true⟩

/-- Carry out what a device does while it is serviced; what it puts out comes after what was there. -/
def run {ω α : Type} : Service ω α → Connection → Array ω → α × Connection × Array ω
  | .done value, connection, output => (value, connection, output)
  | .output item rest, connection, output => run rest connection (output.push item)
  | .inspect next, connection, output => run (next connection.view) connection output
  | .readByte next, connection, output =>
    match connection.readByte with
    | (answer, connection) => run (next answer) connection output
  | .writeByte b next, connection, output =>
    match connection.writeByte b with
    | (answer, connection) => run (next answer) connection output
  | .isComplete next, connection, output =>
    match connection.isComplete with
    | (answer, connection) => run (next answer) connection output
  | .endCommand s rest, connection, output => run rest (connection.endCommand s) output
  | .attention s rest, connection, output => run rest (connection.attention s) output
  | .wake s rest, connection, output => run rest (connection.wake s) output

end Connection
end Concept32
