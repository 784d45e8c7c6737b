import Concept32.ConditionCodes
import Concept32.Text.Hex

/-!
# Channel status, command flags and outcomes

The status of a channel program has the device's status in its low byte and the channel's own in its
high byte. Each command of a program has flags that say how it is chained. The outcome of an instruction
for a device is told to the program in the condition codes.
-/

namespace Concept32

/-! ### Status -/

/-- The status of a channel program. -/
structure ChannelStatus where
  bits : Half
  deriving DecidableEq, Repr

namespace ChannelStatus

def none : ChannelStatus := ⟨0x0000#16⟩

/-- The program was stopped. -/
def echo : ChannelStatus := ⟨0x8000#16⟩

/-- The program asked for an interrupt. -/
def programInterrupt : ChannelStatus := ⟨0x4000#16⟩

/-- The device moved another number of bytes than the program has. -/
def length : ChannelStatus := ⟨0x2000#16⟩

/-- The program is wrong. -/
def programCheck : ChannelStatus := ⟨0x1000#16⟩

/-- The device asks for attention. -/
def attention : ChannelStatus := ⟨0x0080#16⟩

/-- The device asks for the next command to be passed over. -/
def modifier : ChannelStatus := ⟨0x0040#16⟩

/-- The device is busy. -/
def busy : ChannelStatus := ⟨0x0010#16⟩

def channelEnd : ChannelStatus := ⟨0x0008#16⟩

def deviceEnd : ChannelStatus := ⟨0x0004#16⟩

/-- The device found something wrong. -/
def unitCheck : ChannelStatus := ⟨0x0002#16⟩

/-- The device met something exceptional, such as the end of its medium. -/
def unitException : ChannelStatus := ⟨0x0001#16⟩

/-- The bits that stop a channel program. -/
def errors : ChannelStatus := ⟨0x3F03#16⟩

def isEmpty (s : ChannelStatus) : Bool := s.bits == 0

def intersects (s other : ChannelStatus) : Bool := hasAny s.bits other.bits

def contains (s other : ChannelStatus) : Bool := s.bits &&& other.bits == other.bits

def union (s other : ChannelStatus) : ChannelStatus := ⟨s.bits ||| other.bits⟩

def without (s other : ChannelStatus) : ChannelStatus := ⟨s.bits &&& ~~~other.bits⟩

def hasError (s : ChannelStatus) : Bool := s.intersects errors

/-- The status with which a device ends the command and the whole chain: attention, unit check or unit
exception. -/
def endsChain (s : ChannelStatus) : Bool :=
  s.intersects (attention.union (unitCheck.union unitException))

def names : List String :=
  ["ECHO", "PCI", "LENGTH", "PCHK", "CDATA", "CCNTL", "INTF", "CHAIN", "ATTN", "SMOD", "CTLEND", "BUSY",
    "CEND", "DEND", "CHECK", "EXPT"]

def text (s : ChannelStatus) : String :=
  if s.isEmpty then "none"
  else "|".intercalate ((names.zipIdx.filter fun n => s.bits.getMsbD n.2).map Prod.fst)

end ChannelStatus

/-! ### Commands -/

/-- How a command of a channel program is chained to the next. -/
structure CommandFlags where
  bits : Half
  deriving DecidableEq, Repr

namespace CommandFlags

def none : CommandFlags := ⟨0x0000#16⟩

/-- The next doubleword continues the data of this command. -/
def dataChain : CommandFlags := ⟨0x8000#16⟩

/-- The next doubleword holds another command. -/
def commandChain : CommandFlags := ⟨0x4000#16⟩

/-- A wrong number of bytes is no error. -/
def suppressLength : CommandFlags := ⟨0x2000#16⟩

/-- Data that come in are thrown away. -/
def skip : CommandFlags := ⟨0x1000#16⟩

/-- The program asks for an interrupt when this command is fetched. -/
def programInterrupt : CommandFlags := ⟨0x0800#16⟩

def contains (f other : CommandFlags) : Bool := f.bits &&& other.bits == other.bits

def without (f other : CommandFlags) : CommandFlags := ⟨f.bits &&& ~~~other.bits⟩

def unchained (f : CommandFlags) : CommandFlags := (f.without dataChain).without commandChain

/-- Another doubleword follows. -/
def chaining (f : CommandFlags) : Bool := f.contains dataChain || f.contains commandChain

end CommandFlags

namespace ChannelCommand

/-- Set the address of the status doubleword. -/
def setStatusAddress : Byte := 0x00#8

/-- Read with descending addresses. -/
def readBackward : Byte := 0x0C#8

/-- The channel goes on at another address; only the low four bits tell. -/
def isTransfer (c : Byte) : Bool := c &&& 0x0F#8 == 0x08#8

/-- The command moves data from memory to the device. -/
def isWrite (c : Byte) : Bool := c &&& 0x03#8 == 0x01#8

end ChannelCommand

/-! ### Outcomes -/

/-- The outcome of an instruction for a device. -/
inductive IoCondition
  /-- Accepted; status will follow. -/
  | accepted
  /-- Accepted; no status follows from it, or it is queued already. -/
  | acceptedNoEcho
  | channelBusy
  /-- There is no such channel or device, or its medium is missing. -/
  | inoperative
  | subchannelBusy
  /-- Status was stored in the status doubleword. -/
  | statusStored
  | unsupported
  deriving DecidableEq, Repr

namespace IoCondition

def codes : IoCondition → ConditionCodes
  | .accepted => ⟨0b0000#4⟩
  | .acceptedNoEcho => ⟨0b1000#4⟩
  | .statusStored => ⟨0b0100#4⟩
  | .inoperative => ⟨0b0010#4⟩
  | .channelBusy => ⟨0b0001#4⟩
  | .subchannelBusy => ⟨0b0011#4⟩
  | .unsupported => ⟨0b0101#4⟩

def text : IoCondition → String
  | .accepted => "accepted"
  | .acceptedNoEcho => "accepted, no status echo"
  | .channelBusy => "channel busy"
  | .inoperative => "channel inoperative"
  | .subchannelBusy => "subchannel busy"
  | .statusStored => "status stored"
  | .unsupported => "unsupported transaction"

end IoCondition
end Concept32
