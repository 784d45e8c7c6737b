import Concept32.Text.Hex
import Concept32.Word

/-!
# Device addresses

A device is found by the number of its real channel and a subaddress on that channel. Together they have
15 bits.
-/

namespace Concept32

/-- The address of a device: seven bits of channel and eight bits of subaddress. -/
structure DeviceAddress where
  bits : BitVec 15
  deriving DecidableEq, Repr

namespace DeviceAddress

/-- The address in the low 15 bits of a halfword. -/
def ofBits (h : Half) : DeviceAddress := ⟨h.setWidth 15⟩

/-- The address of a channel and a subaddress; the channel is taken modulo 128. -/
def ofParts (channel subaddress : Byte) : DeviceAddress :=
  ⟨(channel.setWidth 15 <<< 8) ||| subaddress.setWidth 15⟩

def channel (a : DeviceAddress) : Byte := (a.bits >>> 8).setWidth 8

def subaddress (a : DeviceAddress) : Byte := a.bits.setWidth 8

def text (a : DeviceAddress) : String := hexBits a.bits

end DeviceAddress
end Concept32
