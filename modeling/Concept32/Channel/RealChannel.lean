import Concept32.Device.Address
import Concept32.Channel.Status
import Concept32.Memory

/-!
# Real channels

The devices of a real channel share a queue of status doublewords that wait to be presented, and the
address of the doubleword in memory at which one is presented. A status doubleword has the subaddress and
the address of the program's next doubleword in its first word, and the status and the bytes that are left
in its second.
-/

namespace Concept32

structure StatusDoubleword where
  word1 : Word
  word2 : Word
  deriving DecidableEq, Repr

def StatusDoubleword.of (device : DeviceAddress) (next : Address) (status : ChannelStatus)
    (count : Half) : StatusDoubleword where
  word1 := (device.subaddress.setWidth 32 <<< 24) ||| next.setWidth 32
  word2 := (status.bits.setWidth 32 <<< 16) ||| count.setWidth 32

structure RealChannel where
  /-- Where status is presented; zero until a program sets it. -/
  statusAddress : Address
  /-- The status doublewords that wait, the oldest first. -/
  queue : List StatusDoubleword
  deriving DecidableEq, Repr

namespace RealChannel

def idle : RealChannel := ⟨0, []⟩

def queueLimit : Nat := 128

/-- Set in the word that tells where status was presented. -/
def postedBit : Word := 0x40000000#32

def hasStatus (c : RealChannel) : Bool := !c.queue.isEmpty

/-- The channel with one more status doubleword waiting; it is lost if the queue is full. -/
def push (c : RealChannel) (s : StatusDoubleword) : RealChannel :=
  if c.queue.length < queueLimit then { c with queue := c.queue ++ [s] } else c

/-- Present the oldest status: it leaves the queue and is stored in memory, as far as memory can be
stored into. The answer tells where, for the level's context block. -/
def post (c : RealChannel) (mem : Memory) : Option Word × RealChannel × Memory :=
  match c.queue with
  | [] => (none, c, mem)
  | s :: rest =>
    let a : Word := c.statusAddress.setWidth 32
    (some (a ||| postedBit), { c with queue := rest },
      Memory.after (Memory.writePair a s.word1 s.word2) mem)

end RealChannel
end Concept32
