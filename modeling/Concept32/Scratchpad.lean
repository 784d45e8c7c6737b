import Concept32.Text.Hex
import Concept32.Word

/-!
# The scratchpad

A memory of 256 words inside the processor, by which software describes the configuration: an entry for
each of 128 logical channels, an entry for each of 112 interrupt levels, and the addresses of the trap
table, the interrupt table and the master process list. An entry of all zeros or all ones is not
configured.
-/

namespace Concept32

def levelCount : Nat := 112

/-- A scratchpad entry of a channel or of an interrupt level. -/
structure ConfigurationEntry where
  bits : Word
  deriving DecidableEq, Repr

namespace ConfigurationEntry

/-- The entry is neither all zeros nor all ones. -/
def isConfigured (e : ConfigurationEntry) : Bool := e.bits != 0 && e.bits != 0xFFFFFFFF#32

/-- Class F: devices driven by channel programs. -/
def isClassF (e : ConfigurationEntry) : Bool := e.bits &&& 0x0F000000#32 == 0x0F000000#32

/-- Class E: devices driven by single commands. -/
def isClassE (e : ConfigurationEntry) : Bool := e.bits &&& 0x0F000000#32 == 0x0E000000#32

/-- Class 3: the interval timer. -/
def isClass3 (e : ConfigurationEntry) : Bool := e.bits &&& 0x0F800000#32 == 0x03800000#32

/-- The entry of an external interrupt. -/
def isExternal (e : ConfigurationEntry) : Bool := e.bits &&& 0x0F800000#32 == 0x00800000#32

/-- The real channel behind a logical channel. -/
def realChannel (e : ConfigurationEntry) : Byte := e.bits.extractLsb' 8 8 &&& 0x7F#8

/-- The interrupt level; the entry holds its complement in seven bits. -/
def level (e : ConfigurationEntry) : Nat := 127 - (e.bits.extractLsb' 16 7).toNat

end ConfigurationEntry

structure Scratchpad where
  words : Vector Word 256
  deriving DecidableEq

namespace Scratchpad

/-! ### Slots -/

/-- The slot of the first interrupt level. -/
def levelBase : Nat := 0x80

/-- The slot of the trap table's address. -/
def trapTableSlot : Nat := 0xF0

/-- The slot of the interrupt table's address. -/
def interruptTableSlot : Nat := 0xF1

/-- The slot of the master process list's address. -/
def processListSlot : Nat := 0xF3

/-- The slot of the processor's status word. -/
def statusSlot : Nat := 0xF4

/-- Level entry: the level is active. -/
def activeBit : Word := 0x80000000#32

/-- Level entry: the level is enabled. -/
def enabledBit : Word := 0x40000000#32

def empty : Scratchpad := ⟨Vector.replicate 256 0⟩

/-- The word in a slot; slots are counted modulo 256. -/
def get (s : Scratchpad) (slot : Nat) : Word := s.words.get (Fin.ofNat 256 slot)

/-- The scratchpad with another word in a slot. -/
def set (s : Scratchpad) (slot : Nat) (w : Word) : Scratchpad :=
  ⟨s.words.set (slot % 256) w (Nat.mod_lt _ (by decide))⟩

/-! ### Entries -/

/-- The entry of a logical channel, of which there are 128. -/
def channelEntry (s : Scratchpad) (logicalChannel : Byte) : ConfigurationEntry :=
  ⟨s.get (logicalChannel &&& 0x7F#8).toNat⟩

/-- The entry of an interrupt level; there is none beyond the last. -/
def levelEntry (s : Scratchpad) (level : Nat) : ConfigurationEntry :=
  ⟨if level < levelCount then s.get (levelBase + level) else 0⟩

/-- The scratchpad with bits of a level's entry set or cleared, if the entry is configured. -/
def updateLevelEntry (s : Scratchpad) (level : Nat) (bits : Word) (on : Bool) : Scratchpad :=
  if level < levelCount && (s.levelEntry level).isConfigured then
    s.set (levelBase + level) (withBits (s.levelEntry level).bits bits on)
  else s

/-- The address of the trap table: `0x80` unless it is configured. -/
def trapTable (s : Scratchpad) : Word :=
  let w := s.get trapTableSlot
  if w = 0 || w.msb then 0x80#32 else w &&& 0x00FFFFFC#32

def interruptTable (s : Scratchpad) : Word := s.get interruptTableSlot &&& 0x00FFFFFC#32

def processList (s : Scratchpad) : Word := s.get processListSlot &&& 0x00FFFFFC#32

/-- The interrupt level that serves a device. Channel entries come first: class F by real channel, class
E and the interval timer by their own channel bits; then the level entries of external interrupts and
of the interval timer. -/
def findLevel (s : Scratchpad) (device : Half) : Option Nat :=
  let channel := (device.extractLsb' 8 8 &&& 0x7F#8)
  let serves (e : ConfigurationEntry) : Bool := e.realChannel == channel
  let ofChannel (e : ConfigurationEntry) : Bool :=
    e.isConfigured && (e.isClassF || e.isClassE || e.isClass3) && serves e
  let ofLevel (e : ConfigurationEntry) : Bool :=
    e.isConfigured && (e.isExternal || e.isClass3) && serves e
  let channels := (List.range levelBase).map fun slot => ConfigurationEntry.mk (s.get slot)
  let levels := (List.range levelCount).map s.levelEntry
  ((channels.find? ofChannel).or (levels.find? ofLevel)).map ConfigurationEntry.level

/-- The configured slots in order, each with its word. -/
def listing (s : Scratchpad) : List String :=
  ((List.range 256).filter fun slot => (ConfigurationEntry.mk (s.get slot)).isConfigured).map
    fun slot => hex 2 slot ++ ":" ++ hexBits (s.get slot)

end Scratchpad
end Concept32
