import Concept32.Cpu.Basic
import Concept32.FieldCode

/-!
# Access to memory by instructions

Instructions use logical addresses, which go through the address map. An access that is not aligned is
refused before it is translated.
-/

namespace Concept32.Exec

/-- The physical address of a logical one. A failure is noted for the status words of its trap. -/
def translate (logical : Word) (access : Access) : Exec Word := fun s =>
  let psd := s.cpu.psd
  match s.cpu.map.translate logical access psd.mapped psd.privileged s.memory.sizeBytes with
  | .ok physical => .ok physical s
  | .error fault => .error fault.trap { s with cpu := { s.cpu with faultAddress := logical } }

/-- A logical address is a multiple of `alignment`. -/
def requireAligned (logical : Word) (alignment : Nat) : Exec Unit :=
  if logical.toNat % alignment = 0 then pure () else throw .addressSpecification

def readWord (logical : Word) (access : Access) : Exec Word := do
  requireAligned logical 4
  let physical ← translate logical access
  fromMemory fun m => m.readWord physical

def readHalf (logical : Word) : Exec Half := do
  requireAligned logical 2
  let physical ← translate logical .read
  fromMemory fun m => m.readHalf physical

def readByte (logical : Word) : Exec Byte := do
  let physical ← translate logical .read
  fromMemory fun m => m.readByte physical

def readDouble (logical : Word) : Exec Double := do
  requireAligned logical 8
  let high ← readWord logical .read
  let low ← readWord (logical + 4) .read
  return joinWords high low

def writeWord (logical w : Word) : Exec Unit := do
  requireAligned logical 4
  let physical ← translate logical .write
  toMemory (Memory.writeWord physical w)

def writeHalf (logical : Word) (h : Half) : Exec Unit := do
  requireAligned logical 2
  let physical ← translate logical .write
  toMemory (Memory.writeHalf physical h)

def writeByte (logical : Word) (b : Byte) : Exec Unit := do
  let physical ← translate logical .write
  toMemory (Memory.writeByte physical b)

/-- Store a doubleword at a logical address; both words are translated before either is stored. -/
def writeDouble (logical : Word) (d : Double) : Exec Unit := do
  requireAligned logical 8
  let high ← translate logical .write
  let low ← translate (logical + 4) .write
  toMemory (Memory.writeWord high (highWord d))
  toMemory (Memory.writeWord low (lowWord d))

end Concept32.Exec
