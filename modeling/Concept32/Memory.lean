import Concept32.Model
import Concept32.Text.Hex
import Concept32.Word

/-!
# Main memory

Memory is addressed by bytes and holds words, the byte at the lowest address being the most significant
one. A halfword lies at an even address, a word at a multiple of four and a doubleword at a multiple of
eight. An access that is not aligned or goes beyond the end changes nothing.
-/

namespace Concept32

inductive MemoryError
  | nonPresent (address : Word)
  | misaligned (address : Word)
  deriving DecidableEq, Repr

def MemoryError.message : MemoryError → String
  | .nonPresent a => "address " ++ hex 6 a.toNat ++ " is beyond the end of memory"
  | .misaligned a => "address " ++ hex 6 a.toNat ++ " is not correctly aligned"

/-- Main memory: at most 16 MB of words. -/
structure Memory where
  words : Array Word
  size_le : words.size ≤ 0x400000

namespace Memory

/-! ### Words and their parts -/

/-- The byte of a word at an offset, counted from the most significant. -/
def byteOf (w : Word) (offset : Nat) : Byte := w.extractLsb' (8 * (3 - offset)) 8

/-- The word with the byte at an offset replaced. -/
def withByte (w : Word) (offset : Nat) (b : Byte) : Word :=
  let place := 8 * (3 - offset)
  replaceBits w (0xFF#32 <<< place) (b.setWidth 32 <<< place)

/-- The halfword of a word at an offset of zero or two. -/
def halfOf (w : Word) (offset : Nat) : Half := w.extractLsb' (8 * (2 - offset)) 16

/-- The word with the halfword at an offset of zero or two replaced. -/
def withHalf (w : Word) (offset : Nat) (h : Half) : Word :=
  let place := 8 * (2 - offset)
  replaceBits w (0xFFFF#32 <<< place) (h.setWidth 32 <<< place)

/-! ### Size and contents -/

/-- Memory of a size, holding zeros. -/
def ofSize (s : MemorySize) : Memory := ⟨Array.replicate s.words 0, by simpa using s.words_le⟩

def sizeBytes (m : Memory) : Nat := 4 * m.words.size

def contains (m : Memory) (a : Word) : Bool := a.toNat < m.sizeBytes

/-- Memory of the same size, holding zeros. -/
def clear (m : Memory) : Memory := ⟨Array.replicate m.words.size 0, by simpa using m.size_le⟩

/-- The byte at a byte address; zero beyond the end. -/
def byteAt (m : Memory) (n : Nat) : Byte := byteOf (m.words.getD (n / 4) 0) (n % 4)

/-- Memory with one word changed; a place beyond the end is passed over. -/
def update (m : Memory) (index : Nat) (f : Word → Word) : Memory where
  words := m.words.modify index f
  size_le := by simpa using m.size_le

@[simp] theorem sizeBytes_update (m : Memory) (index : Nat) (f : Word → Word) :
    (m.update index f).sizeBytes = m.sizeBytes := by
  simp [sizeBytes, update]

/-! ### Access -/

/-- The index of the word that holds an address that is a multiple of `alignment`. -/
def index (m : Memory) (a : Word) (alignment : Nat) : Except MemoryError Nat :=
  if a.toNat % alignment ≠ 0 then .error (.misaligned a)
  else if a.toNat / 4 < m.words.size then .ok (a.toNat / 4)
  else .error (.nonPresent a)

def readWord (m : Memory) (a : Word) : Except MemoryError Word :=
  (m.index a 4).map fun i => m.words.getD i 0

def readHalf (m : Memory) (a : Word) : Except MemoryError Half :=
  (m.index a 2).map fun i => halfOf (m.words.getD i 0) (a.toNat % 4)

def readByte (m : Memory) (a : Word) : Except MemoryError Byte :=
  (m.index a 1).map fun i => byteOf (m.words.getD i 0) (a.toNat % 4)

def readDouble (m : Memory) (a : Word) : Except MemoryError Double := do
  let _ ← m.index a 8
  let high ← m.readWord a
  let low ← m.readWord (a + 4)
  return joinWords high low

/-- Something done to memory, which may be refused. -/
abbrev Action (α : Type) := EStateM MemoryError Memory α

/-- Change the word that holds an address, of which the alignment is checked. -/
def change (a : Word) (alignment : Nat) (f : Word → Word) : Action Unit := fun m =>
  match m.index a alignment with
  | .ok i => .ok () (m.update i f)
  | .error e => .error e m

def writeWord (a w : Word) : Action Unit := change a 4 fun _ => w

def writeHalf (a : Word) (h : Half) : Action Unit := change a 2 fun w => withHalf w (a.toNat % 4) h

def writeByte (a : Word) (b : Byte) : Action Unit := change a 1 fun w => withByte w (a.toNat % 4) b

/-- Store two words one after the other, the second only if the first could be stored. -/
def writePair (a first second : Word) : Action Unit := do
  writeWord a first
  writeWord (a + 4) second

/-- Store a doubleword; both words are known to be there before either is changed. -/
def writeDouble (a : Word) (d : Double) : Action Unit := fun m =>
  if a.toNat % 8 ≠ 0 then .error (.misaligned a) m
  else match m.index (a + 4) 1 with
    | .ok _ => writePair a (highWord d) (lowWord d) m
    | .error e => .error e m

/-- Memory after something was done to it that may have been refused. -/
def after {α : Type} (x : Action α) (m : Memory) : Memory :=
  match x m with
  | .ok _ m => m
  | .error _ m => m

/-- Store bytes one after the other, from an address on. -/
def writeBytes (a : Word) : List Byte → Action Unit
  | [] => pure ()
  | b :: rest => do
    writeByte a b
    writeBytes (a + 1) rest

/-- Copy an image to an address; an image that would go beyond the end is refused as a whole. -/
def loadImage (a : Word) (image : List Byte) : Action Unit := fun m =>
  if image.isEmpty then .ok () m
  else
    let last := a.toNat + image.length - 1
    if 0x100000000 ≤ image.length ∨ 0x100000000 ≤ last then .error (.nonPresent a) m
    else match m.index (BitVec.ofNat 32 last) 1 with
      | .ok _ => writeBytes a image m
      | .error e => .error e m

end Memory
end Concept32
