/-!
# Machine words

The sizes of data that the machine handles, and the few operations on them that every other module
needs: masks, halves of a doubleword and sign extension. Words are bit vectors, so every operation
wraps as the hardware's does; bit 0 of the machine's own numbering is the most significant bit.
-/

namespace Concept32

/-- A byte: eight bits. -/
abbrev Byte := BitVec 8

/-- A halfword: two bytes. -/
abbrev Half := BitVec 16

/-- A word: four bytes. -/
abbrev Word := BitVec 32

/-- A doubleword: eight bytes. -/
abbrev Double := BitVec 64

/-- An address as the channels hold it: 24 bits, so that stepping past the end wraps to zero. -/
abbrev Address := BitVec 24

/-- The number of a general or base register. -/
abbrev RegisterNumber := Fin 8

/-- Some bit of `mask` is set in `w`. -/
def hasAny {n : Nat} (w mask : BitVec n) : Bool := w &&& mask != 0#n

/-- `w` with the bits of `mask` all set or all cleared. -/
def withBits {n : Nat} (w mask : BitVec n) (set : Bool) : BitVec n :=
  if set then w ||| mask else w &&& ~~~mask

/-- `w` with the bits of `mask` taken from `value`. -/
def replaceBits {n : Nat} (w mask value : BitVec n) : BitVec n := (w &&& ~~~mask) ||| (value &&& mask)

/-- The doubleword with the given halves. -/
def joinWords (high low : Word) : Double := (high.setWidth 64 <<< 32) ||| low.setWidth 64

/-- The more significant half of a doubleword. -/
def highWord (d : Double) : Word := d.extractLsb' 32 32

/-- The less significant half of a doubleword. -/
def lowWord (d : Double) : Word := d.extractLsb' 0 32

/-- A halfword read as a signed number, in a word. -/
def signExtendHalf (h : Half) : Word := h.signExtend 32

/-- The multiple of four at or below `a`. -/
def wordBoundary (a : Word) : Word := a &&& 0xFFFFFFFC#32

@[simp] theorem highWord_joinWords (high low : Word) : highWord (joinWords high low) = high := by
  ext i hi
  simp [highWord, joinWords, show 32 + i < 64 by omega, BitVec.getLsbD_eq_getElem, hi]

@[simp] theorem lowWord_joinWords (high low : Word) : lowWord (joinWords high low) = low := by
  ext i hi
  simp [lowWord, joinWords, show i < 64 by omega, BitVec.getLsbD_eq_getElem, hi]

@[simp] theorem joinWords_highWord_lowWord (d : Double) : joinWords (highWord d) (lowWord d) = d := by
  ext i hi
  by_cases h : i < 32
  · simp [highWord, lowWord, joinWords, h, hi, BitVec.getLsbD_eq_getElem]
  · simp [highWord, lowWord, joinWords, h, hi, show i - 32 < 32 by omega,
      show 32 + (i - 32) = i by omega, BitVec.getLsbD_eq_getElem]

end Concept32
