import Concept32.Text.Hex
import Concept32.Word

/-!
# Instruction words

An instruction is a halfword or a word. It is always held as a word; a halfword instruction is the
upper half of it. The first six bits are the opcode and the next three a register. What follows
depends on the opcode and on the addressing mode: without base registers a memory reference has a
two-bit index register, an indirect bit, the F bit and a 19-bit address; with base registers it has a
three-bit index register, the F bit, a base register and a 16-bit displacement.
-/

namespace Concept32

/-- An instruction; a halfword instruction is held in the upper half. -/
structure Instruction where
  bits : Word
  deriving DecidableEq, Repr

namespace Instruction

/-- A memory reference without base registers goes through an indirect word. -/
def indirectBit : Word := 0x00100000#32

/-- The F bit, which has a part in choosing the size of the operand. -/
def fieldBit : Word := 0x00080000#32

/-- The address of a memory reference without base registers. -/
def addressField : Word := 0x0007FFFF#32

/-- The halfword instruction that does nothing. -/
def nopHalf : Half := 0x0002#16

/-- A halfword instruction. -/
def ofHalf (h : Half) : Instruction := ⟨h.setWidth 32 <<< 16⟩

def upperHalf (i : Instruction) : Half := i.bits.extractLsb' 16 16

/-- The halfword instruction in the upper half alone. -/
def upperOnly (i : Instruction) : Instruction := ofHalf i.upperHalf

def opcodeIndex (i : Instruction) : Fin 64 := (i.bits.extractLsb' 26 6).toFin

/-- The opcode as the first byte would show it with the register bits cleared. -/
def opcodeByte (i : Instruction) : Byte := i.bits.extractLsb' 24 8 &&& 0xFC#8

/-- The destination register, or the only one. -/
def register (i : Instruction) : RegisterNumber := (i.bits.extractLsb' 23 3).toFin

/-- The source register of an instruction on two registers. -/
def sourceRegister (i : Instruction) : RegisterNumber := (i.bits.extractLsb' 20 3).toFin

/-- The augment code, which selects a member of an instruction group. -/
def augment (i : Instruction) : Nat := (i.bits.extractLsb' 16 4).toNat

/-- The right half, as an immediate operand. -/
def immediate (i : Instruction) : Half := i.bits.extractLsb' 0 16

def fBit (i : Instruction) : Bool := hasAny i.bits fieldBit

/-- Without base registers: the index register, zero for none. -/
def indexRegister (i : Instruction) : Fin 4 := (i.bits.extractLsb' 21 2).toFin

/-- Without base registers: the operand's address is in the word at the address given. -/
def indirect (i : Instruction) : Bool := hasAny i.bits indirectBit

/-- Without base registers: the 19-bit address. -/
def address (i : Instruction) : Word := i.bits &&& addressField

/-- With base registers: the index register, zero for none. -/
def basedIndexRegister (i : Instruction) : RegisterNumber := (i.bits.extractLsb' 20 3).toFin

/-- With base registers: the base register, zero for none. -/
def baseRegister (i : Instruction) : RegisterNumber := (i.bits.extractLsb' 16 3).toFin

/-- With base registers: the displacement. -/
def displacement (i : Instruction) : Word := i.bits &&& 0x0000FFFF#32

/-- The bit that an instruction on one bit of a register names, counted from the most significant. -/
def registerBit (i : Instruction) : Nat :=
  (i.bits.extractLsb' 16 2).toNat * 8 + i.register.val

/-- How far a shift instruction shifts. -/
def shiftCount (i : Instruction) : Nat := (i.bits.extractLsb' 16 5).toNat

/-- A shift instruction shifts to the left. -/
def shiftsLeft (i : Instruction) : Bool := hasAny i.bits 0x00400000#32

/-- The selector in the two bits above `start`, for groups that have no augment code. -/
def selector (i : Instruction) (start : Nat) : Nat := (i.bits.extractLsb' start 2).toNat

/-- The instruction in hexadecimal, as a whole word. -/
def text (i : Instruction) : String := hexBits i.bits

end Instruction
end Concept32
