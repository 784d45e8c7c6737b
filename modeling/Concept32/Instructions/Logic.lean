import Concept32.Instructions.Arithmetic

/-!
# Logic and bits

Logical operations on words and doublewords, instructions on one bit of a register or of memory, and
normalisation.
-/

namespace Concept32

/-- A logical operation, at any width. -/
abbrev LogicalOperation := {n : Nat} → BitVec n → BitVec n → BitVec n

def bitAnd {n : Nat} (a b : BitVec n) : BitVec n := a &&& b

def bitOr {n : Nat} (a b : BitVec n) : BitVec n := a ||| b

/-- The bits that are set in one alone. -/
def bitExclusiveOr {n : Nat} (a b : BitVec n) : BitVec n := a ^^^ b

/-- What is done with a bit. -/
inductive BitOperation
  | set
  | clear
  /-- Add one at the place of the bit. -/
  | add
  | test
  deriving DecidableEq, Repr

/-- The operation that a two-bit selector means. -/
def BitOperation.ofSelector : Nat → BitOperation
  | 0 => .set
  | 1 => .clear
  | 2 => .add
  | _ => .test

/-- A bit vector moved up in steps of four bits, at most `steps` of them, until its first five bits are not
all equal; with the number of steps. -/
def normalise {n : Nat} : (steps : Nat) → BitVec n → BitVec n × Nat
  | 0, value => (value, 0)
  | steps + 1, value =>
    let top : BitVec 5 := value.extractLsb' (n - 5) 5
    if top = 0 || top = BitVec.allOnes 5 then
      let (value, count) := normalise steps (value <<< 4)
      (value, count + 1)
    else (value, 0)

/-- A bit vector normalised, with the number of steps; one that has all bits equal is left alone. -/
def normalised {n : Nat} (value : BitVec n) : BitVec n × Nat :=
  if value = 0 || value = BitVec.allOnes n then (value, 0) else normalise (n / 4) value

namespace Exec

/-- Combine two registers into the first, masked in the masked form; no other forms are defined. -/
def logicalRegisters (o : Operand) (f : LogicalOperation) : Exec Flow :=
  if o.augment = 0 ∨ o.augment = 8 then combineRegisters o fun a b => (f a b, false)
  else throw .undefinedInstruction

/-- Combine a register or a pair with a memory operand. -/
def logicalMemory (o : Operand) (f : LogicalOperation) : Exec Flow := do
  let r := o.register
  if o.field = .double then
    let a ← pair r
    putPairResult r (f a (← readOperandDouble o)) false
    return .next
  else
    let operand ← readOperand o
    combineWord r operand fun a b => (f a b, false)

/-! ### One bit -/

/-- The bit of a word at a place counted from the most significant. -/
def bitMask (place : Nat) : Word := 0x80000000#32 >>> place

/-- A word after an operation on a bit, and whether it overflowed. -/
def operateBit (operation : BitOperation) (mask w : Word) : Word × Bool :=
  match operation with
  | .set => (w ||| mask, false)
  | .clear => (w &&& ~~~mask, false)
  | .add => signedSum w mask
  | .test => (w, false)

/-- The condition codes after an operation on a bit: of the sum if the bit was added, and otherwise with
the bit as it was in CC1. -/
def putBitCodes (operation : BitOperation) (mask before after : Word) (overflowed : Bool) :
    Exec Unit := do
  if operation = .add then setCodes (.ofResult after overflowed)
  else setCodes ((← codes).afterBit (hasAny before mask))

/-- Operate on one bit of a register. -/
def bitInRegister (o : Operand) (operation : BitOperation) : Exec Flow := do
  let r := o.source
  let mask := bitMask o.instruction.registerBit
  let before ← gpr r
  let (after, overflowed) := operateBit operation mask before
  checkOverflow overflowed
  setGpr r after
  putBitCodes operation mask before after overflowed
  return .next

/-- Operate on one bit of memory. A word that stays as it is is not stored, except after an addition. -/
def bitInMemory (o : Operand) (operation : BitOperation) : Exec Flow := do
  if o.fBit then throw .addressSpecification
  let place := wordBoundary o.address
  let mask := bitMask ((o.address.extractLsb' 0 2).toNat * 8 + o.register.val)
  let before ← readWord place .read
  let (after, overflowed) := operateBit operation mask before
  checkOverflow overflowed
  if operation = .add || after ≠ before then writeWord place after
  putBitCodes operation mask before after overflowed
  return .next

/-! ### Normalisation -/

/-- Normalise a register; the number of steps goes into another. -/
def normaliseRegister (o : Operand) : Exec Flow := do
  let (value, count) := normalised (← gpr o.register)
  setGpr o.register value
  setGpr o.source (BitVec.ofNat 32 count)
  setCodes (.ofResult value false)
  return .next

/-- Normalise a register pair; the number of steps goes into another register. -/
def normalisePair (o : Operand) : Exec Flow := do
  let (value, count) := normalised (← pair o.register)
  setPair o.register value
  setGpr o.source (BitVec.ofNat 32 count)
  setCodes (.ofResult value false)
  return .next

/-- Move a register up until its first bit is set; the number of places goes into another. -/
def shiftCountZeros (o : Operand) : Exec Flow := do
  let value ← gpr o.register
  if value = 0 then
    setGpr o.source 0
    setCodes .zero
  else
    let count := 31 - Nat.log2 value.toNat
    setGpr o.register (value <<< count)
    setGpr o.source (BitVec.ofNat 32 count)
    setCodes .none
  return .next

end Exec
end Concept32
