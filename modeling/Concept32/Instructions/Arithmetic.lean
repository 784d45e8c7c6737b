import Concept32.Cpu.Operand

/-!
# Integer arithmetic

Addition, subtraction, multiplication, division, negation, rounding and comparison of signed numbers. A
result that does not fit is cut to the width and sets CC1; with arithmetic exceptions enabled it raises a
trap instead, and nothing changes.
-/

namespace Concept32

/-- The sum, and whether it overflowed. -/
def signedSum {n : Nat} (a b : BitVec n) : BitVec n × Bool := (a + b, a.saddOverflow b)

/-- The difference, and whether it overflowed. -/
def signedDifference {n : Nat} (a b : BitVec n) : BitVec n × Bool := (a - b, a.ssubOverflow b)

/-- The negative, and whether it overflowed. -/
def signedNegative {n : Nat} (a : BitVec n) : BitVec n × Bool := (-a, a.negOverflow)

/-- The quotient and the remainder of a doubleword by a word, cut toward zero; there are none if the
divisor is zero or the quotient does not fit a word. -/
def signedQuotient? (dividend : Double) (divisor : Word) : Option (Word × Word) :=
  let quotient := dividend.toInt.tdiv divisor.toInt
  if divisor = 0 || quotient < -0x80000000 || 0x80000000 ≤ quotient then none
  else some (.ofInt 32 quotient, .ofInt 32 (dividend.toInt.tmod divisor.toInt))

namespace Exec

/-- A result, masked by register 4 in the forms that are masked. -/
def masked (o : Operand) (value : Word) : Exec Word := do
  if o.isMasked then return value &&& (← gpr maskRegister) else return value

/-- Combine a register and another into the first, masked in the masked forms. -/
def combineRegisters (o : Operand) (f : Word → Word → Word × Bool) : Exec Flow := do
  let (value, overflowed) := f (← gpr o.register) (← gpr o.source)
  putResult o.register (← masked o value) overflowed
  return .next

/-- Combine a register and a word into the register. -/
def combineWord (r : RegisterNumber) (operand : Word) (f : Word → Word → Word × Bool) : Exec Flow := do
  let (value, overflowed) := f (← gpr r) operand
  putResult r value overflowed
  return .next

/-- Add or subtract a memory operand. -/
def combineMemory (o : Operand) (f : {n : Nat} → BitVec n → BitVec n → BitVec n × Bool) : Exec Flow := do
  let r := o.register
  if o.field = .double then
    let a ← pair r
    let (value, overflowed) := f a (← readOperandDouble o)
    putPairResult r value overflowed
    return .next
  else
    combineWord r (← readOperand o) f

/-- Multiply the second register of a pair into the pair. -/
def multiply (r : RegisterNumber) (multiplier : Word) : Exec Flow := do
  requireEven r
  let product : Double := (← gpr (nextRegister r)).signExtend 64 * multiplier.signExtend 64
  putPairResult r product false
  return .next

/-- Divide a pair: the remainder goes into the first register and the quotient into the second. A division
without a quotient changes no register and sets CC1 alone. -/
def divide (r : RegisterNumber) (divisor : Word) : Exec Flow := do
  match signedQuotient? (← pair r) divisor with
  | some (quotient, remainder) =>
    setGpr r remainder
    setGpr (nextRegister r) quotient
    setCodes (.ofResult quotient false)
  | none =>
    checkOverflow true
    setCodes .overflow
  return .next

/-- Put the negative of a register into another, masked in the masked form. -/
def negateRegister (o : Operand) : Exec Flow := do
  let (value, overflowed) := signedNegative (← gpr o.source)
  putResult o.register (← masked o value) overflowed
  return .next

/-- Load the negative of a memory operand. -/
def loadNegative (o : Operand) : Exec Flow := do
  let r := o.register
  if o.field = .double then
    requireEven r
    let (value, overflowed) := signedNegative (← readOperandDouble o)
    putPairResult r value overflowed
  else
    let (value, overflowed) := signedNegative (← readOperand o)
    putResult r value overflowed
  return .next

/-- Round a pair to its first register. -/
def round (r : RegisterNumber) : Exec Flow := do
  requireEven r
  let high ← gpr r
  let low ← gpr (nextRegister r)
  let (value, overflowed) := if low.msb then signedSum high 1 else (high, false)
  putResult r value overflowed
  return .next

/-- Fill the next register with the sign of a register. -/
def extendSign (r : RegisterNumber) : Exec Flow := do
  let value ← gpr r
  setGpr (nextRegister r) (if value.msb then BitVec.allOnes 32 else 0)
  setCodes (.ofResult value false)
  return .next

/-- Add a register to a memory operand, at the width of the operand; bytes are unsigned. -/
def addToMemory (o : Operand) : Exec Flow := do
  let r := o.register
  match o.field with
  | .double =>
    let a ← readOperandDouble o
    let (value, overflowed) := signedSum a (← pair r)
    checkOverflow overflowed
    writeOperandDouble o value
    setCodes (.ofResult value overflowed)
  | .byte _ =>
    let a : Byte := (← readOperand o).setWidth 8
    let b : Byte := (← gpr r).setWidth 8
    let carry := a.uaddOverflow b
    let value : Word := (a + b).setWidth 32
    checkOverflow carry
    writeOperand o value
    setCodes (.ofResult value carry)
  | .leftHalf | .rightHalf =>
    let a : Half := (← readOperand o).setWidth 16
    let (value, overflowed) := signedSum a ((← gpr r).setWidth 16)
    checkOverflow overflowed
    writeOperand o (value.setWidth 32)
    setCodes (.ofResult value overflowed)
  | .word =>
    let a ← readOperand o
    let (value, overflowed) := signedSum a (← gpr r)
    checkOverflow overflowed
    writeOperand o value
    setCodes (.ofResult value overflowed)
  return .next

/-! ### Comparison -/

def compareRegisters (o : Operand) : Exec Flow := do
  setCodes (.ofComparison (← gpr o.register) (← gpr o.source))
  return .next

def compareWord (r : RegisterNumber) (operand : Word) : Exec Flow := do
  setCodes (.ofComparison (← gpr r) operand)
  return .next

/-- Compare a register or a pair with a memory operand. -/
def compareMemory (o : Operand) : Exec Flow := do
  if o.field = .double then
    let operand ← readOperandDouble o
    setCodes (.ofComparison (← pair o.register) operand)
    return .next
  else
    compareWord o.register (← readOperand o)

/-- CC4 tells whether a register equals a word in the bits that register 4 selects. -/
def compareMasked (r : RegisterNumber) (operand : Word) : Exec Flow := do
  let differing := ((← gpr r) ^^^ operand) &&& (← gpr maskRegister)
  setCodes (if differing = 0 then .zero else .none)
  return .next

end Exec
end Concept32
