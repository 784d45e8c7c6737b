import Concept32.Cpu.Operand
import Concept32.Float.Hexadecimal

/-!
# Floating-point instructions

Operands are read as binary numbers, the operation is carried out on those, and the result is written in
hexadecimal form. A result that is too large becomes the largest number of its sign, and one that is too
small becomes zero; both set CC1, or raise a trap if arithmetic exceptions are enabled.
-/

namespace Concept32

/-- An operation on two numbers. -/
inductive FloatOperation
  | add
  | subtract
  | multiply
  | divide
  deriving DecidableEq, Repr

def FloatOperation.apply (f : FloatOperation) (x y : Binary64) : Binary64 :=
  match f with
  | .add => x.add y
  | .subtract => x.sub y
  | .multiply => x.mul y
  | .divide => x.div y

/-- The form that is stored for a number, and whether it had to be put in place of one without a form. -/
def storedForm {n : Nat} : Except FloatException (BitVec n) → BitVec n × Bool
  | .ok form => (form, false)
  | .error (.overflow false) => (BitVec.intMax n, true)
  | .error (.overflow true) => (-BitVec.intMax n, true)
  | .error (.underflow _) => (0, true)

/-- The whole part of a number as a signed integer, and whether it had to be put in place of one that does
not fit. -/
def fixedForm (n : Nat) (x : Binary64) : BitVec n × Bool :=
  let limit := if x.isNegative then BitVec.intMin n else BitVec.intMax n
  let bound : Int := (1 <<< (n - 1) : Nat)
  match x.truncate? with
  | some i => if -bound ≤ i ∧ i < bound then (.ofInt n i, false) else (limit, true)
  | none => (limit, true)

namespace Exec

/-- Operate on a register and a word. -/
def floatWord (f : FloatOperation) (r : RegisterNumber) (operand : Word) : Exec Flow := do
  let x := f.apply (Hexadecimal.ofWord (← gpr r)) (Hexadecimal.ofWord operand)
  let (form, fixedUp) := storedForm (Hexadecimal.toWord x)
  putResult r form fixedUp
  return .next

/-- Operate on a register pair and a doubleword. -/
def floatDouble (f : FloatOperation) (r : RegisterNumber) (operand : Double) : Exec Flow := do
  let x := f.apply (Hexadecimal.ofDouble (← pair r)) (Hexadecimal.ofDouble operand)
  let (form, fixedUp) := storedForm (Hexadecimal.toDouble x)
  putPairResult r form fixedUp
  return .next

/-- Operate on two registers, or on two pairs in the forms that are masked elsewhere. -/
def floatRegisters (o : Operand) (f : FloatOperation) : Exec Flow := do
  if o.isMasked then floatDouble f o.register (← pair o.source)
  else floatWord f o.register (← gpr o.source)

/-- Operate on a register or a pair and memory; the low bits of the address tell which. -/
def floatMemory (o : Operand) (f : FloatOperation) : Exec Flow := do
  match (o.address.extractLsb' 0 2).toNat with
  | 0 => floatWord f o.register (← readWord o.address .read)
  | 2 => floatDouble f o.register (← readDouble (wordBoundary o.address))
  | _ => throw .addressSpecification

/-- Put the whole part of a number into a register. -/
def fixWord (o : Operand) : Exec Flow := do
  let (value, overflowed) := fixedForm 32 (Hexadecimal.ofWord (← gpr o.source))
  putResult o.register value overflowed
  return .next

/-- Put the whole part of a number into a register pair. -/
def fixDouble (o : Operand) : Exec Flow := do
  requireEven o.register
  let (value, overflowed) := fixedForm 64 (Hexadecimal.ofDouble (← pair o.source))
  putPairResult o.register value overflowed
  return .next

/-- Put an integer into a register as a number. -/
def floatFromWord (o : Operand) : Exec Flow := do
  let (form, fixedUp) := storedForm (Hexadecimal.toWord (.ofInt (← gpr o.source).toInt))
  putResult o.register form fixedUp
  return .next

/-- Put an integer into a register pair as a number. -/
def floatFromDouble (o : Operand) : Exec Flow := do
  requireEven o.register
  let (form, fixedUp) := storedForm (Hexadecimal.toDouble (.ofInt (← pair o.source).toInt))
  putPairResult o.register form fixedUp
  return .next

end Exec
end Concept32
