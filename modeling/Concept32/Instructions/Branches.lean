import Concept32.Cpu.Operand

/-!
# Branches and subroutine linkage

A branch through an indirect word takes the condition codes from it. The word that a program returns by is
the first status word with the address of the next instruction. In base register mode a call pushes that
word and base register 1 below base register 2, and lets both registers point to them.
-/

namespace Concept32

/-- The condition that a branch tests, by the register field of the instruction. -/
def ConditionCodes.satisfies (cc : ConditionCodes) (condition : Nat) : Bool :=
  match condition with
  | 0 => true
  | 1 => cc.cc1
  | 2 => cc.cc2
  | 3 => cc.cc3
  | 4 => cc.cc4
  | 5 => cc.cc2 || cc.cc4
  | 6 => cc.cc3 || cc.cc4
  | _ => cc.cc1 || cc.cc2 || cc.cc3 || cc.cc4

namespace Exec

/-! ### Branches -/

def branch (o : Operand) : Exec Flow := do
  match o.indirectCodes with
  | some cc => setCodes cc
  | none => pure ()
  return .jump (o.address &&& ~~~1#32)

/-- Branch if the condition holds. -/
def branchTrue (o : Operand) : Exec Flow := do
  if (← codes).satisfies o.register.val then branch o else return .next

/-- Branch if the condition does not hold. Without a condition the codes select a bit of the upper half of
register 4, and that bit decides. -/
def branchFalse (o : Operand) : Exec Flow := do
  let cc ← codes
  let condition := o.register.val
  let taken ←
    if condition = 0 then pure ((← gpr maskRegister).getLsbD (16 + cc.nibble.toNat))
    else pure (!cc.satisfies condition)
  if taken then branch o else return .next

/-- The number that an incrementing branch adds: the size of a byte, word, halfword or doubleword. -/
def branchIncrement : Fin 4 → Word
  | 0 => 1
  | 1 => 4
  | 2 => 2
  | 3 => 8

/-- Increment a register and branch unless it is zero. -/
def branchIncrementing (o : Operand) : Exec Flow := do
  let value := (← gpr o.register) + branchIncrement o.instruction.indexRegister
  setGpr o.register value
  if value ≠ 0 then branch o else return .next

/-- Branch to the address in a register, taking the condition codes from it. -/
def branchRegister (r : RegisterNumber) : Exec Flow := do
  let value ← gpr r
  setCodes ⟨value.extractLsb' 27 4⟩
  return .jump value

/-! ### Linkage -/

/-- The word by which a program returns to the next instruction. -/
def returnWord (o : Operand) : Exec Word := do return ((← psd).withAddress o.next).word1

/-- Branch and leave the return word in register 0. -/
def branchAndLink (o : Operand) : Exec Flow := do
  setGpr linkRegister (← returnWord o)
  branch o

/-- Branch and leave the return word in base register 0. -/
def branchSubroutine (o : Operand) (target : Word) : Exec Flow := do
  setBase linkBase (← returnWord o)
  return .jump (target &&& ~~~1#32)

/-- The number of bytes that a call pushes. -/
def frameBytes : Word := 8

def call (o : Operand) (target : Word) : Exec Flow := do
  let frame := (← base stackBase) - frameBytes
  let word ← returnWord o
  let caller ← base frameBase
  writeWord frame word
  writeWord (frame + 4) caller
  setBase stackBase frame
  setBase frameBase frame
  return .jump (target &&& ~~~1#32)

def returnFromCall : Exec Flow := do
  let frame ← base frameBase
  let word ← readWord frame .read
  let caller ← readWord (frame + 4) .read
  setBase frameBase caller
  setBase stackBase (frame + frameBytes)
  setCodes (Psd.codes ⟨word, 0⟩)
  return .jump word

/-- Put the address of the next instruction into a base register. -/
def nextToBase (o : Operand) : Exec Flow := do
  setBase o.register o.next
  return .next

end Exec
end Concept32
