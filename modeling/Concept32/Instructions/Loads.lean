import Concept32.Cpu.Operand

/-!
# Loading and storing

Moving values between registers and memory and among registers. Loads set the condition codes by the sign
of what they load; stores leave them alone.
-/

namespace Concept32.Exec

/-! ### Memory operands -/

def load (o : Operand) : Exec Flow := do
  let r := o.register
  if o.field = .double then
    requireEven r
    putPairResult r (← readOperandDouble o) false
  else
    putResult r (← readOperand o) false
  return .next

/-- Load an operand masked by register 4, or by registers 4 and 5. -/
def loadMasked (o : Operand) : Exec Flow := do
  let r := o.register
  if o.field = .double then
    requireEven r
    let operand ← readOperandDouble o
    putPairResult r (operand &&& (← pair maskRegister)) false
  else
    let operand ← readOperand o
    putResult r (operand &&& (← gpr maskRegister)) false
  return .next

def store (o : Operand) : Exec Flow := do
  if o.field = .double then
    writeOperandDouble o (← pair o.register)
  else
    writeOperand o (← gpr o.register)
  return .next

/-- Store a register masked by register 4, or a pair masked by registers 4 and 5. -/
def storeMasked (o : Operand) : Exec Flow := do
  if o.field = .double then
    let value ← pair o.register
    writeOperandDouble o (value &&& (← pair maskRegister))
  else
    let value ← gpr o.register
    writeOperand o (value &&& (← gpr maskRegister))
  return .next

def storeZero (o : Operand) : Exec Flow := do
  if o.field = .double then writeOperandDouble o 0 else writeOperand o 0
  return .next

/-! ### Files of registers -/

/-- The words from a logical address on. -/
def readWords : (count : Nat) → (logical : Word) → Exec (List Word)
  | 0, _ => pure []
  | count + 1, logical => do
    let w ← readWord logical .read
    let rest ← readWords count (logical + 4)
    return w :: rest

/-- Store words from a logical address on, one after the other. -/
def writeWords : (logical : Word) → List Word → Exec Unit
  | _, [] => pure ()
  | logical, w :: rest => do
    writeWord logical w
    writeWords (logical + 4) rest

/-- A register file whose registers from `first` on are replaced. -/
def replaceFrom (registers : Vector Word 8) (first : Nat) (words : List Word) : Vector Word 8 :=
  Vector.ofFn fun n => if n.val < first then registers.get n else words.getD (n.val - first) 0

/-- The instruction is for the base registers. -/
def usesBaseFile (o : Operand) : Exec Bool := do return (← based) && o.fBit

/-- The address of a file of registers is a word boundary. -/
def requireFileAddress (o : Operand) : Exec Unit := requireAligned o.address 4

/-- Load the registers from one on; all words are read before a register changes. -/
def loadFile (o : Operand) : Exec Flow := do
  requireFileAddress o
  let first := o.register.val
  let words ← readWords (8 - first) o.address
  if ← usesBaseFile o then modifyCpu fun c => { c with base := replaceFrom c.base first words }
  else modifyCpu fun c => { c with gpr := replaceFrom c.gpr first words }
  return .next

/-- Store the registers from one on. -/
def storeFile (o : Operand) : Exec Flow := do
  requireFileAddress o
  let file ← if ← usesBaseFile o then ask Cpu.base else ask Cpu.gpr
  writeWords o.address (file.toList.drop o.register.val)
  return .next

/-! ### Addresses -/

/-- Load the effective address. In the shortest addressing mode the F bit comes with it. -/
def loadAddress (o : Operand) : Exec Flow := do
  let p ← psd
  let plain := !p.extended && !p.based
  setGpr o.register (if plain && o.fBit then o.address ||| Instruction.fieldBit else o.address)
  return .next

/-- Load the effective address in 24 bits. -/
def loadEffectiveAddress (o : Operand) : Exec Flow := do
  setGpr o.register (o.address &&& 0x00FFFFFF#32)
  return .next

/-- Load the physical address of the operand. -/
def loadRealAddress (o : Operand) : Exec Flow := do
  let physical ← translate (wordBoundary o.address) .read
  setGpr o.register (physical ||| (o.address &&& 3))
  return .next

/-! ### Among registers -/

def loadWord (r : RegisterNumber) (w : Word) : Exec Flow := do
  putResult r w false
  return .next

def copyPair (o : Operand) : Exec Flow := do
  let value ← pair o.source
  requireEven o.register
  putPairResult o.register value false
  return .next

def copyFromBase (o : Operand) : Exec Flow := do
  setGpr o.register (← base o.source)
  return .next

def copyToBase (o : Operand) : Exec Flow := do
  setBase o.register (← gpr o.source)
  return .next

def exchangeBase (o : Operand) : Exec Flow := do
  let a ← base o.register
  let b ← base o.source
  setBase o.register b
  setBase o.source a
  return .next

def loadBase (o : Operand) : Exec Flow := do
  setBase o.register (← readWord (wordBoundary o.address) .read)
  return .next

def storeBase (o : Operand) : Exec Flow := do
  writeWord o.operandAddress (← base o.register)
  return .next

/-- Load the effective address into a base register, or subtract it from the register. -/
def addressToBase (o : Operand) : Exec Flow := do
  let a := wordBoundary o.address
  if o.fBit then setBase o.register a
  else setBase o.register ((← base o.register) - a)
  return .next

end Concept32.Exec
