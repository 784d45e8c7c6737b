import Concept32.Cpu.Access
import Concept32.Opcode

/-!
# Operands

The effective address of an instruction that refers to memory. With base registers it is the sum of a
displacement, a base register and an index register. Without them an address is indexed, and if it is
indirect the word there takes its place, with an index register and an indirect bit of its own, and so on.
All sums are cut to what the addressing mode can reach.
-/

namespace Concept32

/-- An instruction with its effective address. -/
structure Operand where
  instruction : Instruction
  /-- The effective address; its low two bits are part of the field code. -/
  address : Word
  fBit : Bool
  field : FieldCode
  /-- The condition codes in the last indirect word. -/
  indirectCodes : Option ConditionCodes
  /-- The address of the next instruction. -/
  next : Word

namespace Operand

/-- An instruction that does not refer to memory. -/
def withoutAddress (i : Instruction) (next : Word) : Operand := ⟨i, 0, false, .word, none, next⟩

/-- The byte address of the operand. -/
def operandAddress (o : Operand) : Word := o.field.operandAddress o.address

/-- The immediate operand, sign-extended. -/
def immediate (o : Operand) : Word := signExtendHalf o.instruction.immediate

def register (o : Operand) : RegisterNumber := o.instruction.register

def source (o : Operand) : RegisterNumber := o.instruction.sourceRegister

def augment (o : Operand) : Nat := o.instruction.augment

/-- The instruction is of a form whose result is masked by register 4. -/
def isMasked (o : Operand) : Bool := 8 ≤ o.augment

end Operand

/-- A reference to memory without base registers, as an instruction or an indirect word makes it. -/
structure Reference where
  address : Word
  index : Fin 4
  indirect : Bool
  fBit : Bool
  codes : Option ConditionCodes

/-- The reference that an indirect word makes. -/
def Reference.ofWord (w : Word) : Reference :=
  let fields : Instruction := ⟨w⟩
  ⟨fields.address, fields.indexRegister, fields.indirect, fields.fBit, some ⟨w.extractLsb' 27 4⟩⟩

namespace Exec

/-- The number of indirect words that one instruction may follow. -/
def indirectLimit : Nat := 64

/-- The index field that names no register. -/
def noIndex : Fin 4 := ⟨0, by decide⟩

/-- The address of a reference, with its index register added. -/
def indexed (r : Reference) : Exec Word := do
  let mask := (← psd).addressMask
  if r.index.val = 0 then return r.address &&& mask
  return (r.address + (← gpr (r.index.castLE (by decide)))) &&& mask

/-- Follow a reference through at most `left` indirect words. -/
def follow (left : Nat) (r : Reference) : Exec (Word × Reference) := do
  let address ← indexed r
  if !r.indirect then return (address, r)
  modifyCpu fun c => { c with indirections := c.indirections + 1 }
  match left with
  | 0 => throw .addressSpecification
  | left + 1 =>
    let w ← readWord (wordBoundary address) .read
    follow left (.ofWord w)

/-- The effective address of an instruction that refers to memory; `isIndexed` tells whether the index
field is an index register. -/
def resolve (i : Instruction) (isIndexed : Bool) (next : Word) : Exec Operand := do
  if ← based then
    let mask := (← psd).addressMask
    let x := i.basedIndexRegister
    let index ← if isIndexed && x.val ≠ 0 then gpr x else pure 0
    let b := i.baseRegister
    let origin ← if b.val ≠ 0 then base b else pure 0
    let address := (i.displacement + index + origin) &&& mask
    return ⟨i, address, i.fBit, .decode i.fBit address, none, next⟩
  else
    let first : Reference :=
      ⟨i.address, if isIndexed then i.indexRegister else noIndex, i.indirect, i.fBit, none⟩
    let followed ← ask fun c => c.indirections
    let (address, last) ← follow (indirectLimit - followed) first
    return ⟨i, address, last.fBit, .decode last.fBit address, last.codes, next⟩

/-- The operand of an instruction of a format. -/
def operandOf (i : Instruction) (format : Format) (next : Word) : Exec Operand :=
  match format with
  | .halfword | .immediate => pure (.withoutAddress i next)
  | .memory => resolve i true next
  | .memoryNoIndex => resolve i false next

/-! ### Reading and storing operands -/

/-- The byte, halfword or word that an operand names; a halfword is sign-extended, a byte is not. -/
def readOperand (o : Operand) : Exec Word :=
  match o.field with
  | .byte _ => do return (← readByte o.operandAddress).setWidth 32
  | .leftHalf | .rightHalf => do return signExtendHalf (← readHalf o.operandAddress)
  | .word => readWord o.operandAddress .read
  | .double => throw .addressSpecification

/-- The doubleword that an operand names. -/
def readOperandDouble (o : Operand) : Exec Double :=
  match o.field with
  | .double => readDouble o.operandAddress
  | _ => throw .addressSpecification

/-- Store as much of a word as an operand has room for. -/
def writeOperand (o : Operand) (w : Word) : Exec Unit :=
  match o.field with
  | .byte _ => writeByte o.operandAddress (w.setWidth 8)
  | .leftHalf | .rightHalf => writeHalf o.operandAddress (w.setWidth 16)
  | .word => writeWord o.operandAddress w
  | .double => throw .addressSpecification

/-- Store a doubleword where an operand names one. -/
def writeOperandDouble (o : Operand) (d : Double) : Exec Unit :=
  match o.field with
  | .double => writeDouble o.operandAddress d
  | _ => throw .addressSpecification

end Exec
end Concept32
