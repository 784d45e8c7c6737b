import Concept32.Instructions.Dispatch
import Concept32.Proofs.Addressing
import Concept32.Proofs.Hardware.Operands
import Concept32.Proofs.Instructions.Places
import Concept32.Proofs.Signed

/-!
# The overflow law

Every instruction that adds, subtracts, negates or rounds signed numbers computes its exact result first and looks whether
it fits the width of its destination. If it does not and arithmetic exceptions are enabled, the instruction traps and has
changed nothing. Otherwise the result is cut to the width, and the condition codes tell the overflow and the sign of what
has been stored.
-/

namespace Concept32

/-- The bit that an instruction on a bit of memory names, counted from the most significant of the word. -/
def Operand.memoryBit (o : Operand) : Nat := (o.address.extractLsb' 0 2).toNat * 8 + o.register.val

namespace Core

/-- The instructions of the overflow law: with its operand accessible, its register pair even and its operand in memory at
a physical address, where an operation leaves its result, whether the result is masked, and the exact result. -/
inductive Computes (s : Core) (o : Operand) : Opcode → Place → Bool → Int → Prop
  | addRegisters (haugment : o.augment = 0 ∨ o.augment = 8) :
    Computes s o .adr (.register o.register) o.isMasked
      ((s.cpu.gpr.get o.register).toInt + (s.cpu.gpr.get o.source).toInt)
  | subtractRegisters (haugment : o.augment = 0 ∨ o.augment = 8) :
    Computes s o .sur (.register o.register) o.isMasked
      ((s.cpu.gpr.get o.register).toInt - (s.cpu.gpr.get o.source).toInt)
  | negateRegister (haugment : o.augment = 4 ∨ o.augment = 0xC) :
    Computes s o .trr (.register o.register) o.isMasked (-(s.cpu.gpr.get o.source).toInt)
  | addImmediate (haugment : o.augment = 1) :
    Computes s o .imm (.register o.register) false
      ((s.cpu.gpr.get o.register).toInt + o.instruction.immediate.toInt)
  | subtractImmediate (haugment : o.augment = 2) :
    Computes s o .imm (.register o.register) false
      ((s.cpu.gpr.get o.register).toInt - o.instruction.immediate.toInt)
  | addMemory {physical : Word} (hpair : o.Paired)
      (hread : s.Allows .read o.operandAddress o.field.bytes physical) :
    Computes s o .adm o.registers false ((s.valueAt o.registers).toInt + s.number o physical)
  | subtractMemory {physical : Word} (hpair : o.Paired)
      (hread : s.Allows .read o.operandAddress o.field.bytes physical) :
    Computes s o .sum o.registers false ((s.valueAt o.registers).toInt - s.number o physical)
  | loadNegative {physical : Word} (hpair : o.Paired)
      (hread : s.Allows .read o.operandAddress o.field.bytes physical) :
    Computes s o .ln o.registers false (-s.number o physical)
  | addBitToRegister {opcode : Opcode} (hopcode : opcode = .abr ∨ opcode = .xbr ∧ o.instruction.selector 18 = 2) :
    Computes s o opcode (.register o.source) false
      ((s.cpu.gpr.get o.source).toInt + (Exec.bitMask o.instruction.registerBit).toInt)
  /-- With the F bit the instruction has no operand. -/
  | addBitToMemory {physical : Word} (hf : o.fBit = false) (hread : s.Allows .read (wordBoundary o.address) 4 physical)
      (hwrite : s.Allows .write (wordBoundary o.address) 4 physical) :
    Computes s o .abm (.field physical.toNat 4) false
      ((s.memory.fieldAt physical.toNat 4).toInt + (Exec.bitMask o.memoryBit).toInt)
  /-- The pair over the place value of its first register, to the nearest whole number. -/
  | roundPair (haugment : o.augment = 5) (hpair : o.register.val % 2 = 0) :
    Computes s o .gen (.register o.register) false (((s.cpu.pairAt o.register).toInt + 0x80000000) / 0x100000000)
  /-- A byte is no signed number. Of the register as many low bytes count as the field has. -/
  | addToMemory {physical : Word} (hbyte : ∀ offset, o.field ≠ .byte offset) (hpair : o.Paired)
      (hread : s.Allows .read o.operandAddress o.field.bytes physical)
      (hwrite : s.Allows .write o.operandAddress o.field.bytes physical) :
    Computes s o .arm (.field physical.toNat o.field.bytes) false
      ((s.memory.fieldAt physical.toNat o.field.bytes).toInt +
        ((s.valueAt o.registers).setWidth (8 * o.field.bytes)).toInt)

variable {s t : Core} {place : Place} {masked : Bool} {r : Int}

/-- What is stored of an exact result: the result cut to the width of its place, masked by register 4 or not. -/
def stored (s : Core) (place : Place) (masked : Bool) (r : Int) : BitVec place.width :=
  if masked then .ofInt place.width r &&& (s.cpu.gpr.get Exec.maskRegister).setWidth place.width
  else .ofInt place.width r

/-- An exact result has been stored, and the condition codes tell its overflow and the sign of what was stored. -/
structure Settles (place : Place) (masked : Bool) (r : Int) (s s' : Core) : Prop where
  puts : Puts place (s.stored place masked r) (s.cpu.psd.withCodes s'.cpu.psd.codes) s s'
  overflow : s'.cpu.psd.codes.cc1 = true ↔ ¬FitsSigned place.width r
  positive : s'.cpu.psd.codes.cc2 = true ↔ 0 < (s.stored place masked r).toInt
  negative : s'.cpu.psd.codes.cc3 = true ↔ (s.stored place masked r).toInt < 0
  zero : s'.cpu.psd.codes.cc4 = true ↔ (s.stored place masked r).toInt = 0

theorem Settles.of_same (hsame : Same s t) {s' : Core} (h : Settles place masked r t s') :
    Settles place masked r s s' := by
  obtain ⟨_, _, rfl⟩ := hsame
  exact ⟨h.puts.of_same ⟨_, _, rfl⟩, h.overflow, h.positive, h.negative, h.zero⟩

end Core

/-! ### Results that are checked and put into their places -/

namespace Exec
open Concept32.Core EStateM
variable {s s' : Core} {x : Exec Flow} {place : Place} {masked overflowed : Bool} {r : Int} {o : Operand}
  {physical : Word}

theorem putResult_next {q : RegisterNumber} {w : Word} : (do putResult q w overflowed; return .next : Exec Flow) =
    (do checkOverflow overflowed; setGpr q w; setCodes (.ofResult w overflowed); return .next) := by
  rw [putResult]
  simp only [bind_assoc]

theorem putPairResult_next {q : RegisterNumber} {d : Double} (heven : q.val % 2 = 0) :
    (do putPairResult q d overflowed; return .next : Exec Flow) =
      (do
        checkOverflow overflowed
        setGpr q (highWord d)
        setGpr (nextRegister q) (lowWord d)
        setCodes (.ofResult d overflowed)
        return .next) := by
  rw [putPairResult, setPair_of_even heven]
  simp only [bind_assoc]

end Exec

/-! ### The law -/

namespace Hardware
open Concept32.Core EStateM
variable {δ ω : Type} [Peripheral δ ω] {s : Hardware δ ω} {core : Core} {i : Instruction} {next : Word} {opcode : Opcode}
  {o : Operand} {place : Place} {masked : Bool} {r : Int}

end Hardware
end Concept32
