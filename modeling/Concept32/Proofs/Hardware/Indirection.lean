import Concept32.Proofs.Hardware.Operands
import Concept32.Proofs.Hardware.Returning
import Concept32.Proofs.Hardware.TrapDelivery
import Concept32.Proofs.Instructions.Indirection

/-!
# How far an instruction is followed

An instruction follows indirect words to its operand, and an execute instruction follows them to another instruction, which
follows them to its own operand. All of these count together, and there are no more than 64. An execute instruction does not
carry out another one.
-/

namespace Concept32

/-! ### Execute instructions -/

namespace Instruction
variable {i : Instruction}

/-- The opcodes of the execute instructions are the same in both addressing modes. -/
theorem opcodeByte_eq_iff (based : Bool) : (i.opcodeByte = 0xA8#8 ↔ i.opcode? based = some .exm) ∧
    (i.opcodeByte = 0xC8#8 ↔ i.opcode? based = some .imm) := by
  have htables : ∀ n : Fin 64, ∀ table ∈ [Opcode.basedTable, Opcode.nonBasedTable],
      ((BitVec.ofFin n : BitVec 6).setWidth 8 <<< 2 = 0xA8#8 ↔ table.get n = some .exm) ∧
        ((BitVec.ofFin n : BitVec 6).setWidth 8 <<< 2 = 0xC8#8 ↔ table.get n = some .imm) := by decide
  rw [opcodeByte_eq, opcode?]
  split
  · exact htables i.opcodeIndex _ (.head _)
  · exact htables i.opcodeIndex _ (.tail _ (.head _))

/-- The instructions that are known for execute instructions are those that carry out another one. -/
theorem isExecute_iff (based : Bool) : i.isExecute = true ↔
    i.opcode? based = some .exm ∨ i.opcode? based = some .imm ∧ i.augment = 7 := by
  rw [isExecute, Bool.or_eq_true, Bool.and_eq_true, beq_iff_eq, beq_iff_eq, beq_iff_eq,
    (opcodeByte_eq_iff based).1, (opcodeByte_eq_iff based).2]

end Instruction

namespace Core
variable {s : Core} {i target : Instruction} {next : Word} {r : Reference} {n : Nat}

/-- The instruction in the register that an execute instruction names. -/
def registerTarget (s : Core) (i : Instruction) : Instruction :=
  let target : Instruction := ⟨s.cpu.gpr.get i.register⟩
  if hasAny i.immediate 2#16 then .ofHalf (target.bits.setWidth 16)
  else if target.isHalfword s.cpu.psd.based then target.upperOnly
  else target

/-- The instruction at the operand of an execute instruction. -/
def memoryTarget (s : Core) (o : Operand) : Except Trap Instruction :=
  match o.field with
  | .leftHalf | .rightHalf => (s.halfFound o.operandAddress).map Instruction.ofHalf
  | .word => (s.wordFound .read o.address).map Instruction.mk
  | .byte _ | .double => .error .addressSpecification

/-- The instruction that an execute instruction names. -/
def Names (s : Core) (i : Instruction) (next : Word) : Counted Instruction :=
  if i.opcodeByte = 0xA8#8 then (s.Locates i .memory next).Then fun o => .Plain (s.memoryTarget o)
  else .Plain (.ok (s.registerTarget i))

/-- An instruction refers to memory by a reference, without base registers. -/
inductive Refers (s : Core) (i : Instruction) : Reference → Prop
  | indexed {opcode : Opcode} (hbased : s.cpu.psd.based = false) (hopcode : i.opcode? false = some opcode)
      (hformat : opcode.format = .memory) : Refers s i (.ofInstruction i true)
  | notIndexed {opcode : Opcode} (hbased : s.cpu.psd.based = false) (hopcode : i.opcode? false = some opcode)
      (hformat : opcode.format = .memoryNoIndex) : Refers s i (.ofInstruction i false)

/-- A reference is followed for an instruction: its own, or that of the instruction which it carries out. -/
inductive Begins (s : Core) (i : Instruction) (next : Word) (r : Reference) : Prop
  | own (h : s.Refers i r)
  | target {n : Nat} {target : Instruction} (hexecute : i.isExecute = true) (hnames : s.Names i next n (.ok target))
      (htarget : target.isExecute = false) (h : s.Refers target r)

end Core

/-! ### What is followed within the limit -/

namespace Exec
open Concept32.Core EStateM
variable {α β : Type} {s : Core} {i : Instruction} {o : Operand} {next : Word} {n : Nat}

theorem Expected.map {x : Exec α} {result : Except Trap α} {f : α → β} (h : Expected n s result (x s)) :
    Expected n s (result.map f) ((x >>= fun a => Pure.pure (f a)) s) := by
  cases hx : x s with
  | ok a t =>
    rw [bind_of_ok hx]
    rw [hx] at h
    obtain ⟨hnoted⟩ := h
    exact .ok hnoted
  | error t u =>
    rw [bind_of_error hx]
    rw [hx] at h
    obtain _ | hnoted := h
    exact .error hnoted

end Exec

/-! ### One instruction -/

namespace Hardware
open Concept32.Core Concept32.Exec EStateM
variable {δ ω : Type} {s : Hardware δ ω} {core core' : Core} {i target : Instruction} {next : Word} {opcode : Opcode}
  {o : Operand} {n : Nat} {t : Trap} {r : Reference}

section
variable [Peripheral δ ω] {again : Instruction → Word → Exec δ ω Flow} {now : Nat}

end

/-- EXM, by way of the indirect word at 8, of a load at 12. The operand of the load is found by way of the word at 16, which
leads to an operand or back to itself. -/
def executing (leads : Bool) : Hardware StandardDevice Char where
  core :=
    { cpu := Cpu.initial .c3227 0
      memory := ⟨#[0xA8100008#32, 0, 0x0000000C#32, 0xAC100010#32, if leads then 0x14#32 else 0x00100010#32, 0],
        Nat.le_of_ble_eq_true rfl⟩ }
  channels := .empty

/-- The EXM. -/
def executes : Instruction := ⟨0xA8100008#32⟩

/-- The load. -/
def loads : Instruction := ⟨0xAC100010#32⟩

end Hardware
end Concept32
