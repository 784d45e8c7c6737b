import Concept32.Cpu.Timing
import Concept32.Instructions.Dispatch
import Concept32.Hardware.Basic

/-!
# Executing instructions

Fetching the instruction at the program counter and carrying it out. The instructions for interrupt levels,
devices and channels are here, and so are the execute instructions, which carry out an instruction held in
a register or in memory; that one may not be an execute instruction again.
-/

namespace Concept32.Hardware
variable {δ ω : Type}

/-- A step of an instruction that may reach the channels. -/
abbrev Exec (δ ω α : Type) := EStateM Trap (Hardware δ ω) α

/-! ### Instructions for channels -/

section
variable [Peripheral δ ω]

/-- Test or command the device of class E on a logical channel. -/
def classECommand (now : Nat) (o : Operand) (logicalChannel : Byte) (isTest : Bool) :
    Exec δ ω IoCondition := do
  let entry ← onCore (Concept32.Exec.ask fun c => c.scratchpad.channelEntry logicalChannel)
  if !entry.isClassE then return .inoperative
  let device : DeviceAddress := .ofParts entry.realChannel 0
  let command := o.instruction.immediate
  if isTest then onChannels fun c => c.testDevice now device command
  else onChannels fun c => c.commandDevice now device command

/-- The logical channel and the subaddress that an instruction for a channel names: its own low 15 bits
with those of a register added. -/
def channelOperand (o : Operand) : Concept32.Exec (Byte × Byte) := do
  let r := o.register
  let own := o.instruction.bits &&& 0x7FFF#32
  let index ← if r.val = 0 then pure 0 else Concept32.Exec.gpr r
  let sum := own + (index &&& 0x7FFF#32)
  return (sum.extractLsb' 8 8 &&& 0x7F#8, sum.extractLsb' 0 8)

/-- An instruction for a channel of class F, whose interrupt level must have a context block. Word 4 of the
block has the address of the channel program to start. -/
def channelInstruction (now : Nat) (o : Operand) : Exec δ ω Flow := do
  let (logicalChannel, subaddress) ← onCore (channelOperand o)
  let entry ← onCore (Concept32.Exec.ask fun c => c.scratchpad.channelEntry logicalChannel)
  if !entry.isClassF then throw .systemCheck
  let level := entry.level
  match ← onCore (fun core => .ok (core.cpu.levelBlock? core.memory level) core) with
  | none => throw .systemCheck
  | some block =>
    let device : DeviceAddress := .ofParts entry.realChannel subaddress
    let levelStep (f : Cpu → Nat → Cpu) : Exec δ ω IoCondition := do
      onCore (Concept32.Exec.modifyCpu fun c => f c level)
      return .accepted
    let condition ← match (o.instruction.bits.extractLsb' 19 4).toNat with
      | 0x2 => do
        let first ← onCore (Concept32.Exec.fromMemory fun m => m.readWord (block + 16))
        let first : Address := first.setWidth 24 &&& 0xFFFFFC#24
        onChannelsAndMemory fun c m => c.startIo now m device first
      | 0x3 => onChannelsAndMemory fun c m => c.testIo now m device block
      | 0x4 => onChannels fun c => c.stopIo device
      | 0x5 => onChannels fun c => c.resetChannel entry.realChannel
      | 0x6 => onChannels fun c => c.haltIo now device
      | 0x7 => onChannels fun c => (c.grabIo device, c)
      | 0x8 => onChannels fun c => c.resetController now device
      | 0x9 => levelStep Cpu.enableLevel
      | 0xA => levelStep Cpu.disableLevel
      | 0xB => levelStep Cpu.activateLevel
      | 0xC => levelStep Cpu.deactivateLevel
      | _ => throw .undefinedInstruction
    onCore (Concept32.Exec.setCodes condition.codes)
    return .next

/-- An instruction for an interrupt level, for a device of class E or for a channel. -/
def ioInstruction (now : Nat) (o : Operand) : Exec δ ω Flow := do
  onCore Concept32.Exec.requirePrivileged
  let operand := o.instruction.bits.extractLsb' 19 7
  let levelStep (f : Cpu → Nat → Cpu) : Exec δ ω Flow := do
    onCore (Concept32.Exec.modifyCpu fun c => f c operand.toNat)
    return .next
  let classE (isTest : Bool) : Exec δ ω Flow := do
    let condition ← classECommand now o (operand.setWidth 8) isTest
    onCore (Concept32.Exec.setCodes condition.codes)
    return .next
  match o.augment % 8 with
  | 0 => levelStep Cpu.enableLevel
  | 1 => levelStep Cpu.disableLevel
  | 2 => levelStep Cpu.requestInterrupt
  | 3 => levelStep Cpu.activateLevel
  | 4 => levelStep Cpu.deactivateLevel
  | 5 => classE true
  | 6 => classE false
  | _ => channelInstruction now o

/-! ### Carrying out an instruction -/

/-- Carry out an instruction that is not an execute instruction. -/
def perform (now : Nat) (i : Instruction) (next : Word) : Exec δ ω Flow := do
  match i.opcode? (← onCore Concept32.Exec.based) with
  | none => throw .undefinedInstruction
  | some opcode =>
    let o ← onCore (Concept32.Exec.operandOf i opcode.format next)
    if opcode = .io then ioInstruction now o else onCore (Concept32.Exec.perform opcode o)

/-- The instruction that an execute instruction names: in memory, a halfword or a word; in a register, the
lower half if bit 30 of the execute instruction is set, and otherwise the upper half or the whole. -/
def executeTarget (i : Instruction) (next : Word) : Concept32.Exec Instruction := do
  if i.opcodeByte = 0xA8#8 then
    let o ← Concept32.Exec.operandOf i .memory next
    match o.field with
    | .leftHalf | .rightHalf => return .ofHalf (← Concept32.Exec.readHalf o.operandAddress)
    | .word => return ⟨← Concept32.Exec.readWord o.address .read⟩
    | .byte _ | .double => throw .addressSpecification
  else
    let value ← Concept32.Exec.gpr i.register
    if hasAny i.immediate 2#16 then return .ofHalf (value.setWidth 16)
    let target : Instruction := ⟨value⟩
    return if target.isHalfword (← Concept32.Exec.based) then target.upperOnly else target

/-- Carry out an instruction. -/
def dispatch (now : Nat) (i : Instruction) (next : Word) : Exec δ ω Flow := do
  if i.isExecute then
    let target ← onCore (executeTarget i next)
    if target.isExecute then throw .undefinedInstruction else perform now target next
  else perform now i next

end

/-! ### Fetching and stepping -/

/-- The instruction at the program counter, with the address of the next one. A word instruction begins in
the left half of a word. -/
def fetch : Concept32.Exec (Instruction × Word) := do
  let p ← Concept32.Exec.psd
  let pc := p.address
  let word ← Concept32.Exec.readWord (wordBoundary pc) .execute
  if hasAny pc 2#32 then
    let i : Instruction := .ofHalf (word.setWidth 16)
    if i.isHalfword p.based then return (i, pc + 2) else throw .addressSpecification
  let i : Instruction := ⟨word⟩
  if !i.isHalfword p.based then return (i, pc + 4)
  let elides := (← Concept32.Exec.ask Cpu.model).elidesTrailingNop
  if i.immediate = Instruction.nopHalf && elides then return (i.upperOnly, pc + 4)
  return (i.upperOnly, pc + 2)

/-- The processor with execution going on after an instruction. -/
def proceed (flow : Flow) (next : Word) (c : Cpu) : Cpu :=
  match flow with
  | .next => { c with psd := c.psd.withAddress next }
  | .jump a => { c with psd := c.psd.withAddress a }
  | .loaded => c
  | .wait => { c with psd := c.psd.withAddress next, mode := .waiting }
  | .halt => { c with psd := c.psd.withAddress next, mode := .halted }

/-- Add an instruction to the history, now that it has completed or trapped. -/
def remember (before : Psd) (i : Instruction) (c : Cpu) : Cpu :=
  { c with history := c.history.record ⟨before, i, c.psd, c.gpr⟩ }

variable [Peripheral δ ω]

/-- Execute the instruction at the program counter; the answer is the time that it takes. A trap is
delivered to software. The program resumes after the instruction, or at the instruction itself when it
could not be fetched or when a page was not resident. -/
def executeInstruction (now : Nat) : EStateM TrapHalt (Hardware δ ω) Nat := fun ⟨⟨cpu, memory⟩, channels⟩ =>
  let before := cpu.psd
  let core : Core := ⟨{ cpu with indirections := 0 }, memory⟩
  match fetch core with
  | .error t core =>
    (do onCore (Delivery.takeTrap now t before.address); return Timing.trap :
      EStateM TrapHalt (Hardware δ ω) Nat) ⟨core, channels⟩
  | .ok (i, next) core =>
    let finish : EStateM TrapHalt (Hardware δ ω) Nat := do
      onCore (Delivery.modifyCpu (remember before i))
      let indirections := (← get).core.cpu.indirections
      return Timing.instruction i before.based indirections
    match dispatch now i next ⟨core, channels⟩ with
    | .ok flow s => (do onCore (Delivery.modifyCpu (proceed flow next)); finish :
        EStateM TrapHalt (Hardware δ ω) Nat) s
    | .error t s =>
      let resume := match t with
        | .demandPage _ => before.address
        | _ => next
      (do onCore (Delivery.takeTrap now t resume); finish : EStateM TrapHalt (Hardware δ ω) Nat) s

end Concept32.Hardware
