import Concept32.Instructions.Branches
import Concept32.Instructions.Floating
import Concept32.Instructions.Loads
import Concept32.Instructions.Logic
import Concept32.Instructions.Shifts
import Concept32.Instructions.Supervisor

/-!
# What each opcode does

Opcodes that stand for a group choose the instruction by the augment code, the F bit or the register field;
a choice that means nothing is an undefined instruction. Instructions that reach the channels, and those
that carry out other instructions, are in `Concept32.Hardware.Execute`.
-/

namespace Concept32.Exec

/-- An instruction that the model does not have. -/
def undefined : Exec Flow := throw .undefinedInstruction

def generalGroup (o : Operand) : Exec Flow :=
  match o.augment with
  | 0x0 => halt
  | 0x1 => wait
  | 0x2 | 0xA => pure .next
  | 0x3 => loadSwitches o.register
  | 0x4 => extendSign o.register
  | 0x5 => round o.register
  | 0x6 => blockInterrupts true
  | 0x7 => blockInterrupts false
  | 0x8 => enableExceptions true
  | 0x9 => loadStatus o.register
  | 0xD => extendAddressing true
  | 0xE => enableExceptions false
  | 0xF => extendAddressing false
  | _ => undefined

/-- The group of the logical AND of registers. -/
def andGroup (o : Operand) : Exec Flow :=
  match o.augment with
  | 0x0 | 0x8 => logicalRegisters o bitAnd
  | 0x7 | 0xA => controlCache
  | 0xB => loadSecondWord o.register
  | _ => undefined

/-- The register group, most of which is for base registers. -/
def registerGroup (o : Operand) : Exec Flow := do
  let based ← based
  match o.augment, based with
  | 0x0, _ => branchRegister o.register
  | 0x1, true => copyToBase o
  | 0x2, true => exchangeBase o
  | 0x3, _ => codesToRegister o.register
  | 0x4, _ => registerToCodes o.register
  | 0x5, true => branchSubroutine o (← base o.source)
  | 0x8, true => call o (← base o.source)
  | 0xC, true => nextToBase o
  | 0xE, true => returnFromCall
  | _, _ => undefined

/-- Exchange two registers, each masked in the masked form. -/
def exchangeRegisters (o : Operand) : Exec Flow := do
  let new ← masked o (← gpr o.source)
  let old ← masked o (← gpr o.register)
  setGpr o.source old
  putResult o.register new false
  return .next

/-- The transfer group. -/
def transferGroup (o : Operand) : Exec Flow := do
  match o.augment with
  | 0x0 | 0x8 => combineRegisters o fun _ b => (b, false)
  | 0x1 => copyPair o
  | 0x2 => if ← based then copyFromBase o else undefined
  | 0x3 | 0xB => combineRegisters o fun _ b => (~~~b, false)
  | 0x4 | 0xC => negateRegister o
  | 0x5 | 0xD => exchangeRegisters o
  | 0x7 => loadMapRegister o.register
  | 0x9 => setStatus o.register
  | 0xA => mapToRegister o
  | 0xE => registerToScratchpad o
  | 0xF => scratchpadToRegister o
  | _ => undefined

def addGroup (o : Operand) : Exec Flow := do
  match o.augment with
  | 0x0 | 0x8 => combineRegisters o signedSum
  | 0x2 => if ← based then multiply o.register (← base o.source) else undefined
  | 0xA => if ← based then divide o.register (← base o.source) else undefined
  | 0x1 | 0x9 => floatRegisters o .add
  | 0x3 | 0xB => floatRegisters o .subtract
  | 0x4 | 0xC => floatRegisters o .divide
  | 0x6 | 0xE => floatRegisters o .multiply
  | 0x5 => fixWord o
  | 0x7 => floatFromWord o
  | 0xD => fixDouble o
  | 0xF => floatFromDouble o
  | _ => undefined

def immediateGroup (o : Operand) : Exec Flow :=
  match o.augment with
  | 0x0 => loadWord o.register o.immediate
  | 0x1 => combineWord o.register o.immediate signedSum
  | 0x2 => combineWord o.register o.immediate signedDifference
  | 0x3 => multiply o.register o.immediate
  | 0x4 => divide o.register o.immediate
  | 0x5 => compareWord o.register o.immediate
  | 0x6 => supervisorCall o
  | _ => undefined

/-- The miscellaneous group, selected by the register field. -/
def miscellaneousGroup (o : Operand) : Exec Flow :=
  match o.register.val with
  | 0 => storeZero o
  | 1 => branchAndLink o
  | 2 => returnFromInterrupt o
  | 3 => loadStatusDoubleword o false
  | 5 => loadStatusDoubleword o true
  | 6 => registerToProtection o
  | 7 => protectionToRegister o
  | _ => undefined

/-- The group that loads base registers or, with the F bit, calls subroutines. -/
def baseGroup (o : Operand) : Exec Flow :=
  match o.fBit, o.register.val with
  | false, _ => loadBase o
  | true, 0 => branchSubroutine o o.address
  | true, 1 => call o o.address
  | true, _ => undefined

/-- Carry out an instruction that reaches registers and memory alone. -/
def perform (opcode : Opcode) (o : Operand) : Exec Flow :=
  let left := o.instruction.shiftsLeft
  match opcode with
  | .gen => generalGroup o
  | .anr => andGroup o
  | .orr => logicalRegisters o bitOr
  | .eor => logicalRegisters o bitExclusiveOr
  | .car => do if (← based) && o.augment = 8 then shiftCountZeros o else compareRegisters o
  | .cmr => do compareMasked o.register (← gpr o.source)
  | .sbr => bitInRegister o .set
  | .zbr => bitInRegister o .clear
  | .abr => bitInRegister o .add
  | .tbr => bitInRegister o .test
  | .xbr => bitInRegister o (.ofSelector (o.instruction.selector 18))
  | .reg => registerGroup o
  | .trr => transferGroup o
  | .calm => callMonitor o
  | .la => loadAddress o
  | .adr => addGroup o
  | .sur =>
    if o.augment = 0 ∨ o.augment = 8 then combineRegisters o signedDifference else undefined
  | .mpr => do multiply o.register (← gpr o.source)
  | .dvr => do divide o.register (← gpr o.source)
  | .nor => normaliseRegister o
  | .nord => normalisePair o
  | .scz => shiftCountZeros o
  | .sra => shift o ⟨.arithmetic, false, left⟩
  | .srl => shift o ⟨.logical, false, left⟩
  | .src | .srcbr => shift o ⟨.circular, false, left⟩
  | .srad => shift o ⟨.arithmetic, true, left⟩
  | .srld => shift o ⟨.logical, true, left⟩
  | .srbr => shift o (.ofSelector false (o.instruction.selector 21))
  | .srdbr => shift o (.ofSelector true (o.instruction.selector 21))
  | .lear => loadRealAddress o
  | .anm => logicalMemory o bitAnd
  | .orm => logicalMemory o bitOr
  | .eom => logicalMemory o bitExclusiveOr
  | .cam => compareMemory o
  | .cmm => do compareMasked o.register (← readOperand o)
  | .sbm => bitInMemory o .set
  | .zbm => bitInMemory o .clear
  | .abm => bitInMemory o .add
  | .tbm => bitInMemory o .test
  | .l => load o
  | .lm => loadMasked o
  | .ln => loadNegative o
  | .adm => combineMemory o signedSum
  | .sum => combineMemory o signedDifference
  | .mpm => do multiply o.register (← readOperand o)
  | .dvm => do divide o.register (← readOperand o)
  | .imm => immediateGroup o
  | .lf => loadFile o
  | .lea => loadEffectiveAddress o
  | .st => store o
  | .stm => storeMasked o
  | .stf => storeFile o
  | .adf => floatMemory o (if o.fBit then .add else .subtract)
  | .mpf => floatMemory o (if o.fBit then .multiply else .divide)
  | .arm => addToMemory o
  | .bct => branchTrue o
  | .bcf => branchFalse o
  | .bi => branchIncrementing o
  | .misc => miscellaneousGroup o
  | .stwbr => storeBase o
  | .suabr => addressToBase o
  | .lwbr => baseGroup o
  | .exm | .io => undefined

end Concept32.Exec
