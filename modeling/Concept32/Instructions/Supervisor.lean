import Concept32.Cpu.Context
import Concept32.Cpu.Operand

/-!
# Control of the processor

Stopping, the processor's status word, arithmetic exceptions and addressing modes, the scratchpad, the
memory map, the protection registers, loading of status doublewords and supervisor calls. Most of these
need a privileged program.
-/

namespace Concept32.Exec

/-! ### Stopping -/

def halt : Exec Flow := do
  if !(← psd).privileged then throw .privilegedHalt
  return .halt

def wait : Exec Flow := do
  requirePrivileged
  return .wait

/-! ### Modes and the status word -/

/-- Load the operator's control switches. -/
def loadSwitches (r : RegisterNumber) : Exec Flow := do
  setGpr r (← ask Cpu.switches)
  return .next

def blockInterrupts (blocked : Bool) : Exec Flow := do
  requirePrivileged
  modifyCpu fun c => c.withBlocked blocked
  return .next

def enableExceptions (on : Bool) : Exec Flow := do
  modifyPsd fun p => p.withExceptions on
  return .next

/-- Enter or leave the extended addressing mode; not every model has it to enter. -/
def extendAddressing (on : Bool) : Exec Flow := do
  if on && !(← ask Cpu.model).hasExtendedAddressing then throw .undefinedInstruction
  modifyPsd fun p => p.withExtended on
  return .next

def loadStatus (r : RegisterNumber) : Exec Flow := do
  requirePrivileged
  setGpr r (← ask Cpu.status)
  return .next

def setStatus (r : RegisterNumber) : Exec Flow := do
  requirePrivileged
  let w ← gpr r
  modifyCpu fun c => c.withStatus w
  return .next

/-- Load the second status word as it would be saved. -/
def loadSecondWord (r : RegisterNumber) : Exec Flow := do
  let blocked ← ask Cpu.interruptsBlocked
  setGpr r ((← psd).savedWord2 blocked)
  return .next

/-- Control of memory and cache, of which there is nothing to control. -/
def controlCache : Exec Flow := do
  requirePrivileged
  return .next

/-- Copy the condition codes to a register. -/
def codesToRegister (r : RegisterNumber) : Exec Flow := do
  setGpr r ((← codes).nibble.setWidth 32)
  return .next

/-- Take the condition codes from a register. -/
def registerToCodes (r : RegisterNumber) : Exec Flow := do
  setCodes ⟨(← gpr r).setWidth 4⟩
  return .next

/-! ### Scratchpad, map and protection -/

/-- Load the map of the program whose index is in a register. -/
def loadMapRegister (r : RegisterNumber) : Exec Flow := do
  requirePrivileged
  loadMap ((← gpr r) &&& Psd.cpixField)
  return .next

/-- Copy a map entry to a register; zero where the hardware has none. -/
def mapToRegister (o : Operand) : Exec Flow := do
  requirePrivileged
  let page := (← gpr o.source).toNat
  setGpr o.register ((← ask fun c => c.map.raw? page).getD 0)
  return .next

def registerToScratchpad (o : Operand) : Exec Flow := do
  requirePrivileged
  let slot := (← gpr o.source).toNat
  let w ← gpr o.register
  modifyCpu fun c => { c with scratchpad := c.scratchpad.set slot w }
  return .next

def scratchpadToRegister (o : Operand) : Exec Flow := do
  requirePrivileged
  let slot := (← gpr o.source).toNat
  setGpr o.register (← ask fun c => c.scratchpad.get slot)
  return .next

/-- The protection register that an address names. -/
def protectionRegister (o : Operand) : Fin 32 := (o.address.extractLsb' 15 5).toFin

/-- Copy register 0 to a protection register. -/
def registerToProtection (o : Operand) : Exec Flow := do
  requirePrivileged
  let w ← gpr linkRegister
  let n := protectionRegister o
  modifyCpu fun c => { c with protect := c.protect.set n.val w n.isLt }
  return .next

/-- Copy a protection register to register 0. -/
def protectionToRegister (o : Operand) : Exec Flow := do
  requirePrivileged
  setGpr linkRegister (← ask fun c => c.protect.get (protectionRegister o))
  return .next

/-! ### Status doublewords -/

/-- Load the status doubleword in memory; without a word on it, the doubleword itself tells whether the map
changes. -/
def loadPsdOperand (o : Operand) (changeMaps : Option Bool) : Exec Unit := do
  requirePrivileged
  let d ← readDouble o.operandAddress
  let new : Psd := ⟨highWord d, lowWord d⟩
  loadPsd new (changeMaps.getD (!new.retainsMaps))

/-- Return from an interrupt: load the status doubleword and end the first level that is active. -/
def returnFromInterrupt (o : Operand) : Exec Flow := do
  loadPsdOperand o none
  match ← ask fun c => c.levels.firstActive? with
  | some level => modifyCpu fun c => c.deactivateLevel level
  | none => pure ()
  return .loaded

/-- Load a status doubleword, with its map or without. -/
def loadStatusDoubleword (o : Operand) (changeMaps : Bool) : Exec Flow := do
  loadPsdOperand o (some changeMaps)
  return .loaded

/-! ### Supervisor calls -/

/-- Call the supervisor. The context block of the trap has in word 4 the address of a table of context
blocks; `index` selects the one through which control passes, and the number of the call is left in its
word 5. -/
def callSupervisor (index : Nat) (number next : Word) : Exec Flow := do
  let entry ← ask fun c => c.trapEntry .supervisorCall
  match (← get).memory.contextBlock? entry with
  | none => throw .supervisorCall
  | some block =>
    let table := (← fromMemory fun m => m.readWord (block + 16)) &&& 0x00FFFFFC#32
    match (← get).memory.contextBlock? (table + BitVec.ofNat 32 (4 * index)) with
    | none => throw .supervisorCall
    | some target =>
      exchange target next
      toMemory (Memory.writeWord (target + 20) number)
      return .loaded

/-- Call the supervisor by an immediate instruction: four bits of index and twelve of number. -/
def supervisorCall (o : Operand) : Exec Flow :=
  callSupervisor (o.instruction.bits.extractLsb' 12 4).toNat (o.instruction.bits &&& 0xFFF#32) o.next

/-- Call the supervisor by a halfword instruction, with ten bits of number. -/
def callMonitor (o : Operand) : Exec Flow :=
  callSupervisor 0 ((o.instruction.bits >>> 16) &&& 0x3FF#32) o.next

end Concept32.Exec
