import Concept32.AddressMap
import Concept32.History
import Concept32.InterruptLevels

/-!
# The processor

The state of the processor, the state of processor and memory together, and the monad in which an
instruction is carried out: it changes that state and may raise a trap, and what it had changed before it
raised the trap stays changed.
-/

namespace Concept32

/-- Whether the processor executes instructions. -/
inductive RunMode
  | running
  | waiting
  | halted
  deriving DecidableEq, Repr

namespace RunMode

def all : List RunMode := [.running, .waiting, .halted]

def name : RunMode → String
  | .running => "Running"
  | .waiting => "Waiting"
  | .halted => "Halted"

end RunMode

structure Cpu where
  model : Model
  psd : Psd
  gpr : Vector Word 8
  base : Vector Word 8
  scratchpad : Scratchpad
  map : AddressMap
  levels : InterruptLevels
  protect : Vector Word 32
  switches : Word
  mode : RunMode
  history : History
  /-- The logical address of the last access that could not be translated. -/
  faultAddress : Word
  /-- The indirect words that the current instruction has followed. -/
  indirections : Nat

namespace Cpu

/-- The processor of a model as it is switched on. -/
def initial (model : Model) (historyLength : Nat) : Cpu where
  model := model
  psd := .initial
  gpr := Vector.replicate 8 0
  base := Vector.replicate 8 0
  scratchpad := .empty
  map := .empty model.mapScheme
  levels := .idle
  protect := Vector.replicate 32 0
  switches := 0
  mode := .halted
  history := .empty historyLength
  faultAddress := 0
  indirections := 0

/-- The processor after a reset: halted, privileged and unmapped. The control switches stay as they
are. -/
def reset (c : Cpu) : Cpu :=
  { c with
    psd := .initial
    gpr := Vector.replicate 8 0
    base := Vector.replicate 8 0
    scratchpad := .empty
    map := c.map.clear
    levels := .idle
    protect := Vector.replicate 32 0
    mode := .halted
    history := c.history.clear
    faultAddress := 0 }

/-! ### The status word -/

/-- Status word: traps are delivered to software. -/
def trapsEnabledBit : Word := 0x00000040#32

/-- Status word: interrupts are blocked. -/
def blockedBit : Word := 0x00000080#32

/-- The status word, which is kept in the scratchpad. -/
def status (c : Cpu) : Word := c.scratchpad.get Scratchpad.statusSlot

def withStatus (c : Cpu) (w : Word) : Cpu :=
  { c with scratchpad := c.scratchpad.set Scratchpad.statusSlot w }

def trapsEnabled (c : Cpu) : Bool := hasAny c.status trapsEnabledBit

def interruptsBlocked (c : Cpu) : Bool := hasAny c.status blockedBit

def withBlocked (c : Cpu) (blocked : Bool) : Cpu := c.withStatus (withBits c.status blockedBit blocked)

/-! ### Interrupt levels -/

/-- Enable a level, in the level itself and in its scratchpad entry. -/
def enableLevel (c : Cpu) (level : Nat) : Cpu :=
  { c with
    levels := c.levels.enable level
    scratchpad := c.scratchpad.updateLevelEntry level Scratchpad.enabledBit true }

/-- Disable a level, in the level itself and in its scratchpad entry. -/
def disableLevel (c : Cpu) (level : Nat) : Cpu :=
  { c with
    levels := c.levels.disable level
    scratchpad := c.scratchpad.updateLevelEntry level Scratchpad.enabledBit false }

/-- Make a level active, in the level itself and in its scratchpad entry. -/
def activateLevel (c : Cpu) (level : Nat) : Cpu :=
  { c with
    levels := c.levels.activate level
    scratchpad := c.scratchpad.updateLevelEntry level Scratchpad.activeBit true }

/-- End a level, in the level itself and in its scratchpad entry. -/
def deactivateLevel (c : Cpu) (level : Nat) : Cpu :=
  { c with
    levels := c.levels.deactivate level
    scratchpad := c.scratchpad.updateLevelEntry level Scratchpad.activeBit false }

def requestInterrupt (c : Cpu) (level : Nat) : Cpu := { c with levels := c.levels.request level }

end Cpu

/-- The processor and memory. -/
structure Core where
  cpu : Cpu
  memory : Memory

/-- Where execution goes on after an instruction. -/
inductive Flow
  /-- At the next instruction. -/
  | next
  | jump (address : Word)
  /-- Where a status doubleword says that the instruction has loaded. -/
  | loaded
  /-- Nowhere before an interrupt. -/
  | wait
  | halt
  deriving DecidableEq, Repr

/-- Something that an instruction does; it may raise a trap. -/
abbrev Exec (α : Type) := EStateM Trap Core α

namespace Exec

/-! ### Parts of the state -/

/-- A value that depends on the processor. -/
def ask {α : Type} (f : Cpu → α) : Exec α := fun s => .ok (f s.cpu) s

def modifyCpu (f : Cpu → Cpu) : Exec Unit := fun ⟨cpu, memory⟩ => .ok () ⟨f cpu, memory⟩

/-- Read memory at a physical address; a refusal raises its trap. -/
def fromMemory {α : Type} (f : Memory → Except MemoryError α) : Exec α := fun s =>
  match f s.memory with
  | .ok a => .ok a s
  | .error e => .error (.ofMemoryError e) s

/-- Change memory at a physical address; a refusal raises its trap. -/
def toMemory {α : Type} (x : Memory.Action α) : Exec α := fun ⟨cpu, memory⟩ =>
  match x memory with
  | .ok a memory => .ok a ⟨cpu, memory⟩
  | .error e memory => .error (.ofMemoryError e) ⟨cpu, memory⟩

/-! ### Registers -/

/-- The general register in which a branch leaves its return word, and through which the protection registers
are read and set. -/
def linkRegister : RegisterNumber := ⟨0, by decide⟩

/-- The general register that selects bits for the instructions that use a mask. -/
def maskRegister : RegisterNumber := ⟨4, by decide⟩

/-- The base register in which a branch leaves its return word. -/
def linkBase : RegisterNumber := ⟨0, by decide⟩

/-- The base register that points to the frame of the current subroutine. -/
def frameBase : RegisterNumber := ⟨1, by decide⟩

/-- The base register that points to the top of the stack. -/
def stackBase : RegisterNumber := ⟨2, by decide⟩

/-- The register after a register; the first comes after the last. -/
def nextRegister (r : RegisterNumber) : RegisterNumber := ⟨(r.val + 1) % 8, Nat.mod_lt _ (by decide)⟩

def psd : Exec Psd := ask Cpu.psd

def modifyPsd (f : Psd → Psd) : Exec Unit := modifyCpu fun c => { c with psd := f c.psd }

/-- The program addresses memory through base registers. -/
def based : Exec Bool := ask fun c => c.psd.based

def codes : Exec ConditionCodes := ask fun c => c.psd.codes

def setCodes (cc : ConditionCodes) : Exec Unit := modifyPsd fun p => p.withCodes cc

def gpr (r : RegisterNumber) : Exec Word := ask fun c => c.gpr.get r

def setGpr (r : RegisterNumber) (w : Word) : Exec Unit :=
  modifyCpu fun c => { c with gpr := c.gpr.set r.val w r.isLt }

def base (r : RegisterNumber) : Exec Word := ask fun c => c.base.get r

def setBase (r : RegisterNumber) (w : Word) : Exec Unit :=
  modifyCpu fun c => { c with base := c.base.set r.val w r.isLt }

/-- A register pair begins with an even register. -/
def requireEven (r : RegisterNumber) : Exec Unit :=
  if r.val % 2 = 0 then pure () else throw .addressSpecification

def pair (r : RegisterNumber) : Exec Double := do
  requireEven r
  ask fun c => joinWords (c.gpr.get r) (c.gpr.get (nextRegister r))

/-- Set the register pair to which a register belongs. -/
def setPair (r : RegisterNumber) (d : Double) : Exec Unit := do
  let r := r &&& 6
  setGpr r (highWord d)
  setGpr (nextRegister r) (lowWord d)

/-! ### Conditions -/

/-- The program is privileged. -/
def requirePrivileged : Exec Unit := do
  if !(← psd).privileged then throw .privilegeViolation

/-- A result that overflowed raises a trap if arithmetic exceptions are enabled. -/
def checkOverflow (overflowed : Bool) : Exec Unit := do
  if overflowed && (← psd).exceptionsEnabled then throw .arithmeticException

/-- Put a result into a register and its sign into the condition codes, unless it traps. -/
def putResult (r : RegisterNumber) (value : Word) (overflowed : Bool) : Exec Unit := do
  checkOverflow overflowed
  setGpr r value
  setCodes (.ofResult value overflowed)

/-- Put a result into a register pair and its sign into the condition codes, unless it traps. -/
def putPairResult (r : RegisterNumber) (value : Double) (overflowed : Bool) : Exec Unit := do
  checkOverflow overflowed
  setPair r value
  setCodes (.ofResult value overflowed)

end Exec
end Concept32
