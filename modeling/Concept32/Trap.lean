import Concept32.Memory
import Concept32.Psd
import Concept32.Text.Duration

/-!
# Traps

A trap is raised by an instruction that cannot be carried out. Each has a vector, by which the context
block that handles it is found in the trap table. A trap that software has made no provision for halts
the machine.
-/

namespace Concept32

/-- The traps of the machine. -/
inductive Trap
  | powerFail
  | powerOn
  | memoryParity
  /-- A physical address lies beyond the end of memory. -/
  | nonPresentMemory
  | undefinedInstruction
  /-- A privileged instruction in an unprivileged program, or an access that a map entry forbids. -/
  | privilegeViolation
  | supervisorCall
  | machineCheck
  /-- A channel instruction for a channel that is not set up for them. -/
  | systemCheck
  /-- A mapped access to a page without a valid map entry. -/
  | mapFault
  | ipuUndefined
  | signalIpu
  /-- An operand that is not aligned, a register pair that begins with an odd register, or a chain of
  indirect words without an end. -/
  | addressSpecification
  | consoleAttention
  | privilegedHalt
  | arithmeticException
  | cacheError
  /-- A mapped access to a page that is not resident. -/
  | demandPage (page : Word)
  deriving DecidableEq, Repr

namespace Trap

/-- Every trap, in the order of the trap table; the last is for a page. -/
def all (page : Word) : List Trap :=
  [.powerFail, .powerOn, .memoryParity, .nonPresentMemory, .undefinedInstruction, .privilegeViolation,
    .supervisorCall, .machineCheck, .systemCheck, .mapFault, .ipuUndefined, .signalIpu,
    .addressSpecification, .consoleAttention, .privilegedHalt, .arithmeticException, .cacheError,
    .demandPage page]

/-- The place of the trap in the trap table, counted in bytes from `0x80`. -/
def tableOffset : Trap → Nat
  | .powerFail => 0x00
  | .powerOn => 0x04
  | .memoryParity => 0x08
  | .nonPresentMemory => 0x0C
  | .undefinedInstruction => 0x10
  | .privilegeViolation => 0x14
  | .supervisorCall => 0x18
  | .machineCheck => 0x1C
  | .systemCheck => 0x20
  | .mapFault => 0x24
  | .ipuUndefined => 0x28
  | .signalIpu => 0x2C
  | .addressSpecification => 0x30
  | .consoleAttention => 0x34
  | .privilegedHalt => 0x38
  | .arithmeticException => 0x3C
  | .cacheError => 0x40
  | .demandPage _ => 0x44

/-- The vector of the trap. -/
def vector (t : Trap) : Nat := 0x80 + t.tableOffset

def name : Trap → String
  | .powerFail => "power fail"
  | .powerOn => "power on"
  | .memoryParity => "memory parity"
  | .nonPresentMemory => "non-present memory"
  | .undefinedInstruction => "undefined instruction"
  | .privilegeViolation => "privilege violation"
  | .supervisorCall => "supervisor call"
  | .machineCheck => "machine check"
  | .systemCheck => "system check"
  | .mapFault => "map fault"
  | .ipuUndefined => "IPU undefined instruction"
  | .signalIpu => "signal IPU"
  | .addressSpecification => "address specification"
  | .consoleAttention => "console attention"
  | .privilegedHalt => "privileged halt"
  | .arithmeticException => "arithmetic exception"
  | .cacheError => "cache error"
  | .demandPage _ => "demand page"

/-- What a trap leaves in the status words of its context block, given the logical address of the
access that failed. -/
def statusWords (t : Trap) (failing : Word) : Option (Word × Word) :=
  match t with
  | .demandPage page => some (failing, page)
  | _ => none

/-- The trap, its vector and, if it is for a page, the page. -/
def text (t : Trap) : String :=
  let plain := t.name ++ " trap (vector " ++ hex 2 t.vector ++ ")"
  match t with
  | .demandPage page => plain ++ " for page " ++ hex 1 page.toNat
  | _ => plain

/-- The trap that a refusal of memory raises. -/
def ofMemoryError : MemoryError → Trap
  | .nonPresent _ => .nonPresentMemory
  | .misaligned _ => .addressSpecification

end Trap

/-- A trap that could not be delivered to software and halted the machine. -/
structure TrapHalt where
  trap : Trap
  /-- The status doubleword when the trap was raised. -/
  psd : Psd
  /-- The simulated time, in nanoseconds. -/
  time : Nat
  deriving DecidableEq, Repr

def TrapHalt.message (h : TrapHalt) : String :=
  "halted on " ++ h.trap.text ++ " at PSD " ++ h.psd.text ++ " (simulated time " ++
    durationText h.time ++ ")"

end Concept32
