import Concept32.Cpu.Context

/-!
# Delivery of traps

A trap is delivered by an exchange of status doublewords through the context block that the trap table has
for it. It halts the machine when traps are disabled, when there is no block, or when the exchange cannot
be made; a supervisor call is delivered even if traps are disabled.
-/

namespace Concept32

/-- Something that halts the machine when a trap cannot be delivered. -/
abbrev Delivery (α : Type) := EStateM TrapHalt Core α

namespace Delivery

def haltOn {α : Type} (now : Nat) (t : Trap) : Delivery α := fun ⟨cpu, memory⟩ =>
  .error ⟨t, cpu.psd, now⟩ ⟨{ cpu with mode := .halted }, memory⟩

/-- Do something that may raise a trap; the machine halts on `t` if it does. -/
def orHalt {α : Type} (now : Nat) (t : Trap) (x : Exec α) : Delivery α := fun core =>
  match x core with
  | .ok a core => .ok a core
  | .error _ core => haltOn now t core

/-- Do something that may raise a trap; the machine halts on the trap that it raises. -/
def orHaltOnTrap {α : Type} (now : Nat) (x : Exec α) : Delivery α := fun core =>
  match x core with
  | .ok a core => .ok a core
  | .error t core => haltOn now t core

def modifyCpu (f : Cpu → Cpu) : Delivery Unit := fun ⟨cpu, memory⟩ => .ok () ⟨f cpu, memory⟩

/-- Store the status words of a trap in its context block and exchange status doublewords. -/
def enter (t : Trap) (block resume : Word) : Exec Unit := do
  match t.statusWords (← Exec.ask Cpu.faultAddress) with
  | some (word4, word5) =>
    Exec.toMemory (Memory.writeWord (block + 16) word4)
    Exec.toMemory (Memory.writeWord (block + 20) word5)
  | none => pure ()
  Exec.exchange block resume

/-- The context block of a trap, if the trap can be delivered. -/
def blockOf? (core : Core) (t : Trap) : Option Word :=
  if t = .supervisorCall || core.cpu.trapsEnabled then
    core.memory.contextBlock? (core.cpu.trapEntry t)
  else none

/-- Deliver a trap; the program that raised it is to go on at `resume`. -/
def takeTrap (now : Nat) (t : Trap) (resume : Word) : Delivery Unit := do
  match blockOf? (← get) t with
  | none => haltOn now t
  | some block =>
    orHalt now t (enter t block resume)
    modifyCpu fun c => { c with mode := .running }

end Delivery
end Concept32
