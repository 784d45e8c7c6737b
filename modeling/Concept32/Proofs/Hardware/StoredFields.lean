import Concept32.Instructions.Dispatch
import Concept32.Proofs.Addressing
import Concept32.Proofs.Hardware.Operands
import Concept32.Proofs.Instructions.Places
import Concept32.Proofs.Signed

/-!
# Storing and loading a field

A store puts the low bytes of a register, or a register pair, into the field of its operand and changes no other byte. A
load of the same operand gives back what has been stored there.
-/

namespace Concept32

namespace Core
variable {s : Core} {o o' : Operand} {p : Word}

end Core

namespace Exec
open Concept32.Core EStateM
variable {s : Core} {o : Operand} {physical : Word}

/-! ### Stores -/

end Exec

/-! ### Stores and loads of one operand -/

namespace Hardware
open Concept32.Core EStateM
variable {δ ω : Type} [Peripheral δ ω] {s : Hardware δ ω} {core : Core} {i : Instruction} {next physical physical' : Word}
  {opcode : Opcode} {o : Operand}

end Hardware
end Concept32
