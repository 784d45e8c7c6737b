import Concept32.Model

/-!
# Machine configurations

A configuration names a model, a size of memory and the number of instructions to remember. Not every
combination can be built.
-/

namespace Concept32

/-- What a machine is built from. -/
structure Configuration where
  model : Model
  memory : MemorySize
  /-- How many executed instructions are remembered. -/
  history : Nat
  deriving DecidableEq, Repr

inductive ConfigurationError
  | memoryTooLarge (model : Model) (memory : MemorySize)
  | historyTooLong (history : Nat)
  deriving DecidableEq, Repr

/-- The longest history that a machine keeps. -/
def maxHistory : Nat := 1048576

def ConfigurationError.message : ConfigurationError → String
  | .memoryTooLarge model memory =>
    "model " ++ model.name ++ " cannot address " ++ memory.name ++ " of memory"
  | .historyTooLong history =>
    "instruction history of " ++ toString history ++ " entries is longer than the limit of " ++
      toString maxHistory

namespace Configuration

/-- The machine that is built when nothing is asked for. -/
def standard : Configuration := ⟨.c3227, .m2, 0⟩

/-- A model without extended addressing reaches 512 KB, and a history has a longest length. -/
def validate (c : Configuration) : Except ConfigurationError Unit :=
  if !c.model.hasExtendedAddressing && 0x80000 < c.memory.bytes then
    .error (.memoryTooLarge c.model c.memory)
  else if maxHistory < c.history then .error (.historyTooLong c.history)
  else .ok ()

end Configuration
end Concept32
