import Concept32.Opcode

/-!
# Instruction timing

How long instructions take, in nanoseconds of simulated time. The figures are those of a processor in the
middle of the family; they serve to pace devices against programs.
-/

namespace Concept32.Timing

/-- The time to take a trap when an instruction cannot be fetched. -/
def trap : Nat := 1200

/-- The time to take an interrupt. -/
def interrupt : Nat := 1500

/-- What the shape of an instruction costs, in tenths of a microsecond. -/
def shapeCost (i : Instruction) (based : Bool) : Nat :=
  match (i.opcode? based).map Opcode.format with
  | some .halfword | none => 3
  | some .immediate => 4
  | some .memory | some .memoryNoIndex => 6

/-- What the operation of an instruction costs besides, in tenths of a microsecond. -/
def operationCost (i : Instruction) : Nat :=
  match i.opcodeByte.toNat, i.augment with
  | 0x40, _ | 0xC0, _ | 0xC8, 3 => 24
  | 0x44, _ | 0xC4, _ | 0xC8, 4 => 64
  | 0xCC, _ | 0xDC, _ => 16
  | 0xE0, _ => 12
  | 0xE4, _ => 40
  | 0x38, 1 | 0x38, 3 | 0x38, 9 | 0x38, 11 => 12
  | 0x38, 4 | 0x38, 6 | 0x38, 12 | 0x38, 14 => 40
  | 0xFC, _ => 20
  | _, _ => 0

/-- The time that an instruction takes, given the indirect words that it followed. -/
def instruction (i : Instruction) (based : Bool) (indirections : Nat) : Nat :=
  100 * (shapeCost i based + operationCost i + 6 * indirections)

end Concept32.Timing
