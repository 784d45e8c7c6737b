import Concept32.Instructions.Floating
import Concept32.Instructions.Logic
import Concept32.Instructions.Shifts
import Concept32.Proofs.Instructions.Loads

/-!
# Arithmetic stays inside the rights

An operation reads its operands, raises a trap if its result overflowed and arithmetic exceptions are enabled, and
only then puts its result into registers or granted bytes.
-/

namespace Concept32.Exec
open Concept32.Core EStateM
variable {o : Operand} {r : RegisterNumber}

/-! ### Integers -/

theorem reads_masked {value : Word} : Reads (masked o value) := by
  rw [masked]
  split
  · exact .bind ends_ask fun _ => .pure
  · exact .pure

theorem commits_combineRegisters {f : Word → Word → Word × Bool} : Commits (combineRegisters o f) :=
  .bind ends_ask fun _ => .bind ends_ask fun _ => .bind reads_masked fun _ => .finish alters_putResult fun _ => .pure

theorem commits_combineWord {operand : Word} {f : Word → Word → Word × Bool} : Commits (combineWord r operand f) :=
  .bind ends_ask fun _ => .finish alters_putResult fun _ => .pure

theorem commits_combineMemory {f : {n : Nat} → BitVec n → BitVec n → BitVec n × Bool} :
    Commits (combineMemory o f) := by
  rw [combineMemory]
  dsimp only
  split
  · exact .bind reads_pair fun _ => .bind reads_readOperandDouble fun _ => .finish alters_putPairResult fun _ => .pure
  · exact .bind reads_readOperand fun _ => commits_combineWord

theorem commits_multiply {multiplier : Word} : Commits (multiply r multiplier) :=
  .bind reads_requireEven fun _ => .bind ends_ask fun _ => .finish alters_putPairResult fun _ => .pure

theorem commits_divide {divisor : Word} : Commits (divide r divisor) := by
  rw [divide]
  refine .bind reads_pair fun _ => ?_
  dsimp only
  split
  · exact .finish ends_setGpr fun _ => .finish ends_setGpr fun _ => .finish ends_setCodes fun _ => .pure
  · exact .bind reads_checkOverflow fun _ => .finish ends_setCodes fun _ => .pure

theorem commits_negateRegister : Commits (negateRegister o) :=
  .bind ends_ask fun _ => .bind reads_masked fun _ => .finish alters_putResult fun _ => .pure

theorem commits_loadNegative : Commits (loadNegative o) := by
  rw [loadNegative]
  dsimp only
  split
  · exact .bind reads_requireEven fun _ => .bind reads_readOperandDouble fun _ =>
      .finish alters_putPairResult fun _ => .pure
  · exact .bind reads_readOperand fun _ => .finish alters_putResult fun _ => .pure

theorem commits_round : Commits (round r) :=
  .bind reads_requireEven fun _ => .bind ends_ask fun _ => .bind ends_ask fun _ =>
    .finish alters_putResult fun _ => .pure

theorem commits_extendSign : Commits (extendSign r) :=
  .bind ends_ask fun _ => .finish ends_setGpr fun _ => .finish ends_setCodes fun _ => .pure

theorem commits_addToMemory : Commits (addToMemory o) := by
  rw [addToMemory]
  dsimp only
  split
  · exact .bind reads_readOperandDouble fun _ => .bind reads_pair fun _ => .bind reads_checkOverflow fun _ =>
      .finish alters_writeOperandDouble fun _ => .finish ends_setCodes fun _ => .pure
  all_goals
    exact .bind reads_readOperand fun _ => .bind ends_ask fun _ => .bind reads_checkOverflow fun _ =>
      .finish alters_writeOperand fun _ => .finish ends_setCodes fun _ => .pure

/-! ### Comparison -/

theorem commits_compareRegisters : Commits (compareRegisters o) :=
  .bind ends_ask fun _ => .bind ends_ask fun _ => .finish ends_setCodes fun _ => .pure

theorem commits_compareWord {operand : Word} : Commits (compareWord r operand) :=
  .bind ends_ask fun _ => .finish ends_setCodes fun _ => .pure

theorem commits_compareMemory : Commits (compareMemory o) := by
  rw [compareMemory]
  split
  · exact .bind reads_readOperandDouble fun _ => .bind reads_pair fun _ => .finish ends_setCodes fun _ => .pure
  · exact .bind reads_readOperand fun _ => commits_compareWord

theorem commits_compareMasked {operand : Word} : Commits (compareMasked r operand) :=
  .bind ends_ask fun _ => .bind ends_ask fun _ => .finish ends_setCodes fun _ => .pure

/-! ### Logic and bits -/

theorem commits_logicalRegisters {f : LogicalOperation} : Commits (logicalRegisters o f) := by
  rw [logicalRegisters]
  split
  · exact commits_combineRegisters
  · exact .throw

theorem commits_logicalMemory {f : LogicalOperation} : Commits (logicalMemory o f) := by
  rw [logicalMemory]
  split
  · exact .bind reads_pair fun _ => .bind reads_readOperandDouble fun _ => .finish alters_putPairResult fun _ => .pure
  · exact .bind reads_readOperand fun _ => commits_combineWord

theorem ends_putBitCodes {S : Core → Core → Prop} {operation : BitOperation} {mask before after : Word}
    {overflowed : Bool} : Ends (fun _ => Permitted) S (putBitCodes operation mask before after overflowed) := by
  rw [putBitCodes]
  split
  · exact ends_setCodes
  · exact .finish ends_ask fun _ => ends_setCodes

theorem commits_bitInRegister {operation : BitOperation} : Commits (bitInRegister o operation) :=
  .bind ends_ask fun _ => .bind reads_checkOverflow fun _ =>
    .finish ends_setGpr fun _ => .finish ends_putBitCodes fun _ => .pure

theorem commits_bitInMemory {operation : BitOperation} : Commits (bitInMemory o operation) := by
  rw [bitInMemory]
  dsimp only
  split
  · exact .throw
  · refine .bind reads_readWord fun _ => .bind reads_checkOverflow fun _ => ?_
    split
    · exact .finish alters_writeWord fun _ => .finish ends_putBitCodes fun _ => .pure
    · exact .finish ends_putBitCodes fun _ => .pure

theorem commits_normaliseRegister : Commits (normaliseRegister o) :=
  .bind ends_ask fun _ => .finish ends_setGpr fun _ => .finish ends_setGpr fun _ =>
    .finish ends_setCodes fun _ => .pure

theorem commits_normalisePair : Commits (normalisePair o) :=
  .bind reads_pair fun _ => .finish ends_setPair fun _ => .finish ends_setGpr fun _ =>
    .finish ends_setCodes fun _ => .pure

theorem commits_shiftCountZeros : Commits (shiftCountZeros o) := by
  rw [shiftCountZeros]
  refine .bind ends_ask fun _ => ?_
  split
  · exact .finish ends_setGpr fun _ => .finish ends_setCodes fun _ => .pure
  · exact .finish ends_setGpr fun _ => .finish ends_setGpr fun _ => .finish ends_setCodes fun _ => .pure

/-! ### Shifts -/

theorem commits_shift {shift : Shift} : Commits (Exec.shift o shift) := by
  rw [Exec.shift]
  dsimp only
  split
  · refine .bind reads_pair fun _ => ?_
    split
    · exact .finish alters_putPairResult fun _ => .pure
    · exact .finish ends_setPair fun _ => .pure
  · refine .bind ends_ask fun _ => ?_
    split
    · exact .finish alters_putResult fun _ => .pure
    · exact .finish ends_setGpr fun _ => .pure

/-! ### Floating point -/

theorem commits_floatWord {f : FloatOperation} {operand : Word} : Commits (floatWord f r operand) :=
  .bind ends_ask fun _ => .finish alters_putResult fun _ => .pure

theorem commits_floatDouble {f : FloatOperation} {operand : Double} : Commits (floatDouble f r operand) :=
  .bind reads_pair fun _ => .finish alters_putPairResult fun _ => .pure

theorem commits_floatRegisters {f : FloatOperation} : Commits (floatRegisters o f) := by
  rw [floatRegisters]
  split
  · exact .bind reads_pair fun _ => commits_floatDouble
  · exact .bind ends_ask fun _ => commits_floatWord

theorem commits_floatMemory {f : FloatOperation} : Commits (floatMemory o f) := by
  rw [floatMemory]
  split
  · exact .bind reads_readWord fun _ => commits_floatWord
  · exact .bind reads_readDouble fun _ => commits_floatDouble
  · exact .throw

theorem commits_fixWord : Commits (fixWord o) :=
  .bind ends_ask fun _ => .finish alters_putResult fun _ => .pure

theorem commits_fixDouble : Commits (fixDouble o) :=
  .bind reads_requireEven fun _ => .bind reads_pair fun _ => .finish alters_putPairResult fun _ => .pure

theorem commits_floatFromWord : Commits (floatFromWord o) :=
  .bind ends_ask fun _ => .finish alters_putResult fun _ => .pure

theorem commits_floatFromDouble : Commits (floatFromDouble o) :=
  .bind reads_requireEven fun _ => .bind reads_pair fun _ => .finish alters_putPairResult fun _ => .pure

end Concept32.Exec
