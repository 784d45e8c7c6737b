import Concept32.Instructions.Loads
import Concept32.Proofs.Instructions.Rights

/-!
# Operands, loads and stores stay inside the rights

Finding an operand only reads. A load or a store changes registers or granted bytes when it completes and nothing
when it traps, except that the store of a file of registers may trap when some of its words are stored.
-/

namespace Concept32.Exec
open Concept32.Core EStateM
variable {o : Operand} {i : Instruction} {next w : Word} {r : RegisterNumber}

/-! ### Operands -/

theorem reads_indexed {reference : Reference} : Reads (indexed reference) := by
  rw [indexed]
  refine .bind ends_ask fun _ => ?_
  dsimp only
  split
  · exact .pure
  · exact .bind ends_ask fun _ => .pure

theorem reads_follow {left : Nat} {reference : Reference} : Reads (follow left reference) := by
  have hcount : Reads (modifyCpu fun c => { c with indirections := c.indirections + 1 }) :=
    ⟨fun {s s' _} h => by cases h; exact ⟨s.cpu.faultAddress, s.cpu.indirections + 1, rfl⟩, fun h => by cases h⟩
  induction left generalizing reference with
  | zero =>
    rw [follow]
    refine .bind reads_indexed fun _ => ?_
    dsimp only
    split
    · exact .pure
    · exact .bind hcount fun _ => .throw
  | succ left ih =>
    rw [follow]
    refine .bind reads_indexed fun _ => ?_
    dsimp only
    split
    · exact .pure
    · exact .bind hcount fun _ => .bind reads_readWord fun _ => ih

theorem reads_operandOf {format : Format} : Reads (operandOf i format next) := by
  have hresolve : ∀ isIndexed, Reads (resolve i isIndexed next) := fun isIndexed => by
    rw [resolve]
    refine .bind ends_ask fun based => ?_
    split
    · refine .bind ends_ask fun _ => ?_
      have hsum : ∀ (mask index : Word) (b : RegisterNumber), Reads (do
          let origin ← if b.val ≠ 0 then base b else pure 0
          let address := (i.displacement + index + origin) &&& mask
          return (⟨i, address, i.fBit, .decode i.fBit address, none, next⟩ : Operand)) := fun _ _ _ => by
        split
        · exact .bind ends_ask fun _ => .pure
        · exact .bind (Q := Same) .pure fun _ => .pure
      dsimp only
      split
      · exact .bind ends_ask fun _ => hsum _ _ _
      · exact .bind (Q := Same) .pure fun _ => hsum _ _ _
    · exact .bind ends_ask fun _ => .bind reads_follow fun _ => .pure
  cases format with
  | halfword => exact .pure
  | immediate => exact .pure
  | memory => exact hresolve true
  | memoryNoIndex => exact hresolve false

theorem reads_readOperand : Reads (readOperand o) := by
  rw [readOperand]
  split
  · exact .bind reads_readByte fun _ => .pure
  · exact .bind reads_readHalf fun _ => .pure
  · exact .bind reads_readHalf fun _ => .pure
  · exact reads_readWord
  · exact .throw

theorem reads_readOperandDouble : Reads (readOperandDouble o) := by
  rw [readOperandDouble]
  split
  · exact reads_readDouble
  · exact .throw

theorem alters_writeOperand : Alters (writeOperand o w) := by
  rw [writeOperand]
  split
  · exact alters_writeByte
  · exact alters_writeHalf
  · exact alters_writeHalf
  · exact alters_writeWord
  · exact .throw

theorem alters_writeOperandDouble {d : Double} : Alters (writeOperandDouble o d) := by
  rw [writeOperandDouble]
  split
  · exact alters_writeDouble
  · exact .throw

/-! ### Memory operands -/

theorem commits_load : Commits (load o) := by
  rw [load]
  split
  · exact .bind reads_requireEven fun _ => .bind reads_readOperandDouble fun _ =>
      .finish alters_putPairResult fun _ => .pure
  · exact .bind reads_readOperand fun _ => .finish alters_putResult fun _ => .pure

theorem commits_loadMasked : Commits (loadMasked o) := by
  rw [loadMasked]
  split
  · exact .bind reads_requireEven fun _ => .bind reads_readOperandDouble fun _ => .bind reads_pair fun _ =>
      .finish alters_putPairResult fun _ => .pure
  · exact .bind reads_readOperand fun _ => .bind ends_ask fun _ => .finish alters_putResult fun _ => .pure

theorem commits_store : Commits (store o) := by
  rw [store]
  split
  · exact .bind reads_pair fun _ => .finish alters_writeOperandDouble fun _ => .pure
  · exact .bind ends_ask fun _ => .finish alters_writeOperand fun _ => .pure

theorem commits_storeMasked : Commits (storeMasked o) := by
  rw [storeMasked]
  split
  · exact .bind reads_pair fun _ => .bind reads_pair fun _ => .finish alters_writeOperandDouble fun _ => .pure
  · exact .bind ends_ask fun _ => .bind ends_ask fun _ => .finish alters_writeOperand fun _ => .pure

theorem commits_storeZero : Commits (storeZero o) := by
  rw [storeZero]
  split
  · exact .finish alters_writeOperandDouble fun _ => .pure
  · exact .finish alters_writeOperand fun _ => .pure

/-! ### Files of registers -/

theorem reads_readWords {count : Nat} {logical : Word} : Reads (readWords count logical) := by
  induction count generalizing logical with
  | zero => exact .pure
  | succ count ih => exact .bind reads_readWord fun _ => .bind ih fun _ => .pure

/-- Every word that is stored before a trap is granted. -/
theorem permitted_writeWords {words : List Word} {logical : Word} : Moves Permitted (writeWords logical words) := by
  induction words generalizing logical with
  | nil => rw [writeWords]; exact .pure ()
  | cons w words ih =>
    rw [writeWords]
    exact .bind (moves_of_alters alters_writeWord) fun _ => ih

theorem reads_usesBaseFile : Reads (usesBaseFile o) :=
  .bind ends_ask fun _ => .pure

theorem commits_loadFile : Commits (loadFile o) := by
  rw [loadFile]
  refine .bind reads_requireAligned fun _ => ?_
  dsimp only
  refine .bind reads_readWords fun _ => ?_
  refine .bind reads_usesBaseFile fun _ => ?_
  split
  · exact .finish (ends_modifyRegisters fun _ => rfl) fun _ => .pure
  · exact .finish (ends_modifyRegisters fun _ => rfl) fun _ => .pure

theorem obeys_storeFile : Ends Obeys Permitted (storeFile o) := by
  rw [storeFile]
  have hstore : ∀ file : Vector Word 8, Ends Obeys Permitted (do
      writeWords o.address (file.toList.drop o.register.val)
      return .next) := fun _ => .finish permitted_writeWords fun _ => .pure
  refine .bind (moves_of_reads reads_requireAligned) fun _ => ?_
  refine .bind (moves_of_reads reads_usesBaseFile) fun _ => ?_
  dsimp only
  split
  · exact .bind (Q := Same) ends_ask hstore
  · exact .bind (Q := Same) ends_ask hstore

/-! ### Addresses -/

theorem commits_loadAddress : Commits (loadAddress o) :=
  .bind ends_ask fun _ => .finish ends_setGpr fun _ => .pure

theorem commits_loadEffectiveAddress : Commits (loadEffectiveAddress o) :=
  .finish ends_setGpr fun _ => .pure

theorem commits_loadRealAddress : Commits (loadRealAddress o) :=
  .bind reads_translate fun _ => .finish ends_setGpr fun _ => .pure

/-! ### Among registers -/

theorem commits_loadWord : Commits (loadWord r w) :=
  .finish alters_putResult fun _ => .pure

theorem commits_copyPair : Commits (copyPair o) :=
  .bind reads_pair fun _ => .bind reads_requireEven fun _ => .finish alters_putPairResult fun _ => .pure

theorem commits_copyFromBase : Commits (copyFromBase o) :=
  .bind ends_ask fun _ => .finish ends_setGpr fun _ => .pure

theorem commits_copyToBase : Commits (copyToBase o) :=
  .bind ends_ask fun _ => .finish ends_setBase fun _ => .pure

theorem commits_exchangeBase : Commits (exchangeBase o) :=
  .bind ends_ask fun _ => .bind ends_ask fun _ => .finish ends_setBase fun _ => .finish ends_setBase fun _ => .pure

theorem commits_loadBase : Commits (loadBase o) :=
  .bind reads_readWord fun _ => .finish ends_setBase fun _ => .pure

theorem commits_storeBase : Commits (storeBase o) :=
  .bind ends_ask fun _ => .finish alters_writeWord fun _ => .pure

theorem commits_addressToBase : Commits (addressToBase o) := by
  rw [addressToBase]
  dsimp only
  split
  · exact .finish ends_setBase fun _ => .pure
  · exact .bind ends_ask fun _ => .finish ends_setBase fun _ => .pure

end Concept32.Exec
