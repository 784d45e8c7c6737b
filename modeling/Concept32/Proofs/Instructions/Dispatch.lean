import Concept32.Instructions.Dispatch
import Concept32.Proofs.Instructions.Arithmetic
import Concept32.Proofs.Instructions.Control

/-!
# Every opcode stays inside the rights

Group by group, each instruction that reaches registers and memory alone stays inside the rights of the program. All
but the few that store several words one after the other do nothing if they trap; supervisor calls leave the
program and stand apart.
-/

namespace Concept32.Exec
open Concept32.Core EStateM
variable {o : Operand}

/-! ### Groups -/

theorem commits_generalGroup : Commits (generalGroup o) := by
  rw [generalGroup]
  split
  · exact commits_halt
  · exact commits_wait
  · exact .pure
  · exact .pure
  · exact commits_loadSwitches
  · exact commits_extendSign
  · exact commits_round
  · exact commits_blockInterrupts
  · exact commits_blockInterrupts
  · exact commits_enableExceptions
  · exact commits_loadStatus
  · exact commits_extendAddressing
  · exact commits_enableExceptions
  · exact commits_extendAddressing
  · exact .throw

theorem commits_andGroup : Commits (andGroup o) := by
  rw [andGroup]
  split
  · exact commits_logicalRegisters
  · exact commits_logicalRegisters
  · exact commits_controlCache
  · exact commits_controlCache
  · exact commits_loadSecondWord
  · exact .throw

theorem commits_registerGroup (h : o.augment ≠ 8) : Commits (registerGroup o) := by
  rw [registerGroup]
  refine .bind ends_ask fun _ => ?_
  split
  · exact commits_branchRegister
  · exact commits_copyToBase
  · exact commits_exchangeBase
  · exact commits_codesToRegister
  · exact commits_registerToCodes
  · exact .bind ends_ask fun _ => commits_branchSubroutine
  · next heq => exact absurd heq h
  · exact commits_nextToBase
  · exact commits_returnFromCall
  · exact .throw

theorem commits_exchangeRegisters : Commits (exchangeRegisters o) := by
  have hcheck : Ends (fun _ => Same) Never (checkOverflow false) := .finish ends_ask fun _ => .pure
  have hput : ∀ value, Ends (fun _ => Permitted) Never (putResult o.register value false) := fun _ =>
    .finish hcheck fun _ => .finish ends_setGpr fun _ => ends_setCodes
  exact .bind ends_ask fun _ => .bind reads_masked fun _ => .bind ends_ask fun _ => .bind reads_masked fun _ =>
    .finish ends_setGpr fun _ => .finish (hput _) fun _ => .pure

theorem commits_transferGroup : Commits (transferGroup o) := by
  rw [transferGroup]
  split
  · exact commits_combineRegisters
  · exact commits_combineRegisters
  · exact commits_copyPair
  · refine .bind ends_ask fun _ => ?_
    split
    · exact commits_copyFromBase
    · exact .throw
  · exact commits_combineRegisters
  · exact commits_combineRegisters
  · exact commits_negateRegister
  · exact commits_negateRegister
  · exact commits_exchangeRegisters
  · exact commits_exchangeRegisters
  · exact commits_loadMapRegister
  · exact commits_setStatus
  · exact commits_mapToRegister
  · exact commits_registerToScratchpad
  · exact commits_scratchpadToRegister
  · exact .throw

theorem commits_addGroup : Commits (addGroup o) := by
  rw [addGroup]
  split
  · exact commits_combineRegisters
  · exact commits_combineRegisters
  · refine .bind ends_ask fun _ => ?_
    split
    · exact .bind ends_ask fun _ => commits_multiply
    · exact .throw
  · refine .bind ends_ask fun _ => ?_
    split
    · exact .bind ends_ask fun _ => commits_divide
    · exact .throw
  · exact commits_floatRegisters
  · exact commits_floatRegisters
  · exact commits_floatRegisters
  · exact commits_floatRegisters
  · exact commits_floatRegisters
  · exact commits_floatRegisters
  · exact commits_floatRegisters
  · exact commits_floatRegisters
  · exact commits_fixWord
  · exact commits_floatFromWord
  · exact commits_fixDouble
  · exact commits_floatFromDouble
  · exact .throw

theorem commits_immediateGroup (h : o.augment ≠ 6) : Commits (immediateGroup o) := by
  rw [immediateGroup]
  split
  · exact commits_loadWord
  · exact commits_combineWord
  · exact commits_combineWord
  · exact commits_multiply
  · exact commits_divide
  · exact commits_compareWord
  · next heq => exact absurd heq h
  · exact .throw

theorem commits_miscellaneousGroup : Commits (miscellaneousGroup o) := by
  rw [miscellaneousGroup]
  split
  · exact commits_storeZero
  · exact commits_branchAndLink
  · exact commits_returnFromInterrupt
  · exact commits_loadStatusDoubleword
  · exact commits_loadStatusDoubleword
  · exact commits_registerToProtection
  · exact commits_protectionToRegister
  · exact .throw

theorem commits_baseGroup (h : ¬(o.fBit = true ∧ o.register.val = 1)) : Commits (baseGroup o) := by
  rw [baseGroup]
  split
  · exact commits_loadBase
  · exact commits_branchSubroutine
  · next hf hr => exact absurd ⟨hf, hr⟩ h
  · exact .throw

/-! ### Opcodes -/

/-- The instructions that store several words one after the other, STF and the calls of subroutines and of the
supervisor; they may trap when some of the words are stored. -/
def storesInSteps (opcode : Opcode) (o : Operand) : Prop :=
  match opcode with
  | .stf | .calm => True
  | .reg => o.augment = 8
  | .lwbr => o.fBit = true ∧ o.register.val = 1
  | .imm => o.augment = 6
  | _ => False

/-- The supervisor calls. -/
def callsSupervisor (opcode : Opcode) (o : Operand) : Prop := opcode = .calm ∨ (opcode = .imm ∧ o.augment = 6)

theorem commits_perform {opcode : Opcode} (h : ¬storesInSteps opcode o) : Commits (perform opcode o) := by
  cases opcode with
  | gen => exact commits_generalGroup
  | anr => exact commits_andGroup
  | orr | eor => exact commits_logicalRegisters
  | car =>
    refine .bind ends_ask fun _ => ?_
    split
    · exact commits_shiftCountZeros
    · exact commits_compareRegisters
  | cmr => exact .bind ends_ask fun _ => commits_compareMasked
  | sbr | zbr | abr | tbr | xbr => rw [perform]; exact commits_bitInRegister
  | reg => exact commits_registerGroup h
  | trr => exact commits_transferGroup
  | calm | stf => exact absurd trivial h
  | la => exact commits_loadAddress
  | adr => exact commits_addGroup
  | sur =>
    rw [perform]
    split
    · exact commits_combineRegisters
    · exact .throw
  | mpr => exact .bind ends_ask fun _ => commits_multiply
  | dvr => exact .bind ends_ask fun _ => commits_divide
  | nor => exact commits_normaliseRegister
  | nord => exact commits_normalisePair
  | scz => exact commits_shiftCountZeros
  | sra | srl | src | srcbr | srad | srld | srbr | srdbr => rw [perform]; exact commits_shift
  | lear => exact commits_loadRealAddress
  | anm | orm | eom => exact commits_logicalMemory
  | cam => exact commits_compareMemory
  | cmm => exact .bind reads_readOperand fun _ => commits_compareMasked
  | sbm | zbm | abm | tbm => rw [perform]; exact commits_bitInMemory
  | l => exact commits_load
  | lm => exact commits_loadMasked
  | ln => exact commits_loadNegative
  | adm | sum => exact commits_combineMemory
  | mpm => exact .bind reads_readOperand fun _ => commits_multiply
  | dvm => exact .bind reads_readOperand fun _ => commits_divide
  | imm => exact commits_immediateGroup h
  | lf => exact commits_loadFile
  | lea => exact commits_loadEffectiveAddress
  | st => exact commits_store
  | stm => exact commits_storeMasked
  | adf | mpf => exact commits_floatMemory
  | arm => exact commits_addToMemory
  | bct => exact commits_branchTrue
  | bcf => exact commits_branchFalse
  | bi => exact commits_branchIncrementing
  | misc => exact commits_miscellaneousGroup
  | stwbr => exact commits_storeBase
  | suabr => exact commits_addressToBase
  | lwbr => exact commits_baseGroup h
  | exm | io => exact .throw

/-- An instruction that does not call the supervisor stays inside the rights, also up to a trap. -/
theorem obeys_perform {opcode : Opcode} (h : ¬callsSupervisor opcode o) : Ends Obeys Permitted (perform opcode o) := by
  have hcommits : ∀ {x : Exec Flow}, Commits x → Ends Obeys Permitted x := fun hx =>
    hx.mono (fun _ _ _ => id) fun _ _ => Same.permitted
  by_cases hsteps : storesInSteps opcode o
  · cases opcode with
    | stf => exact obeys_storeFile
    | calm => exact absurd (.inl rfl) h
    | imm => exact absurd (.inr ⟨rfl, hsteps⟩) h
    | reg =>
      refine .bind (Q := Same) ends_ask fun based => ?_
      rw [show o.augment = 8 from hsteps]
      cases based with
      | true => exact .bind (Q := Same) ends_ask fun _ => obeys_call
      | false => exact .throw
    | lwbr =>
      rw [perform, baseGroup, hsteps.1, hsteps.2]
      exact obeys_call
    | _ => exact absurd hsteps id
  · exact hcommits (commits_perform hsteps)

end Concept32.Exec
