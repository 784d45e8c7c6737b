import Concept32.Instructions.Branches
import Concept32.Instructions.Supervisor
import Concept32.Proofs.Exec
import Concept32.Proofs.Instructions.Rights

/-!
# Branches and control stay inside the rights

A branch takes no more than the condition codes from the word that it goes through, and so does a return. What
reaches beyond the rights of a program checks the privilege before it does anything.
-/

namespace Concept32.Exec
open Concept32.Core EStateM
variable {S : Core → Core → Prop} {o : Operand} {r : RegisterNumber}

/-! ### Branches -/

theorem ends_branch : Ends Obeys S (branch o) := by
  rw [branch]
  dsimp only
  split
  · exact .finish ends_setCodes fun _ => .pure
  · exact .pure

theorem commits_branchTrue : Commits (branchTrue o) := by
  rw [branchTrue]
  refine .bind ends_ask fun _ => ?_
  split
  · exact ends_branch
  · exact .pure

theorem commits_branchFalse : Commits (branchFalse o) := by
  have hbranch : ∀ taken : Bool, Commits (if taken then branch o else pure .next) := fun taken => by
    split
    · exact ends_branch
    · exact .pure
  rw [branchFalse]
  refine .bind ends_ask fun _ => ?_
  dsimp only
  split
  · exact .bind ends_ask fun _ => .bind (Q := Same) .pure hbranch
  · exact .bind (Q := Same) .pure hbranch

theorem commits_branchIncrementing : Commits (branchIncrementing o) := by
  rw [branchIncrementing]
  refine .bind ends_ask fun _ => ?_
  dsimp only
  refine .finish ends_setGpr fun _ => ?_
  split
  · exact ends_branch
  · exact .pure

theorem commits_branchRegister : Commits (branchRegister r) :=
  .bind ends_ask fun _ => .finish ends_setCodes fun _ => .pure

/-! ### Linkage -/

theorem ends_returnWord : Ends (fun _ => Same) S (returnWord o) :=
  .finish ends_ask fun _ => .pure

theorem commits_branchAndLink : Commits (branchAndLink o) :=
  .bind ends_returnWord fun _ => .finish ends_setGpr fun _ => ends_branch

theorem commits_branchSubroutine {target : Word} : Commits (branchSubroutine o target) :=
  .bind ends_returnWord fun _ => .finish ends_setBase fun _ => .pure

/-- A call may trap when it has stored the first word of its frame, which is granted. -/
theorem obeys_call {target : Word} : Ends Obeys Permitted (call o target) :=
  .bind (Q := Same) ends_ask fun _ => .bind (Q := Same) ends_returnWord fun _ => .bind (Q := Same) ends_ask fun _ =>
    .bind (moves_of_alters alters_writeWord) fun _ => .bind (moves_of_alters alters_writeWord) fun _ =>
      .finish ends_setBase fun _ => .finish ends_setBase fun _ => .pure

theorem commits_returnFromCall : Commits returnFromCall :=
  .bind ends_ask fun _ => .bind reads_readWord fun _ => .bind reads_readWord fun _ =>
    .finish ends_setBase fun _ => .finish ends_setBase fun _ => .finish ends_setCodes fun _ => .pure

theorem commits_nextToBase : Commits (nextToBase o) :=
  .finish ends_setBase fun _ => .pure

/-! ### Modes and the status word -/

theorem commits_halt : Commits halt := by
  have hrun : ∀ {s : Core}, halt s = if s.cpu.psd.privileged then .ok .halt s else .error .privilegedHalt s :=
    fun {s} => by
      show (if !s.cpu.psd.privileged then throw .privilegedHalt else pure .halt : Exec Flow) s = _
      cases s.cpu.psd.privileged
      · rfl
      · rfl
  refine commits_of_guarded ⟨fun {s _ _} h => ?_, fun {s _ _} h => ?_⟩
  · rw [hrun] at h
    split at h
    · next hp => exact hp
    · cases h
  · rw [hrun] at h
    split at h <;> cases h
    exact Std.Refl.refl _

theorem commits_wait : Commits wait :=
  commits_of_guarded (guarded_requirePrivileged fun _ => .pure)

theorem commits_loadSwitches : Commits (loadSwitches r) :=
  .bind ends_ask fun _ => .finish ends_setGpr fun _ => .pure

theorem commits_blockInterrupts {blocked : Bool} : Commits (blockInterrupts blocked) :=
  commits_of_guarded (guarded_requirePrivileged fun _ => .finish anyhow_modifyCpu fun _ => .pure)

theorem commits_enableExceptions {on : Bool} : Commits (enableExceptions on) :=
  .finish (ends_modifyPsd (fun _ => Psd.privileged_withExceptions) fun _ => rfl) fun _ => .pure

theorem commits_extendAddressing {on : Bool} : Commits (extendAddressing on) := by
  have hset : Commits (do modifyPsd fun p => p.withExtended on; return .next) :=
    .finish (ends_modifyPsd (fun _ => Psd.privileged_withExtended) fun _ => rfl) fun _ => .pure
  rw [extendAddressing]
  refine .bind ends_ask fun _ => ?_
  split
  · exact .throw
  · exact hset

theorem commits_loadStatus : Commits (loadStatus r) :=
  commits_of_guarded (guarded_requirePrivileged fun _ => .bind ends_ask fun _ => .finish ends_setGpr fun _ => .pure)

theorem commits_setStatus : Commits (setStatus r) :=
  commits_of_guarded (guarded_requirePrivileged fun _ =>
    .bind ends_ask fun _ => .finish anyhow_modifyCpu fun _ => .pure)

theorem commits_loadSecondWord : Commits (loadSecondWord r) :=
  .bind ends_ask fun _ => .bind ends_ask fun _ => .finish ends_setGpr fun _ => .pure

theorem commits_controlCache : Commits controlCache :=
  commits_of_guarded (guarded_requirePrivileged fun _ => .pure)

theorem commits_codesToRegister : Commits (codesToRegister r) :=
  .bind ends_ask fun _ => .finish ends_setGpr fun _ => .pure

theorem commits_registerToCodes : Commits (registerToCodes r) :=
  .bind ends_ask fun _ => .finish ends_setCodes fun _ => .pure

/-! ### Scratchpad, map and protection -/

theorem anyhow_loadMap {cpix : Word} : Ends (fun _ => Anyhow) Same (loadMap cpix) where
  ok _ := trivial
  error h := by rw [loadMap_eq] at h; split at h <;> cases h; exact Std.Refl.refl _

theorem commits_loadMapRegister : Commits (loadMapRegister r) :=
  commits_of_guarded (guarded_requirePrivileged fun _ =>
    .bind ends_ask fun _ => .finish anyhow_loadMap fun _ => .pure)

theorem commits_mapToRegister : Commits (mapToRegister o) :=
  commits_of_guarded (guarded_requirePrivileged fun _ =>
    .bind ends_ask fun _ => .bind ends_ask fun _ => .finish ends_setGpr fun _ => .pure)

theorem commits_registerToScratchpad : Commits (registerToScratchpad o) :=
  commits_of_guarded (guarded_requirePrivileged fun _ =>
    .bind ends_ask fun _ => .bind ends_ask fun _ => .finish anyhow_modifyCpu fun _ => .pure)

theorem commits_scratchpadToRegister : Commits (scratchpadToRegister o) :=
  commits_of_guarded (guarded_requirePrivileged fun _ =>
    .bind ends_ask fun _ => .bind ends_ask fun _ => .finish ends_setGpr fun _ => .pure)

theorem commits_registerToProtection : Commits (registerToProtection o) :=
  commits_of_guarded (guarded_requirePrivileged fun _ =>
    .bind ends_ask fun _ => .finish anyhow_modifyCpu fun _ => .pure)

theorem commits_protectionToRegister : Commits (protectionToRegister o) :=
  commits_of_guarded (guarded_requirePrivileged fun _ =>
    .bind ends_ask fun _ => .finish ends_setGpr fun _ => .pure)

/-! ### Status doublewords -/

/-- A status doubleword is put in force as a whole, or not at all if its map cannot be loaded. -/
theorem anyhow_loadPsd {p : Psd} {changeMaps : Bool} : Ends (fun _ => Anyhow) Same (loadPsd p changeMaps) := by
  rw [loadPsd_eq]
  split
  · exact .finish anyhow_loadMap fun _ => anyhow_modifyCpu
  · exact anyhow_modifyCpu.mono (fun _ _ _ => id) fun _ _ => False.elim

theorem guarded_loadPsdOperand {changeMaps : Option Bool} :
    Ends (fun _ => Guarded) Same (loadPsdOperand o changeMaps) :=
  guarded_requirePrivileged fun _ => .bind reads_readDouble fun _ => anyhow_loadPsd

theorem commits_returnFromInterrupt : Commits (returnFromInterrupt o) := by
  refine commits_of_guarded (guarded_finish guarded_loadPsdOperand fun _ => .finish ends_ask fun _ => ?_)
  split
  · exact .finish anyhow_modifyCpu fun _ => .pure
  · exact .pure

theorem commits_loadStatusDoubleword {changeMaps : Bool} : Commits (loadStatusDoubleword o changeMaps) :=
  commits_of_guarded (guarded_finish guarded_loadPsdOperand fun _ => .pure)

end Concept32.Exec
