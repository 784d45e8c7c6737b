import Concept32.Proofs.Hardware.Operands
import Concept32.Proofs.Hardware.Raising
import Concept32.Proofs.Hardware.Returning
import Concept32.Proofs.RoundTrip

/-!
# What a supervisor call leaves behind

A supervisor call saves the old status doubleword, loads a map, puts the new status doubleword in force and stores its
number, in this order. If one of these steps fails, what has been done before it stays done: the call is complete
exactly if its context block lies in memory up to the number and the map can be loaded.
-/

namespace Concept32

/-- The index and the number of a supervisor call. -/
def Instruction.call (i : Instruction) (based : Bool) : Nat × Word :=
  if i.opcode? based = some .calm then (0, (i.bits >>> 16) &&& 0x3FF#32)
  else ((i.bits.extractLsb' 12 4).toNat, i.bits &&& 0xFFF#32)

/-- A supervisor call is no execute instruction. -/
theorem Instruction.isExecute_of_calls {i : Instruction} {based : Bool} (h : i.callsSupervisor based) :
    i.isExecute = false := by
  have honly : ∀ n : Fin 64, ∀ opcode ∈ [Opcode.calm, .imm],
      (Opcode.basedTable.get n = some opcode ∨ Opcode.nonBasedTable.get n = some opcode) →
        n = if opcode = .calm then 12 else 50 := by decide
  have hindex : ∀ opcode ∈ [Opcode.calm, .imm], i.opcode? based = some opcode →
      i.bits.extractLsb' 26 6 = BitVec.ofFin (if opcode = .calm then 12 else 50) := fun opcode hopcode h => by
    rw [opcode?] at h
    refine congrArg BitVec.ofFin (show i.opcodeIndex = _ from ?_)
    split at h
    · exact honly _ opcode hopcode (.inl h)
    · exact honly _ opcode hopcode (.inr h)
  rcases h with hcalm | ⟨himm, haugment⟩
  · rw [isExecute, opcodeByte_eq, hindex .calm (by decide) hcalm]
    rfl
  · rw [isExecute, opcodeByte_eq, hindex .imm (by decide) himm, haugment]
    rfl

namespace Core
variable {s u : Core} {block next number : Word} {map : AddressMap} {index : Nat}

/-- The context block that is selected by the index of a supervisor call. -/
def callBlock? (s : Core) (index : Nat) : Option Word :=
  match s.memory.contextBlock? (s.cpu.trapEntry .supervisorCall) with
  | none => none
  | some block =>
    match s.memory.readWord (block + 16) with
    | .ok table => s.memory.contextBlock? ((table &&& 0x00FFFFFC#32) + BitVec.ofNat 32 (4 * index))
    | .error _ => none

/-- The map under the status doubleword of a context block, once that of the program has been saved there. -/
def callMap (s : Core) (block next : Word) : Except MapLoadError AddressMap :=
  s.cpu.mapUnder (s.saved block next) ((s.saved block next).routine block)

/-- The processor under the status doubleword of a context block. -/
def underCall (s : Core) (block next : Word) (map : AddressMap) : Cpu :=
  Exec.enforced ((s.saved block next).routine block) { s.cpu with map := map }

/-- A supervisor call through a context block can be completed. -/
structure Callable (s : Core) (block next : Word) : Prop where
  fits : block.toNat + 24 ≤ s.memory.sizeBytes
  map : ∃ map, s.callMap block next = .ok map

/-- What a supervisor call leaves that is complete. -/
def called (s : Core) (block next number : Word) (map : AddressMap) : Core :=
  ⟨s.underCall block next map, (s.saved block next).stored (block + 20) number⟩

/-- What a supervisor call leaves that cannot be completed: the words of the old status doubleword are saved as far as
there is memory, and the new one is in force if it could be loaded. -/
def abandoned (s : Core) (block next : Word) : Core :=
  match s.callMap block next with
  | .ok map => if block.toNat + 16 ≤ s.memory.sizeBytes then ⟨s.underCall block next map, s.saved block next⟩
    else ⟨s.cpu, s.saved block next⟩
  | .error _ => ⟨s.cpu, s.saved block next⟩

/-- A supervisor call is complete: the program is suspended in the context block, the number of the call stands there,
and the status doubleword of the block is in force. -/
structure Calls (s : Core) (block next number : Word) (u : Core) : Prop where
  saved : u.memory.readWord block = .ok (s.cpu.psd.suspended next s.cpu.interruptsBlocked).word1 ∧
    u.memory.readWord (block + 4) = .ok (s.cpu.psd.suspended next s.cpu.interruptsBlocked).word2
  number : u.memory.readWord (block + 20) = .ok number
  runs : RunsFrom block u
  blocked : u.cpu.interruptsBlocked = u.cpu.psd.blocks s.cpu.interruptsBlocked
  map : s.callMap block next = .ok u.cpu.map

theorem Same.symm (h : Same s u) : Same u s := by
  obtain ⟨_, _, rfl⟩ := h
  exact ⟨s.cpu.faultAddress, s.cpu.indirections, rfl⟩

theorem callBlock?_of_same (h : Same s u) : u.callBlock? index = s.callBlock? index := by
  obtain ⟨_, _, rfl⟩ := h
  rfl

theorem callable_of_same (h : Same s u) : u.Callable block next ↔ s.Callable block next := by
  obtain ⟨_, _, rfl⟩ := h
  exact ⟨fun h => ⟨h.fits, h.map⟩, fun h => ⟨h.fits, h.map⟩⟩

theorem calls_of_same (h : Same s u) {v : Core} (hcalls : Calls u block next number v) : Calls s block next number v := by
  obtain ⟨_, _, rfl⟩ := h
  exact ⟨hcalls.saved, hcalls.number, hcalls.runs, hcalls.blocked, hcalls.map⟩

theorem enforced_notes (p : Psd) (c : Cpu) (address : Word) (count : Nat) :
    Exec.enforced p { c with faultAddress := address, indirections := count } =
      { Exec.enforced p c with faultAddress := address, indirections := count } := by
  rw [Exec.enforced, Exec.enforced]
  cases p.blocking with
  | block => rfl
  | unblock => rfl
  | retain => rfl

/-- The notes about the current instruction have no part in a call. -/
theorem same_abandoned (h : Same s u) : Same (s.abandoned block next) (u.abandoned block next) := by
  obtain ⟨address, count, rfl⟩ := h
  refine ⟨address, count, ?_⟩
  have hunder : ∀ map, underCall ⟨{ s.cpu with faultAddress := address, indirections := count }, s.memory⟩ block next map =
      { s.underCall block next map with faultAddress := address, indirections := count } :=
    fun map => enforced_notes _ { s.cpu with map := map } address count
  have hmap : callMap ⟨{ s.cpu with faultAddress := address, indirections := count }, s.memory⟩ block next =
      s.callMap block next := rfl
  rw [abandoned, abandoned, hmap]
  cases s.callMap block next with
  | ok map =>
    dsimp only
    rw [hunder]
    split
    · rfl
    · rfl
  | error e => rfl

theorem calls_called (haligned : block.toNat % 4 = 0) (hfits : block.toNat + 24 ≤ s.memory.sizeBytes)
    (hmap : s.callMap block next = .ok map) : Calls s block next number (s.called block next number map) := by
  have hplace : ∀ k ≤ 0x100, (block + BitVec.ofNat 32 k).toNat = block.toNat + k := fun k hk =>
    s.memory.toNat_add_of_fits hk (by omega)
  have h4 : (block + 4).toNat = block.toNat + 4 := hplace 4 (by decide)
  have h8 : (block + 8).toNat = block.toNat + 8 := hplace 8 (by decide)
  have h12 : (block + 12).toNat = block.toNat + 12 := hplace 12 (by decide)
  have h20 : (block + 20).toNat = block.toNat + 20 := hplace 20 (by decide)
  have hsize : (s.saved block next).sizeBytes = s.memory.sizeBytes := Memory.sizeBytes_saved
  have hbeside : ∀ a : Word, a.toNat / 4 ≠ (block + 20).toNat / 4 →
      (s.called block next number map).memory.readWord a = (s.saved block next).readWord a := fun a hne =>
    Memory.readWord_stored_of_ne hne
  obtain ⟨hword1, hword2⟩ : (s.saved block next).readWord block =
        .ok (s.cpu.psd.suspended next s.cpu.interruptsBlocked).word1 ∧
      (s.saved block next).readWord (block + 4) = .ok (s.cpu.psd.suspended next s.cpu.interruptsBlocked).word2 :=
    Memory.readWord_saved haligned (by omega)
  obtain ⟨hnew1, hnew2⟩ := Memory.readWord_routine (m := s.saved block next) haligned (by omega)
  have hpsd : (s.called block next number map).cpu.psd = (s.saved block next).routine block := Exec.psd_enforced
  exact
    { saved := ⟨(hbeside _ (by omega)).trans hword1, (hbeside _ (by omega)).trans hword2⟩
      number := Memory.readWord_stored (by omega) (by omega)
      runs := ⟨by rw [hbeside _ (by omega), hpsd, hnew1], by rw [hbeside _ (by omega), hpsd, hnew2]⟩
      blocked := by rw [hpsd]; exact Cpu.interruptsBlocked_enforced
      map := by rw [hmap, called, underCall, Cpu.enforced_eq] }

end Core

namespace Exec
open Concept32.Core EStateM
variable {s u : Core} {block next number a w : Word} {map : AddressMap} {index : Nat}

/-- A word is stored, or it lies beyond the end of memory and is refused. -/
theorem storeWord_cases (haligned : a.toNat % 4 = 0) (w : Word) (s : Core) :
    (a.toNat + 4 ≤ s.memory.sizeBytes ∧ toMemory (Memory.writeWord a w) s = .ok () ⟨s.cpu, s.memory.stored a w⟩) ∨
      s.memory.sizeBytes ≤ a.toNat ∧ ∃ t, toMemory (Memory.writeWord a w) s = .error t s := by
  by_cases hfits : a.toNat + 4 ≤ s.memory.sizeBytes
  · exact .inl ⟨hfits, storeWord_eq_ok.mpr ⟨haligned, hfits, rfl⟩⟩
  · have hbeyond : s.memory.sizeBytes ≤ a.toNat := by
      rw [Memory.sizeBytes] at hfits ⊢
      omega
    have hindex : s.memory.index a 4 = .error (.nonPresent a) := by
      rw [Memory.index, if_neg (by omega), if_neg (by rw [Memory.sizeBytes] at hbeyond; omega)]
    exact .inr ⟨hbeyond, _, by rw [toMemory, Memory.writeWord, Memory.change, hindex]⟩

theorem memory_after_storeWord (haligned : a.toNat % 4 = 0) :
    (after (toMemory (Memory.writeWord a w)) s).memory = s.memory.stored a w := by
  rw [after]
  obtain ⟨-, hstore⟩ | ⟨hbeyond, t, hstore⟩ := storeWord_cases haligned w s
  · rw [hstore]
  · rw [hstore, Memory.stored_of_beyond hbeyond]

/-- Whatever becomes of an exchange, the words of the old status doubleword are saved as far as there is memory. -/
theorem memory_after_exchange (haligned : block.toNat % 4 = 0) (hlt : block.toNat < 0x1000000) :
    (after (exchange block next) s).memory = s.saved block next := by
  have h4 : (block + 4).toNat = block.toNat + 4 := Memory.toNat_add_of_le (k := 4) (by decide) (by omega)
  have hloads : Moves (Keeps Core.memory) (do let new ← readPsd (block + 8); loadPsd new (!new.retainsMaps)) :=
    .bind (.bind moves_fromMemory fun _ => .bind moves_fromMemory fun _ => .pure _) fun _ =>
      moves_loadPsd (fun _ _ _ => rfl) fun _ _ => rfl
  rw [after, exchange, bind_of_ok (show psd s = .ok s.cpu.psd s from rfl),
    bind_of_ok (show ask Cpu.interruptsBlocked s = .ok s.cpu.interruptsBlocked s from rfl), Core.saved, Memory.saved]
  obtain ⟨-, hfirst⟩ | ⟨hbeyond, t, hfirst⟩ := storeWord_cases haligned (s.cpu.psd.withAddress next).word1 s
  · rw [bind_of_ok hfirst]
    exact (part_after_bind fun _ => hloads).trans (memory_after_storeWord (by omega))
  · rw [bind_of_error hfirst, Memory.stored_of_beyond hbeyond, Memory.stored_of_beyond (by omega)]

/-! ### What a call leaves behind -/

/-- A supervisor call finds no context block and traps before it does anything, or it passes through the one that it
finds. -/
theorem callSupervisor_cases (s : Core) (index : Nat) (number next : Word) :
    (s.callBlock? index = none ∧ ∃ t, callSupervisor index number next s = .error t s) ∨
      ∃ block, s.callBlock? index = some block ∧ callSupervisor index number next s =
        (do exchange block next; toMemory (Memory.writeWord (block + 20) number); return Flow.loaded : Exec Flow) s := by
  rw [callBlock?, callSupervisor, bind_of_ok (show ask _ s = .ok _ s from rfl), bind_of_ok (get_eq_ok.mpr ⟨rfl, rfl⟩)]
  cases hblock : s.memory.contextBlock? (s.cpu.trapEntry .supervisorCall) with
  | none => exact .inl ⟨rfl, _, rfl⟩
  | some block =>
    dsimp only
    cases htable : s.memory.readWord (block + 16) with
    | error e => exact .inl ⟨rfl, _, bind_of_error (by rw [fromMemory, htable])⟩
    | ok table =>
      dsimp only
      rw [bind_of_ok (fromMemory_eq_ok.mpr ⟨htable, rfl⟩), bind_of_ok (get_eq_ok.mpr ⟨rfl, rfl⟩)]
      cases htarget : s.memory.contextBlock? ((table &&& 0x00FFFFFC#32) + BitVec.ofNat 32 (4 * index)) with
      | none => exact .inl ⟨rfl, _, rfl⟩
      | some target => exact .inr ⟨target, rfl, rfl⟩

theorem callBlock?_eq_some (h : s.callBlock? index = some block) :
    block.toNat % 4 = 0 ∧ block.toNat < 0x1000000 := by
  rw [callBlock?] at h
  split at h
  · cases h
  · split at h
    · exact Memory.contextBlock?_eq_some h
    · cases h

theorem callSupervisor_of_some (number next : Word) (h : s.callBlock? index = some block) :
    callSupervisor index number next s =
      (do exchange block next; toMemory (Memory.writeWord (block + 20) number); return Flow.loaded : Exec Flow) s := by
  obtain ⟨hnone, -⟩ | ⟨found, hfound, hrun⟩ := callSupervisor_cases s index number next
  · cases hnone.symm.trans h
  · cases hfound.symm.trans h
    exact hrun

theorem callSupervisor_of_callable (number : Word) (hblock : s.callBlock? index = some block) (h : s.Callable block next) :
    ∃ map, s.callMap block next = .ok map ∧
      callSupervisor index number next s = .ok .loaded (s.called block next number map) := by
  obtain ⟨haligned, hlt⟩ := callBlock?_eq_some hblock
  obtain ⟨hfits, map, hmap⟩ := h
  refine ⟨map, hmap, ?_⟩
  have h20 : (block + 20).toNat = block.toNat + 20 := Memory.toNat_add_of_le (k := 20) (by decide) (by omega)
  have hexchange : exchange block next s = .ok () ⟨s.underCall block next map, s.saved block next⟩ :=
    exchange_of_fits haligned (by omega) rfl hmap
  have hstore : toMemory (Memory.writeWord (block + 20) number) ⟨s.underCall block next map, s.saved block next⟩ =
      .ok () (s.called block next number map) :=
    storeWord_eq_ok.mpr ⟨by omega, by rw [h20, Core.saved, Memory.sizeBytes_saved]; omega, rfl⟩
  rw [callSupervisor_of_some number next hblock, bind_of_ok hexchange, bind_of_ok hstore]
  rfl

theorem callSupervisor_of_not_callable (number : Word) (hblock : s.callBlock? index = some block) (h : ¬s.Callable block next) :
    ∃ t, callSupervisor index number next s = .error t (s.abandoned block next) := by
  obtain ⟨haligned, hlt⟩ := callBlock?_eq_some hblock
  have h20 : (block + 20).toNat = block.toNat + 20 := Memory.toNat_add_of_le (k := 20) (by decide) (by omega)
  rw [callSupervisor_of_some number next hblock]
  cases hexchange : exchange block next s with
  | ok _ u =>
    obtain ⟨-, hfits, map, hmap, rfl⟩ := exchange_eq_ok.mp hexchange
    have habandoned : s.abandoned block next = ⟨s.underCall block next map, s.saved block next⟩ := by
      rw [abandoned, show s.callMap block next = .ok map from hmap]
      exact if_pos hfits
    rw [bind_of_ok hexchange, habandoned]
    obtain ⟨hnumber, -⟩ | ⟨-, t, hstore⟩ :=
      storeWord_cases (s := ⟨s.underCall block next map, s.saved block next⟩) (by omega : (block + 20).toNat % 4 = 0) number
    · have hsize : (s.saved block next).sizeBytes = s.memory.sizeBytes := Memory.sizeBytes_saved
      dsimp only at hnumber
      exact absurd ⟨by omega, map, hmap⟩ h
    · exact ⟨t, bind_of_error hstore⟩
  | error t u =>
    have hmemory : u.memory = s.saved block next := by
      rw [← memory_after_exchange haligned hlt, after, hexchange]
    have hcpu : u.cpu = s.cpu := keeps_cpu_exchange.error hexchange
    have habandoned : s.abandoned block next = ⟨s.cpu, s.saved block next⟩ := by
      rw [abandoned]
      cases hmap : s.callMap block next with
      | ok map =>
        refine if_neg fun hfits => ?_
        cases hexchange.symm.trans (exchange_of_fits haligned hfits rfl hmap)
      | error e => rfl
    rw [bind_of_error hexchange, habandoned, ← hmemory, ← hcpu]
    exact ⟨t, rfl⟩

end Exec

namespace Hardware
open Concept32.Core EStateM
variable {δ ω : Type} {s : Hardware δ ω} {core : Core} {i target : Instruction} {block next : Word} {now : Nat}

theorem targetOf_of_carriedOut? (h : carriedOut? i next core = some target) (hplain : target.isExecute = false) :
    ∃ core', targetOf i next core = .ok target core' := by
  rw [carriedOut?] at h
  rw [targetOf]
  split at h
  · next hexecute =>
    rw [if_pos hexecute]
    split at h
    · next found core' hfound =>
      cases h
      rw [bind_of_ok hfound, hplain]
      exact ⟨core', rfl⟩
    · cases h
  · next hexecute =>
    rw [if_neg hexecute]
    cases h
    exact ⟨core, rfl⟩

variable [Peripheral δ ω]

/-- A supervisor call has no operand, so that it comes to the call itself. -/
theorem dispatch_of_calls (now : Nat) (htarget : carriedOut? i next s.core = some target)
    (hcalls : target.callsSupervisor s.core.cpu.psd.based) : ∃ core, Same s.core core ∧ dispatch now i next s =
      onCore (Concept32.Exec.callSupervisor (target.call s.core.cpu.psd.based).1 (target.call s.core.cpu.psd.based).2 next)
        ⟨core, s.channels⟩ := by
  obtain ⟨core, htargetOf⟩ := targetOf_of_carriedOut? htarget (Instruction.isExecute_of_calls hcalls)
  have hsame : Same s.core core := reads_targetOf.ok htargetOf
  have hbased : core.cpu.psd.based = s.core.cpu.psd.based := by
    obtain ⟨_, _, rfl⟩ := hsame
    rfl
  have hprepare : ∀ opcode, target.opcode? s.core.cpu.psd.based = some opcode →
      (opcode.format = .halfword ∨ opcode.format = .immediate) →
        prepare i next s.core = .ok (opcode, .withoutAddress target next) core := fun opcode hopcode hformat => by
    have hoperand : Concept32.Exec.operandOf target opcode.format next core = .ok (.withoutAddress target next) core := by
      rcases hformat with h | h
      · rw [h]; rfl
      · rw [h]; rfl
    rw [prepare, bind_of_ok htargetOf, operationOf,
      bind_of_ok (show Concept32.Exec.based core = .ok core.cpu.psd.based core from rfl), hbased, hopcode]
    exact bind_of_ok hoperand
  refine ⟨core, hsame, ?_⟩
  rcases hcalls with hcalm | ⟨himm, haugment⟩
  · rw [dispatch_of_prepare (hprepare .calm hcalm (.inl rfl)), Instruction.call, if_pos hcalm]
    rfl
  · rw [dispatch_of_prepare (hprepare .imm himm (.inr rfl)), Instruction.call,
      if_neg (by rw [himm]; exact fun h => Opcode.noConfusion (Option.some.inj h)), carryOut, if_neg (by decide),
      Concept32.Exec.perform, Concept32.Exec.immediateGroup, Operand.augment,
      show (Operand.withoutAddress target next).instruction = target from rfl, haugment]
    rfl

/-- A supervisor call with an index and a number happens completely or not at all. -/
def WholeCall (now : Nat) (i : Instruction) (next : Word) (call : Nat × Word) (s : Hardware δ ω) : Prop :=
  (∃ block u, s.core.callBlock? call.1 = some block ∧ dispatch now i next s = .ok .loaded u ∧
    OnCore (fun core => Calls core block next call.2) s u) ∨
    ∃ t u, dispatch now i next s = .error t u ∧ OnCore Same s u

/-- A supervisor call happens completely or not at all exactly if it finds no context block, or the one that it finds lies
in memory up to the number of the call and its map can be loaded, or the part of the call that is done changes nothing. -/
theorem wholeCall_iff (now : Nat) (htarget : carriedOut? i next s.core = some target)
    (hcalls : target.callsSupervisor s.core.cpu.psd.based) :
    (WholeCall now i next (target.call s.core.cpu.psd.based) s ↔
      ∀ block, s.core.callBlock? (target.call s.core.cpu.psd.based).1 = some block →
        s.core.Callable block next ∨ Same s.core (s.core.abandoned block next)) ∧
      ∀ block, s.core.callBlock? (target.call s.core.cpu.psd.based).1 = some block → ¬s.core.Callable block next →
        ∃ t u, dispatch now i next s = .error t u ∧ Same (s.core.abandoned block next) u.core ∧ u.channels = s.channels := by
  obtain ⟨core, hsame, hdispatch⟩ := dispatch_of_calls now htarget hcalls
  generalize target.call s.core.cpu.psd.based = call at hdispatch ⊢
  have hcomplete : ∀ block, s.core.callBlock? call.1 = some block → s.core.Callable block next →
      ∃ u, dispatch now i next s = .ok .loaded u ∧ OnCore (fun core => Calls core block next call.2) s u :=
    fun block hblock hcallable => by
      rw [← callBlock?_of_same hsame] at hblock
      have hcallable := (callable_of_same hsame).mpr hcallable
      obtain ⟨map, hmap, hcall⟩ := Concept32.Exec.callSupervisor_of_callable call.2 hblock hcallable
      obtain ⟨haligned, -⟩ := Concept32.Exec.callBlock?_eq_some hblock
      rw [hdispatch, onCore, hcall]
      exact ⟨_, rfl, calls_of_same hsame (calls_called haligned hcallable.fits hmap), rfl⟩
  have habandon : ∀ block, s.core.callBlock? call.1 = some block → ¬s.core.Callable block next →
      ∃ t u, dispatch now i next s = .error t u ∧ Same (s.core.abandoned block next) u.core ∧ u.channels = s.channels :=
    fun block hblock hcallable => by
      rw [← callBlock?_of_same hsame] at hblock
      obtain ⟨t, hcall⟩ := Concept32.Exec.callSupervisor_of_not_callable call.2 hblock
        (fun h => hcallable ((callable_of_same hsame).mp h))
      rw [hdispatch, onCore, hcall]
      exact ⟨t, _, rfl, same_abandoned hsame, rfl⟩
  refine ⟨⟨?_, fun h => ?_⟩, habandon⟩
  · rintro (⟨block, u, hblock, hcall, -⟩ | ⟨t, u, htrap, hunchanged, -⟩) found hfound
    · cases hfound.symm.trans hblock
      by_cases hcallable : s.core.Callable block next
      · exact .inl hcallable
      · obtain ⟨_, _, htrap, -⟩ := habandon block hblock hcallable
        cases htrap.symm.trans hcall
    · by_cases hcallable : s.core.Callable found next
      · exact .inl hcallable
      · obtain ⟨_, _, htrap', habandoned, -⟩ := habandon found hfound hcallable
        cases htrap'.symm.trans htrap
        exact .inr (Trans.trans hunchanged habandoned.symm)
  · cases hblock : s.core.callBlock? call.1 with
    | none =>
      obtain ⟨-, t, hcall⟩ | ⟨block, hfound, -⟩ := Concept32.Exec.callSupervisor_cases core call.1 call.2 next
      · exact .inr ⟨t, ⟨core, s.channels⟩, by rw [hdispatch, onCore, hcall], hsame, rfl⟩
      · cases hfound.symm.trans ((callBlock?_of_same hsame).trans hblock)
    | some block =>
      by_cases hcallable : s.core.Callable block next
      · obtain ⟨u, hcall, hcalls⟩ := hcomplete block hblock hcallable
        exact .inl ⟨block, u, hblock, hcall, hcalls⟩
      · obtain ⟨t, u, htrap, habandoned, hchannels⟩ := habandon block hblock hcallable
        exact .inr ⟨t, u, htrap, Trans.trans ((h block hblock).resolve_left hcallable) habandoned, hchannels⟩

/-- A machine whose trap table is at 4. The context block of supervisor calls is at 4 and the table that it leads to at
`0x18`; the block for calls of index zero is at `0x20`, and memory ends behind its word 5 or behind its word 3. -/
def caller (hasNumber : Bool) : Hardware StandardDevice Char where
  core :=
    { cpu := { Cpu.initial .c3227 0 with scratchpad := Scratchpad.empty.set Scratchpad.trapTableSlot 4 }
      memory := ⟨#[0, 0, 0, 0, 0, 0x18#32, 0x20#32, 4, 0, 0, 0x80000100#32, 0x4000#32] ++
        if hasNumber then #[0, 0] else #[], by cases hasNumber <;> decide⟩ }
  channels := .empty

/-- SVC with index zero and number 5. -/
def callFive : Instruction := ⟨0xC8060005#32⟩

theorem callsSupervisor_callFive : callFive.callsSupervisor false := .inr ⟨by decide, by decide⟩

/-- With room for its number a call is complete. -/
theorem wholeCall_caller : carriedOut? callFive 4 (caller true).core = some callFive ∧
    WholeCall 0 callFive 4 (callFive.call false) (caller true) := by
  refine ⟨rfl, (wholeCall_iff 0 rfl callsSupervisor_callFive).1.mpr fun block hblock => .inl ?_⟩
  have hselected : (caller true).core.callBlock? 0 = some 0x20#32 := rfl
  cases hselected.symm.trans hblock
  exact ⟨by decide, _, rfl⟩

/-- Without room for its number a call traps when the status doubleword of the supervisor is in force already. -/
theorem not_wholeCall_caller : ¬WholeCall 0 callFive 4 (callFive.call false) (caller false) ∧
    ∃ u, dispatch 0 callFive 4 (caller false) = .error .nonPresentMemory u ∧
      u.core.cpu.psd = ⟨0x80000100#32, 0x4000#32⟩ ∧ u.core.memory.readWord 0x20 = .ok 0x80000004#32 := by
  have htrap : ∃ u, dispatch 0 callFive 4 (caller false) = .error .nonPresentMemory u ∧
      u.core.cpu.psd = ⟨0x80000100#32, 0x4000#32⟩ ∧ u.core.memory.readWord 0x20 = .ok 0x80000004#32 :=
    ⟨_, rfl, rfl, rfl⟩
  refine ⟨?_, htrap⟩
  obtain ⟨u, htrap, hpsd, -⟩ := htrap
  rintro (⟨_, _, -, hcall, -⟩ | ⟨_, v, htrap', ⟨_, _, hsame⟩, -⟩)
  · cases hcall.symm.trans htrap
  · cases htrap'.symm.trans htrap
    rw [hsame] at hpsd
    have hword1 : (caller false).core.cpu.psd.word1 = 0x80000100#32 := congrArg Psd.word1 hpsd
    exact absurd hword1 (by decide)

end Hardware
end Concept32
