import Concept32.Cpu.Delivery
import Concept32.Instructions.Supervisor
import Concept32.Proofs.Exec
import Concept32.Proofs.Instructions.Rights

/-!
# How control passes to the supervisor

A trap and a supervisor call pass control through a context block that is found through the trap table. The new
status doubleword is the one in words 2 and 3 of the block, and memory changes in its words 0, 1, 4 and 5 alone.
-/

namespace Concept32

theorem Memory.contextBlock?_eq_some {m : Memory} {entry block : Word} (h : m.contextBlock? entry = some block) :
    block.toNat % 4 = 0 ∧ block.toNat < 0x1000000 := by
  rw [contextBlock?] at h
  split at h
  · next w _ =>
    dsimp only at h
    split at h
    · cases h
    · obtain rfl := Option.some.inj h
      rw [BitVec.toNat_and]
      exact ⟨(Nat.and_mod_two_pow (n := 2)).trans (Nat.and_zero _), Nat.lt_of_le_of_lt Nat.and_le_right (by decide)⟩
  · cases h

namespace Core
variable {s s' s'' : Core} {block : Word} {t : Trap}

/-- A context block to which the trap table leads, or the table of supervisor calls that the trap table leads to. -/
inductive Handler (s : Core) : Word → Prop
  | trap {t : Trap} {block : Word} (h : s.memory.contextBlock? (s.cpu.trapEntry t) = some block) : Handler s block
  | supervisor {index : Nat} {block table target : Word} (hindex : index < 16)
      (hblock : s.memory.contextBlock? (s.cpu.trapEntry .supervisorCall) = some block)
      (htable : s.memory.readWord (block + 16) = .ok table)
      (htarget : s.memory.contextBlock? ((table &&& 0x00FFFFFC#32) + BitVec.ofNat 32 (4 * index)) = some target) :
      Handler s target

theorem Handler.lt (h : Handler s block) : block.toNat < 0x1000000 := by
  cases h with
  | trap h => exact (Memory.contextBlock?_eq_some h).2
  | supervisor _ _ _ htarget => exact (Memory.contextBlock?_eq_some htarget).2

/-- Memory changed in words 0, 1, 4 and 5 of a context block alone, and the trap table is where it was. -/
structure SavesInto (block : Word) (s s' : Core) : Prop where
  trapTable : s'.cpu.scratchpad.trapTable = s.cpu.scratchpad.trapTable
  size : s'.memory.words.size = s.memory.words.size
  memory : ∀ n, s'.memory.byteAt n ≠ s.memory.byteAt n → ∃ k ∈ [0, 1, 4, 5], n / 4 = block.toNat / 4 + k

/-- The status doubleword is the one in words 2 and 3 of a context block. -/
def RunsFrom (block : Word) (s : Core) : Prop :=
  s.memory.readWord (block + 8) = .ok s.cpu.psd.word1 ∧ s.memory.readWord (block + 12) = .ok s.cpu.psd.word2

/-- Control has passed through a context block. -/
def Enters (s s' : Core) : Prop := ∃ block, Handler s block ∧ SavesInto block s s' ∧ RunsFrom block s'

/-- Control may have begun to pass through a context block. -/
def Abandons (s s' : Core) : Prop := s' = s ∨ ∃ block, Handler s block ∧ SavesInto block s s'

instance : Std.Refl (SavesInto block) := ⟨fun _ => ⟨rfl, rfl, fun _ hne => absurd rfl hne⟩⟩

instance : Trans (SavesInto block) (SavesInto block) (SavesInto block) where
  trans {s t u} h h' := by
    refine ⟨h'.trapTable.trans h.trapTable, h'.size.trans h.size, fun n hne => ?_⟩
    by_cases hmid : u.memory.byteAt n = t.memory.byteAt n
    · exact h.memory n (hmid ▸ hne)
    · exact h'.memory n hmid

theorem trapTable_withBlocked {c : Cpu} {blocked : Bool} :
    (c.withBlocked blocked).scratchpad.trapTable = c.scratchpad.trapTable := by
  have hget : ∀ w, (c.scratchpad.set Scratchpad.statusSlot w).get Scratchpad.trapTableSlot =
      c.scratchpad.get Scratchpad.trapTableSlot := fun w =>
    Vector.getElem_set_ne (by decide) (by decide) (by decide)
  rw [Cpu.withBlocked, Cpu.withStatus, Scratchpad.trapTable, hget]
  rfl

theorem trapTable_enforced {c : Cpu} {p : Psd} :
    (Exec.enforced p c).scratchpad.trapTable = c.scratchpad.trapTable := by
  rw [Exec.enforced]
  split
  · exact trapTable_withBlocked
  · exact trapTable_withBlocked
  · rfl

end Core

namespace Exec
open Concept32.Core EStateM
variable {s s' : Core} {block resume w : Word} {p : Psd}

/-! ### Exchanging status doublewords -/

theorem saves_toMemory {k : Nat} (hblock : block.toNat < 0x1000000) (hk : k ∈ [0, 1, 4, 5]) :
    Moves (SavesInto block) (toMemory (Memory.writeWord (block + BitVec.ofNat 32 (4 * k)) w)) := by
  have hplace : (block + BitVec.ofNat 32 (4 * k)).toNat / 4 = block.toNat / 4 + k := by
    have hle : k ≤ 5 := by
      simp only [List.mem_cons, List.not_mem_nil, or_false] at hk
      omega
    rw [BitVec.toNat_add, BitVec.toNat_ofNat]
    omega
  constructor
  · intro s s' _ h
    rw [toMemory] at h
    split at h
    · next heq =>
      cases h
      obtain ⟨-, -, rfl⟩ := Memory.writeWord_eq_ok.mp heq
      refine ⟨rfl, Memory.size_update .., fun n hne => ?_⟩
      rw [Memory.byteAt_update] at hne
      split at hne
      · next hword => exact ⟨k, hk, hword.1.trans hplace⟩
      · exact absurd rfl hne
    · cases h
  · intro s s' _ h
    rw [toMemory] at h
    split at h
    · cases h
    · next heq =>
      cases h
      rw [Memory.writeWord, Memory.change] at heq
      split at heq <;> cases heq
      exact Std.Refl.refl _

theorem saves_loadPsd {changeMaps : Bool} : Moves (SavesInto block) (loadPsd p changeMaps) :=
  moves_loadPsd (fun _ _ _ => ⟨rfl, rfl, fun _ hne => absurd rfl hne⟩)
    fun _ _ => ⟨trapTable_enforced, rfl, fun _ hne => absurd rfl hne⟩

theorem loadPsd_eq_ok {changeMaps : Bool} {u : Unit} (h : loadPsd p changeMaps s = .ok u s') :
    s'.cpu.psd = p ∧ s'.memory = s.memory := by
  have hmemory : Moves (Keeps Core.memory) (loadPsd p changeMaps) :=
    moves_loadPsd (fun _ _ _ => rfl) fun _ _ => rfl
  refine ⟨?_, hmemory.ok h⟩
  rw [loadPsd_eq] at h
  split at h
  · obtain ⟨_, t, -, hload⟩ := bind_eq_ok.mp h
    cases hload
    exact psd_enforced
  · cases h
    exact psd_enforced

theorem saves_exchange (hblock : block.toNat < 0x1000000) : Moves (SavesInto block) (exchange block resume) := by
  have hword0 : ∀ w, Moves (SavesInto block) (toMemory (Memory.writeWord block w)) := fun w => by
    have hsaves := saves_toMemory (k := 0) (w := w) hblock (by simp)
    rwa [BitVec.add_zero] at hsaves
  exact .bind moves_ask fun _ => .bind moves_ask fun _ => .bind (hword0 _) fun _ =>
    .bind (saves_toMemory (k := 1) hblock (by simp)) fun _ =>
      .bind (.bind moves_fromMemory fun _ => .bind moves_fromMemory fun _ => .pure _) fun _ => saves_loadPsd

theorem fromMemory_eq_ok {α : Type} {f : Memory → Except MemoryError α} {a : α} :
    fromMemory f s = .ok a s' ↔ f s.memory = .ok a ∧ s' = s := by
  rw [fromMemory]
  split
  · next heq => simp only [heq, EStateM.Result.ok.injEq, Except.ok.injEq, eq_comm]
  · next heq => simp [heq]

theorem readPsd_eq_ok (h : readPsd block s = .ok p s') :
    s.memory.readWord block = .ok p.word1 ∧ s.memory.readWord (block + 4) = .ok p.word2 ∧ s' = s := by
  obtain ⟨word1, _, hfirst, hrest⟩ := bind_eq_ok.mp h
  obtain ⟨word2, _, hsecond, hpsd⟩ := bind_eq_ok.mp hrest
  obtain ⟨hword1, rfl⟩ := fromMemory_eq_ok.mp hfirst
  obtain ⟨hword2, rfl⟩ := fromMemory_eq_ok.mp hsecond
  cases hpsd
  exact ⟨hword1, hword2, rfl⟩

/-- A start leaves the processor running under the status doubleword that memory holds. -/
theorem startAt_eq_ok {u : Unit} (h : startAt block s = .ok u s') :
    s'.memory = s.memory ∧ s'.cpu.mode = .running ∧ s.memory.readWord block = .ok s'.cpu.psd.word1 ∧
      s.memory.readWord (block + 4) = .ok s'.cpu.psd.word2 := by
  obtain ⟨new, _, hread, hrest⟩ := bind_eq_ok.mp h
  obtain ⟨_, t, hload, hmode⟩ := bind_eq_ok.mp hrest
  obtain ⟨hword1, hword2, rfl⟩ := readPsd_eq_ok hread
  obtain ⟨rfl, hmemory⟩ := loadPsd_eq_ok hload
  cases hmode
  exact ⟨hmemory, rfl, hword1, hword2⟩

/-- After an exchange the status doubleword is the one that the block holds. -/
theorem runsFrom_exchange {u : Unit} (h : exchange block resume s = .ok u s') : RunsFrom block s' := by
  rw [exchange] at h
  obtain ⟨_, _, -, h⟩ := bind_eq_ok.mp h
  obtain ⟨_, _, -, h⟩ := bind_eq_ok.mp h
  obtain ⟨_, _, -, h⟩ := bind_eq_ok.mp h
  obtain ⟨_, t, -, h⟩ := bind_eq_ok.mp h
  obtain ⟨new, v, hread, hload⟩ := bind_eq_ok.mp h
  obtain ⟨hword1, hword2, rfl⟩ := readPsd_eq_ok hread
  obtain ⟨hpsd, hmemory⟩ := loadPsd_eq_ok hload
  rw [RunsFrom, hpsd, hmemory]
  exact ⟨hword1, by rw [← hword2, BitVec.add_assoc]; rfl⟩

/-! ### Supervisor calls -/

/-- A supervisor call finds its context block or traps before it does anything. -/
theorem callSupervisor_run (s : Core) {index : Nat} (number next : Word) (hindex : index < 16) :
    (∃ t, callSupervisor index number next s = .error t s) ∨
      ∃ target, Handler s target ∧ callSupervisor index number next s =
        (do exchange target next; toMemory (Memory.writeWord (target + 20) number); return Flow.loaded : Exec Flow) s := by
  rw [callSupervisor, bind_of_ok (show ask _ s = .ok _ s from rfl), bind_of_ok (get_eq_ok.mpr ⟨rfl, rfl⟩)]
  cases hblock : s.memory.contextBlock? (s.cpu.trapEntry .supervisorCall) with
  | none => exact .inl ⟨_, rfl⟩
  | some block =>
    dsimp only
    cases htable : s.memory.readWord (block + 16) with
    | error e => exact .inl ⟨_, bind_of_error (by rw [fromMemory, htable])⟩
    | ok table =>
      rw [bind_of_ok (fromMemory_eq_ok.mpr ⟨htable, rfl⟩), bind_of_ok (get_eq_ok.mpr ⟨rfl, rfl⟩)]
      cases htarget : s.memory.contextBlock? ((table &&& 0x00FFFFFC#32) + BitVec.ofNat 32 (4 * index)) with
      | none => exact .inl ⟨_, rfl⟩
      | some target => exact .inr ⟨target, .supervisor hindex hblock htable htarget, rfl⟩

theorem saves_call {number next : Word} (hblock : block.toNat < 0x1000000) : Moves (SavesInto block)
    (do exchange block next; toMemory (Memory.writeWord (block + 20) number); return .loaded : Exec Flow) :=
  .bind (saves_exchange hblock) fun _ => .bind (saves_toMemory (k := 5) hblock (by simp)) fun _ => .pure _

/-- The number of a call lies beside the status doubleword that is put in force. -/
theorem runsFrom_call {number next : Word} {flow : Flow} (hblock : block.toNat < 0x1000000)
    (h : (do exchange block next; toMemory (Memory.writeWord (block + 20) number); return .loaded : Exec Flow) s =
      .ok flow s') : flow = .loaded ∧ RunsFrom block s' := by
  obtain ⟨_, t, hx, hrest⟩ := bind_eq_ok.mp h
  obtain ⟨_, u, hstore, hflow⟩ := bind_eq_ok.mp hrest
  cases hflow
  refine ⟨rfl, ?_⟩
  obtain ⟨hword1, hword2⟩ := runsFrom_exchange hx
  rw [toMemory] at hstore
  split at hstore
  · next heq =>
    cases hstore
    obtain ⟨-, -, rfl⟩ := Memory.writeWord_eq_ok.mp heq
    have hnat : ∀ k < 0x100, (block + BitVec.ofNat 32 k).toNat = block.toNat + k := fun k hk => by
      rw [BitVec.toNat_add, BitVec.toNat_ofNat]
      omega
    have h8 : (block + 8).toNat = block.toNat + 8 := hnat 8 (by decide)
    have h12 : (block + 12).toNat = block.toNat + 12 := hnat 12 (by decide)
    have h20 : (block + 20).toNat = block.toNat + 20 := hnat 20 (by decide)
    exact ⟨(Memory.readWord_update_of_ne (by omega)).trans hword1,
      (Memory.readWord_update_of_ne (by omega)).trans hword2⟩
  · cases hstore

theorem ends_callSupervisor {index : Nat} {number next : Word} (hindex : index < 16) :
    Ends (fun flow s s' => flow = .loaded ∧ Enters s s') Abandons (callSupervisor index number next) where
  ok {s s' flow} h := by
    obtain ⟨t, hrun⟩ | ⟨target, hhandler, hrun⟩ := callSupervisor_run s number next hindex
    · rw [hrun] at h; cases h
    · rw [hrun] at h
      obtain ⟨hflow, hruns⟩ := runsFrom_call hhandler.lt h
      exact ⟨hflow, target, hhandler, (saves_call hhandler.lt).ok h, hruns⟩
  error {s s' t} h := by
    obtain ⟨t, hrun⟩ | ⟨target, hhandler, hrun⟩ := callSupervisor_run s number next hindex
    · rw [hrun] at h; cases h; exact .inl rfl
    · rw [hrun] at h
      exact .inr ⟨target, hhandler, (saves_call hhandler.lt).error h⟩

end Exec

namespace Delivery
open Concept32.Core EStateM
variable {s s' : Core} {block resume : Word} {t : Trap} {now : Nat}

/-! ### Traps -/

theorem saves_enter (hblock : block.toNat < 0x1000000) : Moves (SavesInto block) (enter t block resume) := by
  rw [enter]
  refine .bind Exec.moves_ask fun _ => ?_
  dsimp only
  split
  · exact .bind (Exec.saves_toMemory (k := 4) hblock (by simp)) fun _ =>
      .bind (Exec.saves_toMemory (k := 5) hblock (by simp)) fun _ => Exec.saves_exchange hblock
  · exact Exec.saves_exchange hblock

theorem runsFrom_enter {u : Unit} (h : enter t block resume s = .ok u s') : RunsFrom block s' := by
  rw [enter] at h
  obtain ⟨address, _, -, h⟩ := bind_eq_ok.mp h
  cases hwords : t.statusWords address with
  | none =>
    rw [hwords] at h
    exact Exec.runsFrom_exchange h
  | some words =>
    rw [hwords] at h
    obtain ⟨_, _, -, h⟩ := bind_eq_ok.mp h
    obtain ⟨_, _, -, h⟩ := bind_eq_ok.mp h
    exact Exec.runsFrom_exchange h

theorem handler_of_blockOf? (h : blockOf? s t = some block) : Handler s block := by
  rw [blockOf?] at h
  split at h
  · exact .trap h
  · cases h

/-- A trap without a context block halts the machine. With one its handler is entered, or the machine halts. -/
theorem takeTrap_cases (now : Nat) (t : Trap) (resume : Word) (s : Core) :
    (blockOf? s t = none ∧
        takeTrap now t resume s = .error ⟨t, s.cpu.psd, now⟩ ⟨{ s.cpu with mode := .halted }, s.memory⟩) ∨
      ∃ block u, blockOf? s t = some block ∧
        ((enter t block resume s = .ok () u ∧
            takeTrap now t resume s = .ok () ⟨{ u.cpu with mode := .running }, u.memory⟩) ∨
          ∃ e, enter t block resume s = .error e u ∧
            takeTrap now t resume s = .error ⟨t, u.cpu.psd, now⟩ ⟨{ u.cpu with mode := .halted }, u.memory⟩) := by
  rw [takeTrap, bind_of_ok (get_eq_ok.mpr ⟨rfl, rfl⟩)]
  cases blockOf? s t with
  | none => exact .inl ⟨rfl, rfl⟩
  | some block =>
    dsimp only
    cases henter : enter t block resume s with
    | ok _ u =>
      have hdeliver : orHalt now t (enter t block resume) s = .ok () u := by rw [orHalt, henter]
      exact .inr ⟨block, u, rfl, .inl ⟨henter, bind_of_ok hdeliver⟩⟩
    | error e u =>
      have hhalts : orHalt now t (enter t block resume) s =
          .error ⟨t, u.cpu.psd, now⟩ ⟨{ u.cpu with mode := .halted }, u.memory⟩ := by
        rw [orHalt, henter]
        rfl
      exact .inr ⟨block, u, rfl, .inr ⟨e, henter, bind_of_error hhalts⟩⟩

/-- A trap that is delivered passes control through a context block that the trap table has. -/
theorem takeTrap_eq_ok {u : Unit} (h : takeTrap now t resume s = .ok u s') : Enters s s' := by
  rcases takeTrap_cases now t resume s with ⟨-, htake⟩ | ⟨block, v, hblock, ⟨henter, htake⟩ | ⟨_, -, htake⟩⟩
  · cases htake.symm.trans h
  · cases htake.symm.trans h
    have hhandler := handler_of_blockOf? hblock
    have hsaves := (saves_enter hhandler.lt).ok henter
    have hruns : RunsFrom block v := runsFrom_enter henter
    exact ⟨block, hhandler, ⟨hsaves.trapTable, hsaves.size, hsaves.memory⟩, hruns⟩
  · cases htake.symm.trans h

/-- A trap that cannot be delivered halts the machine. -/
theorem takeTrap_eq_error {e : TrapHalt} (h : takeTrap now t resume s = .error e s') :
    s'.cpu.mode = .halted ∧ (s'.memory = s.memory ∨ ∃ block, Handler s block ∧ SavesInto block s s') := by
  rcases takeTrap_cases now t resume s with ⟨-, htake⟩ | ⟨block, v, hblock, ⟨-, htake⟩ | ⟨_, henter, htake⟩⟩
  · cases htake.symm.trans h
    exact ⟨rfl, .inl rfl⟩
  · cases htake.symm.trans h
  · cases htake.symm.trans h
    have hhandler := handler_of_blockOf? hblock
    have hsaves := (saves_enter hhandler.lt).error henter
    exact ⟨rfl, .inr ⟨block, hhandler, ⟨hsaves.trapTable, hsaves.size, hsaves.memory⟩⟩⟩

end Delivery
end Concept32
