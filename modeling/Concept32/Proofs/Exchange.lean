import Concept32.Proofs.Delivery

/-!
# Exchanges of status doublewords

An exchange succeeds exactly when the context block lies in memory and the map of the new status doubleword can be
loaded, if it asks for one. The old doubleword is then in words 0 and 1 of the block, the new one is in force, and an
exchange that fails leaves the processor as it was.
-/

namespace Concept32

/-! ### Stores that fit -/

namespace Memory
variable {m : Memory} {a b w : Word} {block : Word} {p : Psd} {blocked : Bool}

/-- Memory with a word stored. -/
def stored (m : Memory) (a w : Word) : Memory := m.update (a.toNat / 4) fun _ => w

theorem writeWord_stored (haligned : a.toNat % 4 = 0) (hfits : a.toNat + 4 ≤ m.sizeBytes) :
    writeWord a w m = .ok () (m.stored a w) :=
  writeWord_eq_ok.mpr ⟨haligned, by rw [sizeBytes] at hfits; omega, rfl⟩

/-- A word beyond the end is passed over. -/
theorem stored_of_beyond (h : m.sizeBytes ≤ a.toNat) : m.stored a w = m :=
  update_eq_self fun hpresent => by
    rw [sizeBytes] at h
    omega

/-- To store what is there already changes nothing. -/
theorem stored_eq_self (h : m.wordAt (a.toNat / 4) = w) : m.stored a w = m := update_eq_self fun _ => h.symm

theorem wordAt_stored_of_ne {n : Nat} (hne : n ≠ a.toNat / 4) : (m.stored a w).wordAt n = m.wordAt n := by
  rw [stored, wordAt_update, if_neg fun h => hne h.1]

theorem readWord_of_fits (haligned : a.toNat % 4 = 0) (hfits : a.toNat + 4 ≤ m.sizeBytes) :
    m.readWord a = .ok (m.wordAt (a.toNat / 4)) :=
  readWord_eq_ok.mpr ⟨haligned, by rw [sizeBytes] at hfits; omega, rfl⟩

theorem sizeBytes_stored : (m.stored a w).sizeBytes = m.sizeBytes := by
  rw [stored, sizeBytes_update]

theorem sizeBytes_le (m : Memory) : m.sizeBytes ≤ 0x1000000 := by
  have hsize := m.size_le
  rw [sizeBytes]
  omega

/-- An address a little further. -/
theorem toNat_add_of_le {k : Nat} (hk : k ≤ 0x100) (ha : a.toNat ≤ 0x1000000) :
    (a + BitVec.ofNat 32 k).toNat = a.toNat + k := by
  rw [BitVec.toNat_add, BitVec.toNat_ofNat]
  omega

/-- An address a little further in memory. -/
theorem toNat_add_of_fits {k : Nat} (hk : k ≤ 0x100) (hfits : a.toNat ≤ m.sizeBytes) :
    (a + BitVec.ofNat 32 k).toNat = a.toNat + k :=
  toNat_add_of_le hk (Nat.le_trans hfits m.sizeBytes_le)

theorem readWord_stored (haligned : a.toNat % 4 = 0) (hfits : a.toNat + 4 ≤ m.sizeBytes) :
    (m.stored a w).readWord a = .ok w := by
  have hin : a.toNat / 4 < m.words.size := by
    rw [sizeBytes] at hfits
    omega
  rw [readWord_of_fits haligned (by rw [sizeBytes_stored]; exact hfits), stored, wordAt_update, if_pos ⟨rfl, hin⟩]

theorem readWord_stored_of_ne (hne : b.toNat / 4 ≠ a.toNat / 4) : (m.stored a w).readWord b = m.readWord b :=
  readWord_update_of_ne hne

/-- Memory with a status doubleword saved in a context block. -/
def saved (m : Memory) (block : Word) (p : Psd) (blocked : Bool) : Memory :=
  (m.stored block p.word1).stored (block + 4) (p.savedWord2 blocked)

/-- The status doubleword that a context block holds for its routine. -/
def routine (m : Memory) (block : Word) : Psd :=
  ⟨m.wordAt ((block + 8).toNat / 4), m.wordAt ((block + 12).toNat / 4)⟩

theorem sizeBytes_saved : (m.saved block p blocked).sizeBytes = m.sizeBytes := by
  rw [saved, sizeBytes_stored, sizeBytes_stored]

/-- The words of a status doubleword that has been saved. -/
theorem readWord_saved (haligned : block.toNat % 4 = 0) (hfits : block.toNat + 8 ≤ m.sizeBytes) :
    (m.saved block p blocked).readWord block = .ok p.word1 ∧
      (m.saved block p blocked).readWord (block + 4) = .ok (p.savedWord2 blocked) := by
  have h4 : (block + 4).toNat = block.toNat + 4 := m.toNat_add_of_fits (k := 4) (by decide) (by omega)
  constructor
  · rw [saved, readWord_stored_of_ne (by omega)]
    exact readWord_stored haligned (by omega)
  · exact readWord_stored (by omega) (by rw [sizeBytes_stored]; omega)

/-- The words of a context block after the first two stay as they are when a status doubleword is saved. -/
theorem readWord_saved_of_le {k : Nat} (hk : 8 ≤ k) (hk' : k ≤ 0x100) (hfits : block.toNat + 4 ≤ m.sizeBytes) :
    (m.saved block p blocked).readWord (block + BitVec.ofNat 32 k) = m.readWord (block + BitVec.ofNat 32 k) := by
  have h4 : (block + 4).toNat = block.toNat + 4 := m.toNat_add_of_fits (k := 4) (by decide) (by omega)
  have hplace : (block + BitVec.ofNat 32 k).toNat = block.toNat + k := m.toNat_add_of_fits hk' (by omega)
  rw [saved, readWord_stored_of_ne (by omega), readWord_stored_of_ne (by omega)]

theorem readWord_routine (haligned : block.toNat % 4 = 0) (hfits : block.toNat + 16 ≤ m.sizeBytes) :
    m.readWord (block + 8) = .ok (m.routine block).word1 ∧ m.readWord (block + 12) = .ok (m.routine block).word2 := by
  have h8 : (block + 8).toNat = block.toNat + 8 := m.toNat_add_of_fits (k := 8) (by decide) (by omega)
  have h12 : (block + 12).toNat = block.toNat + 12 := m.toNat_add_of_fits (k := 12) (by decide) (by omega)
  exact ⟨readWord_of_fits (by omega) (by omega), readWord_of_fits (by omega) (by omega)⟩

end Memory

/-! ### A status doubleword in force -/

namespace Psd
variable {p : Psd}

/-- Whether interrupts are blocked under a status doubleword, if they were blocked before it was put in force or
not. -/
def blocks (p : Psd) (before : Bool) : Bool :=
  match p.blocking with
  | .block => true
  | .unblock => false
  | .retain => before

theorem blocks_false : p.blocks false = (p.blocking = .block : Bool) := by
  rw [blocks]
  cases p.blocking with
  | block => rfl
  | unblock => rfl
  | retain => rfl

end Psd

namespace Cpu
variable {c : Cpu} {p : Psd}

theorem interruptsBlocked_withBlocked {blocked : Bool} : (c.withBlocked blocked).interruptsBlocked = blocked := by
  have hstatus : (c.withBlocked blocked).status = withBits c.status blockedBit blocked := Vector.getElem_set_self _
  rw [interruptsBlocked, hstatus, hasAny_withBits_self (by decide)]

theorem interruptsBlocked_enforced : (Exec.enforced p c).interruptsBlocked = p.blocks c.interruptsBlocked := by
  rw [Exec.enforced, Psd.blocks]
  cases p.blocking with
  | block => exact interruptsBlocked_withBlocked
  | unblock => exact interruptsBlocked_withBlocked
  | retain => rfl

/-- Beside the status doubleword a change of it reaches the status word of the processor alone. -/
theorem enforced_eq : Exec.enforced p c = { c with
    psd := p
    scratchpad := (Exec.enforced p c).scratchpad } := by
  rw [Exec.enforced]
  cases p.blocking with
  | block => rfl
  | unblock => rfl
  | retain => rfl

/-- The map under a status doubleword: the one in memory if it is to be loaded. -/
def mapUnder (c : Cpu) (m : Memory) (p : Psd) : Except MapLoadError AddressMap :=
  if p.mapped && !p.retainsMaps then c.map.load m c.scratchpad.processList p.cpix else .ok c.map

end Cpu

/-- Memory with the status doubleword of the program saved in a context block, to go on at an address. -/
def Core.saved (s : Core) (block resume : Word) : Memory :=
  s.memory.saved block (s.cpu.psd.withAddress resume) s.cpu.interruptsBlocked

namespace Exec
open EStateM
variable {core core' : Core} {block resume : Word} {map : AddressMap} {p : Psd} {t : Trap}

/-- A status doubleword is put in force with its map, or its map cannot be loaded and nothing changes. -/
theorem loadPsd_eq_mapUnder :
    loadPsd p (!p.retainsMaps) core =
      match core.cpu.mapUnder core.memory p with
      | .ok map => .ok () ⟨enforced p { core.cpu with map := map }, core.memory⟩
      | .error e => .error e.trap core := by
  obtain ⟨cpu, memory⟩ := core
  rw [Cpu.mapUnder, loadPsd_eq]
  split
  · cases hload : cpu.map.load memory cpu.scratchpad.processList p.cpix with
    | ok map =>
      have hmap : loadMap p.cpix ⟨cpu, memory⟩ = .ok () ⟨{ cpu with map := map }, memory⟩ := by rw [loadMap_eq, hload]
      exact bind_of_ok hmap
    | error e =>
      have hmap : loadMap p.cpix ⟨cpu, memory⟩ = .error e.trap ⟨cpu, memory⟩ := by rw [loadMap_eq, hload]
      exact bind_of_error hmap
  · rfl

theorem loadPsd_of_map (h : core.cpu.mapUnder core.memory p = .ok map) :
    loadPsd p (!p.retainsMaps) core = .ok () ⟨enforced p { core.cpu with map := map }, core.memory⟩ := by
  rw [loadPsd_eq_mapUnder, h]

/-- A word is stored if it lies in memory, and only then. -/
theorem storeWord_eq_ok {a w : Word} {u : Unit} :
    toMemory (Memory.writeWord a w) core = .ok u core' ↔
      a.toNat % 4 = 0 ∧ a.toNat + 4 ≤ core.memory.sizeBytes ∧ core' = ⟨core.cpu, core.memory.stored a w⟩ := by
  obtain ⟨cpu, m⟩ := core
  constructor
  · intro h
    rw [toMemory] at h
    split at h
    · next heq =>
      cases h
      obtain ⟨haligned, hlt, rfl⟩ := Memory.writeWord_eq_ok.mp heq
      exact ⟨haligned, by dsimp only; rw [Memory.sizeBytes]; omega, rfl⟩
    · cases h
  · rintro ⟨haligned, hfits, rfl⟩
    rw [toMemory, Memory.writeWord_stored haligned hfits]

theorem readPsd_eq {word1 word2 : Word} (h : core.memory.readWord block = .ok word1)
    (h' : core.memory.readWord (block + 4) = .ok word2) : readPsd block core = .ok ⟨word1, word2⟩ core := by
  rw [readPsd, bind_of_ok (fromMemory_eq_ok.mpr ⟨h, rfl⟩), bind_of_ok (fromMemory_eq_ok.mpr ⟨h', rfl⟩)]
  rfl

theorem readPsd_routine (haligned : block.toNat % 4 = 0) (hfits : block.toNat + 16 ≤ core.memory.sizeBytes) :
    readPsd (block + 8) core = .ok (core.memory.routine block) core := by
  have hnext : block + 8 + 4 = block + 12 := by rw [BitVec.add_assoc]; rfl
  obtain ⟨hword1, hword2⟩ := Memory.readWord_routine haligned hfits
  exact readPsd_eq hword1 (by rw [hnext]; exact hword2)

/-- An exchange through a context block that lies in memory comes to putting the new status doubleword in force. -/
theorem exchange_eq_loadPsd (haligned : block.toNat % 4 = 0) (hfits : block.toNat + 16 ≤ core.memory.sizeBytes)
    {memory : Memory} (hmemory : core.saved block resume = memory) :
    exchange block resume core =
      loadPsd (memory.routine block) (!(memory.routine block).retainsMaps) ⟨core.cpu, memory⟩ := by
  obtain ⟨cpu, mem⟩ := core
  dsimp only at hfits
  have h4 : (block + 4).toNat = block.toNat + 4 := mem.toNat_add_of_fits (k := 4) (by decide) (by omega)
  have hsize : memory.sizeBytes = mem.sizeBytes := by rw [← hmemory, Core.saved, Memory.sizeBytes_saved]
  have hfirst : ∀ w, toMemory (Memory.writeWord block w) ⟨cpu, mem⟩ = .ok () ⟨cpu, mem.stored block w⟩ := fun w =>
    storeWord_eq_ok.mpr ⟨haligned, by dsimp only; omega, rfl⟩
  have hsecond : ∀ w w', toMemory (Memory.writeWord (block + 4) w') ⟨cpu, mem.stored block w⟩ =
      .ok () ⟨cpu, (mem.stored block w).stored (block + 4) w'⟩ := fun w w' =>
    storeWord_eq_ok.mpr ⟨by omega, by rw [Memory.sizeBytes_stored]; omega, rfl⟩
  rw [exchange, bind_of_ok (show psd ⟨cpu, mem⟩ = .ok cpu.psd ⟨cpu, mem⟩ from rfl),
    bind_of_ok (show ask Cpu.interruptsBlocked ⟨cpu, mem⟩ = .ok cpu.interruptsBlocked ⟨cpu, mem⟩ from rfl),
    bind_of_ok (hfirst _), bind_of_ok (hsecond _ _)]
  rw [Core.saved, Memory.saved] at hmemory
  rw [hmemory]
  exact bind_of_ok (readPsd_routine haligned (by rw [hsize]; exact hfits))

/-- An exchange through a context block that lies in memory, if the map can be loaded. -/
theorem exchange_of_fits (haligned : block.toNat % 4 = 0) (hfits : block.toNat + 16 ≤ core.memory.sizeBytes)
    {memory : Memory} (hmemory : core.saved block resume = memory)
    (hmap : core.cpu.mapUnder memory (memory.routine block) = .ok map) :
    exchange block resume core = .ok () ⟨enforced (memory.routine block) { core.cpu with map := map }, memory⟩ := by
  rw [exchange_eq_loadPsd haligned hfits hmemory]
  exact loadPsd_of_map hmap

theorem fits_of_exchange {u : Unit} (h : exchange block resume core = .ok u core') :
    block.toNat % 4 = 0 ∧ block.toNat + 16 ≤ core.memory.sizeBytes := by
  rw [exchange] at h
  obtain ⟨_, _, hpsd, h⟩ := bind_eq_ok.mp h
  cases hpsd
  obtain ⟨_, _, hblocked, h⟩ := bind_eq_ok.mp h
  cases hblocked
  obtain ⟨_, _, hfirst, h⟩ := bind_eq_ok.mp h
  obtain ⟨haligned, hfits, rfl⟩ := storeWord_eq_ok.mp hfirst
  obtain ⟨_, _, hsecond, h⟩ := bind_eq_ok.mp h
  obtain ⟨-, -, rfl⟩ := storeWord_eq_ok.mp hsecond
  obtain ⟨_, _, hread, -⟩ := bind_eq_ok.mp h
  obtain ⟨_, _, hword1, hread⟩ := bind_eq_ok.mp hread
  obtain ⟨-, rfl⟩ := fromMemory_eq_ok.mp hword1
  obtain ⟨_, _, hword2, -⟩ := bind_eq_ok.mp hread
  obtain ⟨-, hlt, -⟩ := Memory.readWord_eq_ok.mp (fromMemory_eq_ok.mp hword2).1
  have h12 : (block + 8 + 4).toNat = block.toNat + 12 := by
    rw [BitVec.add_assoc]
    exact core.memory.toNat_add_of_fits (k := 12) (by decide) (by omega)
  rw [h12, Memory.stored, Memory.stored, Memory.size_update, Memory.size_update] at hlt
  rw [Memory.sizeBytes]
  omega

/-- An exchange succeeds exactly if the context block lies in memory and the map can be loaded. -/
theorem exchange_eq_ok {u : Unit} :
    exchange block resume core = .ok u core' ↔
      block.toNat % 4 = 0 ∧ block.toNat + 16 ≤ core.memory.sizeBytes ∧
        ∃ map, core.cpu.mapUnder (core.saved block resume) ((core.saved block resume).routine block) = .ok map ∧
          core' = ⟨enforced ((core.saved block resume).routine block) { core.cpu with map := map },
            core.saved block resume⟩ := by
  constructor
  · intro h
    obtain ⟨haligned, hfits⟩ := fits_of_exchange h
    refine ⟨haligned, hfits, ?_⟩
    rw [exchange_eq_loadPsd haligned hfits rfl, loadPsd_eq_mapUnder] at h
    split at h
    · next map hmap =>
      cases h
      exact ⟨map, hmap, rfl⟩
    · cases h
  · rintro ⟨haligned, hfits, map, hmap, rfl⟩
    exact exchange_of_fits haligned hfits rfl hmap

theorem keeps_cpu_toMemory {α : Type} {x : Memory.Action α} : Moves (Keeps Core.cpu) (toMemory x) :=
  moves_toMemory fun _ _ _ => rfl

theorem keeps_cpu_loadPsd {changeMaps : Bool} : Ends (fun _ => Anyhow) (Keeps Core.cpu) (loadPsd p changeMaps) where
  ok _ := trivial
  error {s s' t} h := by
    rw [loadPsd_eq] at h
    split at h
    · obtain h | ⟨_, _, _, h⟩ := bind_eq_error.mp h
      · rw [loadMap_eq] at h
        split at h
        · cases h
        · cases h
          rfl
      · cases h
    · cases h

theorem keeps_cpu_readPsd : Moves (Keeps Core.cpu) (readPsd block) :=
  .bind moves_fromMemory fun _ => .bind moves_fromMemory fun _ => .pure _

/-- A failure leaves the processor as it was. -/
theorem keeps_cpu_exchange : Ends (fun _ => Anyhow) (Keeps Core.cpu) (exchange block resume) :=
  .bind (Q := Keeps Core.cpu) moves_ask fun _ => .bind (Q := Keeps Core.cpu) moves_ask fun _ =>
    .bind keeps_cpu_toMemory fun _ => .bind keeps_cpu_toMemory fun _ =>
      .bind keeps_cpu_readPsd fun _ => keeps_cpu_loadPsd

/-- A start that fails leaves the processor as it was. -/
theorem cpu_of_startAt_error (h : startAt block core = .error t core') : core'.cpu = core.cpu := by
  obtain h | ⟨p, s, hread, h⟩ := bind_eq_error.mp h
  · exact keeps_cpu_readPsd.error h
  obtain h | ⟨_, _, _, h⟩ := bind_eq_error.mp h
  · exact Eq.trans (keeps_cpu_loadPsd.error h) (keeps_cpu_readPsd.ok hread)
  · cases h

end Exec
end Concept32
