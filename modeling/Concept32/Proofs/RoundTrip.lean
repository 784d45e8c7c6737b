import Concept32.Proofs.Exchange
import Concept32.Proofs.LoadedMap

/-!
# Saved status doublewords

A status doubleword that an exchange saved can be loaded again. It comes back as it was, at the address at which the
program is to go on and with interrupts blocked if they were, whatever the two programs ask for. Only its map may be
in the way: if it is to be loaded again and memory describes none any more, nothing comes back.
-/

namespace Concept32

namespace Psd
variable {p : Psd} {a : Word} {blocked before : Bool}

/-- The map changes when the status doubleword is put in force. -/
def loadsMap (p : Psd) : Bool := p.mapped && !p.retainsMaps

/-- The status doubleword as it is saved when the program is to go on at an address. -/
def suspended (p : Psd) (resume : Word) (blocked : Bool) : Psd :=
  ⟨(p.withAddress resume).word1, (p.withAddress resume).savedWord2 blocked⟩

theorem addressMask_and_addressField : p.addressMask &&& addressField = p.addressMask := by
  rw [addressMask]
  split
  · decide
  · split
    · decide
    · decide

theorem address_suspended : (p.suspended a blocked).address = a &&& p.addressMask := by
  rw [suspended, address, withAddress, replaceBits_and_self, BitVec.and_assoc, addressMask_and_addressField]

theorem word1_suspended : (p.suspended a blocked).word1 &&& ~~~addressField = p.word1 &&& ~~~addressField :=
  replaceBits_and_not

theorem word2_suspended : (p.suspended a blocked).word2 &&& ~~~blockingField = p.word2 &&& ~~~blockingField :=
  replaceBits_and_not

theorem loadsMap_suspended : (p.suspended a blocked).loadsMap = p.loadsMap := by
  have hmapped : (p.suspended a blocked).mapped = p.mapped := hasAny_replaceBits (by decide)
  have hretains : (p.suspended a blocked).retainsMaps = p.retainsMaps := hasAny_replaceBits (by decide)
  rw [loadsMap, hmapped, hretains, loadsMap]

theorem cpix_suspended : (p.suspended a blocked).cpix = p.cpix := replaceBits_and (by decide)

/-- The directive of a saved status doubleword blocks interrupts or lets them through; it never leaves them as they
are. -/
theorem blocks_suspended : (p.suspended a blocked).blocks before = blocked := by
  have hfield : (p.suspended a blocked).word2 &&& blockingField = if blocked then blockBit else 0 := by
    rw [suspended, savedWord2, replaceBits_and_self]
    cases blocked with
    | true => rfl
    | false => rfl
  rw [blocks, blocking, hfield]
  cases blocked with
  | true => rfl
  | false => rfl

end Psd

namespace Exec
open EStateM
variable {s s₁ t : Core} {block resume : Word} {u : Unit}

/-- Load the status doubleword that is saved in a context block, as a return from an interrupt does. -/
def restore (block : Word) : Exec Unit := do
  let p ← readPsd block
  loadPsd p (!p.retainsMaps)

/-- What was saved has come back: the status doubleword of the one state, to go on at an address, has been put in
force in another. -/
structure Restores (s : Core) (resume : Word) (t u : Core) : Prop where
  address : u.cpu.psd.address = resume
  word1 : u.cpu.psd.word1 &&& ~~~Psd.addressField = s.cpu.psd.word1 &&& ~~~Psd.addressField
  word2 : u.cpu.psd.word2 &&& ~~~Psd.blockingField = s.cpu.psd.word2 &&& ~~~Psd.blockingField
  blocked : u.cpu.interruptsBlocked = s.cpu.interruptsBlocked
  kept : s.cpu.psd.loadsMap = false → u.cpu.map = t.cpu.map
  loaded : s.cpu.psd.loadsMap = true → u.cpu.map.scheme = t.cpu.map.scheme ∧
    TranslationUnit.Describes t.cpu.map.scheme t.memory t.cpu.scratchpad.processList s.cpu.psd.cpix u.cpu.map.loaded.toList
  memory : u.memory = t.memory
  others : u.cpu = { t.cpu with
    psd := u.cpu.psd
    map := u.cpu.map
    scratchpad := u.cpu.scratchpad }

theorem mapUnder_of_kept {c : Cpu} {m : Memory} {p : Psd} (h : p.loadsMap = false) : c.mapUnder m p = .ok c.map :=
  if_neg (by rw [Psd.loadsMap] at h; rw [h]; exact Bool.false_ne_true)

theorem mapUnder_of_loaded {c : Cpu} {m : Memory} {p : Psd} (h : p.loadsMap = true) :
    c.mapUnder m p = c.map.load m c.scratchpad.processList p.cpix := if_pos h

/-- The words that an exchange leaves behind. -/
theorem readWord_of_exchange (h : exchange block resume s = .ok u s₁) :
    s₁.memory.readWord block = .ok (s.cpu.psd.suspended resume s.cpu.interruptsBlocked).word1 ∧
      s₁.memory.readWord (block + 4) = .ok (s.cpu.psd.suspended resume s.cpu.interruptsBlocked).word2 := by
  obtain ⟨haligned, hfits, map, hmap, rfl⟩ := exchange_eq_ok.mp h
  exact Memory.readWord_saved haligned (by omega)

/-- An exchange leaves the map alone if the new status doubleword does not ask for one. -/
theorem map_of_exchange (h : exchange block resume s = .ok u s₁) (hkept : (s₁.memory.routine block).loadsMap = false) :
    s₁.cpu.map = s.cpu.map := by
  obtain ⟨-, -, map, hmap, rfl⟩ := exchange_eq_ok.mp h
  rw [mapUnder_of_kept hkept] at hmap
  cases hmap
  rw [Cpu.enforced_eq]

theorem restores_enforced {map : AddressMap} (hresume : resume &&& s.cpu.psd.addressMask = resume)
    (hmap : t.cpu.mapUnder t.memory (s.cpu.psd.suspended resume s.cpu.interruptsBlocked) = .ok map) :
    Restores s resume t
      ⟨enforced (s.cpu.psd.suspended resume s.cpu.interruptsBlocked) { t.cpu with map := map }, t.memory⟩ where
  address := by rw [psd_enforced, Psd.address_suspended, hresume]
  word1 := by rw [psd_enforced, Psd.word1_suspended]
  word2 := by rw [psd_enforced, Psd.word2_suspended]
  blocked := by rw [Cpu.interruptsBlocked_enforced, Psd.blocks_suspended]
  kept h := by
    rw [mapUnder_of_kept (Psd.loadsMap_suspended.trans h)] at hmap
    cases hmap
    rw [Cpu.enforced_eq]
  loaded h := by
    rw [mapUnder_of_loaded (Psd.loadsMap_suspended.trans h), Psd.cpix_suspended] at hmap
    rw [Cpu.enforced_eq]
    exact AddressMap.load_eq_ok.mp hmap
  memory := rfl
  others := by
    rw [Cpu.enforced_eq]

/-- A doubleword that lies in memory at a physical address is read as a status doubleword is. -/
theorem readDouble_eq_readPsd {a : Word} (haligned : a.toNat % 8 = 0) (hfirst : translate a .read t = .ok block t)
    (hsecond : translate (a + 4) .read t = .ok (block + 4) t) :
    readDouble a t = (readPsd block >>= fun p => pure (joinWords p.word1 p.word2)) t := by
  have hpass : ∀ b n, b.toNat % n = 0 → requireAligned b n t = .ok () t := fun b n h => by
    rw [requireAligned, if_pos h]
    rfl
  have hword : ∀ b place, b.toNat % 4 = 0 → translate b .read t = .ok place t →
      readWord b .read t = fromMemory (fun m => m.readWord place) t := fun b place hb hplace => by
    rw [readWord, bind_of_ok (hpass b 4 hb), bind_of_ok hplace]
  have hnext : (a + 4).toNat % 4 = 0 := by
    rw [BitVec.toNat_add]
    show (a.toNat + 4) % 2 ^ 32 % 4 = 0
    omega
  have hhigh := hword a block (by omega) hfirst
  have hlow := hword (a + 4) (block + 4) hnext hsecond
  rw [readDouble, bind_of_ok (hpass a 8 haligned)]
  have hfails : ∀ (place : Word) e, t.memory.readWord place = .error e →
      fromMemory (fun m => m.readWord place) t = .error (.ofMemoryError e) t := fun place e h => by rw [fromMemory, h]
  cases hread : t.memory.readWord block with
  | error e =>
    have hpsd : readPsd block t = .error (.ofMemoryError e) t := bind_of_error (hfails block e hread)
    rw [bind_of_error (hhigh.trans (hfails block e hread)), bind_of_error hpsd]
  | ok word1 =>
    have hok : fromMemory (fun m => m.readWord block) t = .ok word1 t := fromMemory_eq_ok.mpr ⟨hread, rfl⟩
    rw [bind_of_ok (hhigh.trans hok)]
    cases hread' : t.memory.readWord (block + 4) with
    | error e =>
      have hpsd : readPsd block t = .error (.ofMemoryError e) t := by
        rw [readPsd, bind_of_ok hok]
        exact bind_of_error (hfails (block + 4) e hread')
      rw [bind_of_error (hlow.trans (hfails (block + 4) e hread')), bind_of_error hpsd]
    | ok word2 =>
      rw [bind_of_ok (hlow.trans (fromMemory_eq_ok.mpr ⟨hread', rfl⟩)), bind_of_ok (readPsd_eq hread hread')]

/-- A return from an interrupt loads what is saved in a context block to which its operand leads. -/
theorem loadPsdOperand_eq_restore {o : Operand} (hprivileged : t.cpu.psd.privileged = true)
    (haligned : o.operandAddress.toNat % 8 = 0) (hfirst : translate o.operandAddress .read t = .ok block t)
    (hsecond : translate (o.operandAddress + 4) .read t = .ok (block + 4) t) :
    loadPsdOperand o none t = restore block t := by
  have hcheck : requirePrivileged t = .ok () t := by
    rw [requirePrivileged, bind_of_ok (show psd t = .ok t.cpu.psd t from rfl), hprivileged]
    rfl
  have hdouble := readDouble_eq_readPsd haligned hfirst hsecond
  rw [loadPsdOperand, bind_of_ok hcheck, restore]
  cases hread : readPsd block t with
  | error e v =>
    rw [bind_of_error hread] at hdouble
    rw [bind_of_error hdouble, bind_of_error hread]
  | ok p v =>
    rw [bind_of_ok hread] at hdouble
    rw [bind_of_ok hdouble, bind_of_ok hread, highWord_joinWords, lowWord_joinWords]
    rfl

/-- What an exchange saved comes back whenever it is loaded again while the words are in memory, unless its map is
to be loaded and cannot be; then the load traps and changes nothing. -/
theorem restore_exchange (hresume : resume &&& s.cpu.psd.addressMask = resume)
    (h : exchange block resume s = .ok u s₁) :
    ((s₁.memory.routine block).loadsMap = false → s₁.cpu.map = s.cpu.map) ∧
    ∀ t : Core, t.memory.readWord block = s₁.memory.readWord block →
      t.memory.readWord (block + 4) = s₁.memory.readWord (block + 4) →
      ((∃ v, restore block t = .ok () v ∧ Restores s resume t v) ∨
        s.cpu.psd.loadsMap = true ∧ ∃ e, restore block t = .error e.trap t ∧
          t.cpu.map.load t.memory t.cpu.scratchpad.processList s.cpu.psd.cpix = .error e) ∧
      ∀ o : Operand, t.cpu.psd.privileged = true → o.operandAddress.toNat % 8 = 0 →
        translate o.operandAddress .read t = .ok block t →
        translate (o.operandAddress + 4) .read t = .ok (block + 4) t → loadPsdOperand o none t = restore block t := by
  refine ⟨map_of_exchange h, fun t hsame hsame' => ⟨?_, fun o => loadPsdOperand_eq_restore⟩⟩
  obtain ⟨hword1, hword2⟩ := readWord_of_exchange h
  have hread := readPsd_eq (hsame.trans hword1) (hsame'.trans hword2)
  rw [restore, bind_of_ok hread, loadPsd_eq_mapUnder]
  cases hmap : t.cpu.mapUnder t.memory (s.cpu.psd.suspended resume s.cpu.interruptsBlocked) with
  | ok map => exact .inl ⟨_, rfl, restores_enforced hresume hmap⟩
  | error e =>
    refine .inr ?_
    cases hloads : s.cpu.psd.loadsMap with
    | true =>
      rw [mapUnder_of_loaded (Psd.loadsMap_suspended.trans hloads), Psd.cpix_suspended] at hmap
      exact ⟨rfl, e, rfl, hmap⟩
    | false =>
      rw [mapUnder_of_kept (Psd.loadsMap_suspended.trans hloads)] at hmap
      cases hmap

/-- A mapped program whose map is listed at 0: the number of its segments, and the place of their descriptors. The
context block is at `0x10`, and its routine runs without a map. -/
def mappedProgram (segments : Word) : Core where
  cpu := { Cpu.initial .c3227 0 with psd := ⟨0x80000100#32, 0x80000000#32⟩ }
  memory := ⟨#[segments, 0x00FFFFFC#32, 0, 0, 0, 0, 0x80000200#32, 0x00004000#32], by simp⟩

/-- The operand of a return through the context block at `0x10`. -/
def returnOperand : Operand := ⟨⟨0xF9000010#32⟩, 0x10, false, .word, none, 0x204⟩

/-- With an empty map the program comes back. -/
theorem restore_exchange_mapped : 0x104#32 &&& (mappedProgram 0).cpu.psd.addressMask = 0x104#32 ∧
    ∃ s₁, exchange 0x10 0x104 (mappedProgram 0) = .ok () s₁ ∧ s₁.cpu.interruptsBlocked = true ∧
      ∃ v, loadPsdOperand returnOperand none s₁ = .ok () v ∧ Restores (mappedProgram 0) 0x104 s₁ v := by
  have hresume : 0x104#32 &&& (mappedProgram 0).cpu.psd.addressMask = 0x104#32 := by decide
  obtain ⟨s₁, hexchange⟩ : ∃ s₁, exchange 0x10 0x104 (mappedProgram 0) = .ok () s₁ := ⟨_, rfl⟩
  obtain ⟨hrestored, hreturn⟩ := (restore_exchange hresume hexchange).2 s₁ rfl rfl
  have hblocked : s₁.cpu.interruptsBlocked = true := by
    cases hexchange
    decide +kernel
  have hload : loadPsdOperand returnOperand none s₁ = restore 0x10 s₁ := by
    cases hexchange
    exact hreturn returnOperand rfl rfl rfl rfl
  refine ⟨hresume, s₁, hexchange, hblocked, ?_⟩
  rw [hload]
  rcases hrestored with hrestored | ⟨-, e, -, hfails⟩
  · exact hrestored
  · cases hexchange
    cases hfails

/-- A program whose map cannot be loaded does not come back. -/
theorem not_restored : ∃ s₁, exchange 0x10 0x104 (mappedProgram 1) = .ok () s₁ ∧
    0x104#32 &&& (mappedProgram 1).cpu.psd.addressMask = 0x104#32 ∧ restore 0x10 s₁ = .error .machineCheck s₁ ∧
      loadPsdOperand returnOperand none s₁ = .error .machineCheck s₁ :=
  ⟨_, rfl, by decide, rfl, rfl⟩

end Exec
end Concept32
