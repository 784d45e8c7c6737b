import Concept32.Proofs.Exchange
import Concept32.Proofs.Hardware.Interrupts

/-!
# Which interrupt is taken

The least level that is ready is taken, if it has a context block and no level up to it is active. What asked for it
is used up, the status doubleword of the program is saved in the block, and the one in the block is put in force.
-/

namespace Concept32

/-! ### The scratchpad beside the levels -/

/-- A change of a level's entry leaves the other slots alone. -/
theorem Scratchpad.get_updateLevelEntry {s : Scratchpad} {level slot : Nat} {bits : Word} {on : Bool}
    (hne : level < levelCount → slot ≠ levelBase + level) (hslot : slot < 256) :
    (s.updateLevelEntry level bits on).get slot = s.get slot := by
  rw [updateLevelEntry]
  split
  · next h =>
    have hlevel : level < levelCount := by
      simp only [Bool.and_eq_true, decide_eq_true_eq] at h
      exact h.1
    have hcount : levelCount = 112 := rfl
    have hbase : levelBase = 128 := rfl
    have hplace : (levelBase + level) % 256 ≠ slot % 256 := by have := hne hlevel; omega
    exact Vector.getElem_set_ne (Nat.mod_lt _ (by decide)) (Nat.mod_lt _ (by decide)) hplace
  · rfl

/-- The entries of levels lie before the addresses of tables and the status word. -/
theorem Scratchpad.ne_levelEntry {level slot : Nat} (hbeyond : levelBase + levelCount ≤ slot) (hlevel : level < levelCount) :
    slot ≠ levelBase + level := by omega

namespace Cpu
variable {c : Cpu} {level : Nat}

theorem interruptsBlocked_activateLevel : (c.activateLevel level).interruptsBlocked = c.interruptsBlocked := by
  have hstatus : (c.activateLevel level).status = c.status :=
    Scratchpad.get_updateLevelEntry (Scratchpad.ne_levelEntry (by decide)) (by decide)
  rw [interruptsBlocked, interruptsBlocked, hstatus]

theorem processList_activateLevel : (c.activateLevel level).scratchpad.processList = c.scratchpad.processList := by
  rw [Scratchpad.processList, Scratchpad.processList]
  exact congrArg (· &&& 0x00FFFFFC#32)
    (Scratchpad.get_updateLevelEntry (Scratchpad.ne_levelEntry (by decide)) (by decide))

/-- A request that was made is used up by the activation. -/
theorem activateLevel_requestInterrupt : (c.requestInterrupt level).activateLevel level = c.activateLevel level := by
  have hlevels : (c.levels.request level).activate level = c.levels.activate level := InterruptLevels.modify_modify
  rw [activateLevel, requestInterrupt, hlevels, activateLevel]

end Cpu

/-! ### Taking an interrupt -/

namespace Cpu
variable {c : Cpu} {level : Nat}

theorem mapUnder_activateLevel {m : Memory} {p : Psd} : (c.activateLevel level).mapUnder m p = c.mapUnder m p := by
  rw [mapUnder, processList_activateLevel]
  rfl

/-- The processor once a level has interrupted the program for one with a status doubleword and a map. -/
def interrupted (c : Cpu) (level : Nat) (classF : Bool) (p : Psd) (map : AddressMap) : Cpu :=
  { (Exec.enforced p { c.activateLevel level with map := map }).settled level classF with mode := .running }

theorem interruptsBlocked_deactivateLevel : (c.deactivateLevel level).interruptsBlocked = c.interruptsBlocked := by
  have hstatus : (c.deactivateLevel level).status = c.status :=
    Scratchpad.get_updateLevelEntry (Scratchpad.ne_levelEntry (by decide)) (by decide)
  rw [interruptsBlocked, interruptsBlocked, hstatus]

theorem psd_settled {classF : Bool} : (c.settled level classF).psd = c.psd := by
  rw [settled]
  split
  · rfl
  · rfl

theorem interruptsBlocked_settled {classF : Bool} : (c.settled level classF).interruptsBlocked = c.interruptsBlocked := by
  rw [settled]
  split
  · exact interruptsBlocked_deactivateLevel
  · rfl

theorem psd_interrupted {classF : Bool} {p : Psd} {map : AddressMap} : (c.interrupted level classF p map).psd = p :=
  psd_settled.trans Exec.psd_enforced

theorem interruptsBlocked_interrupted {classF : Bool} {p : Psd} {map : AddressMap} (hopen : c.interruptsBlocked = false) :
    (c.interrupted level classF p map).interruptsBlocked = (p.blocking = .block : Bool) := by
  have hactive : (c.activateLevel level).interruptsBlocked = false := interruptsBlocked_activateLevel.trans hopen
  have hblocks : (Exec.enforced p { c.activateLevel level with map := map }).interruptsBlocked = p.blocks false :=
    interruptsBlocked_enforced.trans (congrArg p.blocks hactive)
  exact interruptsBlocked_settled.trans (hblocks.trans Psd.blocks_false)

theorem levels_interrupted {classF : Bool} {p : Psd} {map : AddressMap} :
    (c.interrupted level classF p map).levels = c.levels.modify level fun l =>
      { l with requested := false, active := !(classF && p.blocking = .block) } := by
  have hactive : (Exec.enforced p { c.activateLevel level with map := map }).levels = c.levels.activate level :=
    Exec.levels_enforced
  rw [interrupted, settled, Exec.psd_enforced]
  cases classF && p.blocking = .block with
  | true => exact (congrArg (·.deactivate level) hactive).trans InterruptLevels.modify_modify
  | false => exact hactive

theorem slot_interrupted {classF : Bool} {p : Psd} {map : AddressMap} {slot : Nat} (hslot : slot < 256)
    (hstatus : slot ≠ Scratchpad.statusSlot) (hlevel : slot ≠ Scratchpad.levelBase + level) :
    (c.interrupted level classF p map).scratchpad.get slot = c.scratchpad.get slot := by
  have hentry : ∀ s : Scratchpad, ∀ on, (s.updateLevelEntry level Scratchpad.activeBit on).get slot = s.get slot :=
    fun s on => Scratchpad.get_updateLevelEntry (fun _ => hlevel) hslot
  have henforced : ∀ c : Cpu, (Exec.enforced p c).scratchpad.get slot = c.scratchpad.get slot := fun _ =>
    Exec.slot_enforced (by rw [Nat.mod_eq_of_lt hslot]; exact hstatus)
  rw [interrupted, settled]
  split
  · exact (hentry _ _).trans ((henforced _).trans (hentry _ _))
  · exact (henforced _).trans (hentry _ _)

theorem interrupted_eq {classF : Bool} {p : Psd} {map : AddressMap} :
    c.interrupted level classF p map = { c with
      psd := p
      map := map
      levels := (c.interrupted level classF p map).levels
      scratchpad := (c.interrupted level classF p map).scratchpad
      mode := .running } := by
  rw [interrupted, settled, enforced_eq]
  split
  · rfl
  · rfl

theorem map_interrupted {classF : Bool} {p : Psd} {map : AddressMap} :
    (c.interrupted level classF p map).map = map := by
  rw [interrupted_eq]

end Cpu

namespace Hardware
open EStateM
variable {δ ω : Type} {s s' : Hardware δ ω} {now level : Nat} {entry : ConfigurationEntry} {block : Word}

theorem toNat_of_levelBlock? {cpu : Cpu} {mem : Memory} (h : cpu.levelBlock? mem level = some block) :
    block.toNat % 4 = 0 ∧ block.toNat < 0x1000000 := by
  rw [Cpu.levelBlock?] at h
  split at h
  · cases h
  · exact Memory.contextBlock?_eq_some h

theorem takeInterrupt_of_none {cpu : Cpu} {mem : Memory} (hnone : cpu.levelBlock? mem level = none) :
    takeInterrupt now level entry ⟨cpu, mem⟩ =
      .ok false ⟨{ cpu with levels := cpu.levels.clearRequest level }, mem⟩ := by
  rcases takeInterrupt_cases now level entry ⟨cpu, mem⟩ with ⟨-, htake⟩ | ⟨_, _, hblock, -⟩
  · exact htake
  · cases hnone.symm.trans hblock

theorem takeInterrupt_of_block {cpu : Cpu} {mem memory : Memory} {map : AddressMap}
    (hblock : cpu.levelBlock? mem level = some block) (hfits : block.toNat + 16 ≤ mem.sizeBytes)
    (hmemory : mem.saved block (cpu.psd.withAddress cpu.psd.address) cpu.interruptsBlocked = memory)
    (hmap : cpu.mapUnder memory (memory.routine block) = .ok map) :
    takeInterrupt now level entry ⟨cpu, mem⟩ =
      .ok true ⟨cpu.interrupted level entry.isClassF (memory.routine block) map, memory⟩ := by
  have hexchange : Exec.exchange block cpu.psd.address ⟨cpu.activateLevel level, mem⟩ =
      .ok () ⟨Exec.enforced (memory.routine block) { cpu.activateLevel level with map := map }, memory⟩ := by
    refine Exec.exchange_of_fits (toNat_of_levelBlock? hblock).1 hfits ?_ (Cpu.mapUnder_activateLevel.trans hmap)
    rw [Core.saved, Cpu.interruptsBlocked_activateLevel]
    exact hmemory
  rcases takeInterrupt_cases now level entry ⟨cpu, mem⟩ with ⟨hnone, -⟩ | ⟨_, _, hfound, ⟨hentered, htake⟩ | ⟨_, hfailed, -⟩⟩
  · cases hnone.symm.trans hblock
  · cases hfound.symm.trans hblock
    cases hentered.symm.trans hexchange
    exact htake
  · cases hfound.symm.trans hblock
    cases hfailed.symm.trans hexchange

theorem takeInterrupt_requestInterrupt {cpu : Cpu} {memory : Memory} :
    takeInterrupt now level entry ⟨cpu.requestInterrupt level, memory⟩ = takeInterrupt now level entry ⟨cpu, memory⟩ := by
  cases hblock : cpu.levelBlock? memory level with
  | none =>
    have hlevels : (cpu.levels.request level).clearRequest level = cpu.levels.clearRequest level :=
      InterruptLevels.modify_modify
    have hrequested : (cpu.requestInterrupt level).levelBlock? memory level = none := hblock
    rw [takeInterrupt_of_none hblock, takeInterrupt_of_none hrequested, ← hlevels]
    rfl
  | some block =>
    rw [takeInterrupt, bind_of_ok (get_eq_ok.mpr ⟨rfl, rfl⟩), bind_of_ok (get_eq_ok.mpr ⟨rfl, rfl⟩)]
    dsimp only
    rw [show (cpu.requestInterrupt level).levelBlock? memory level = some block from hblock, hblock]
    dsimp only
    rw [bind_of_ok (show Delivery.modifyCpu (fun c => c.activateLevel level) ⟨cpu.requestInterrupt level, memory⟩ =
      .ok () ⟨cpu.activateLevel level, memory⟩ by
        rw [Delivery.modifyCpu, Cpu.activateLevel_requestInterrupt])]
    rfl

/-! ### Presenting status -/

/-- The context block of a level. -/
def block? (s : Hardware δ ω) (level : Nat) : Option Word := s.core.cpu.levelBlock? s.core.memory level

/-- The channel behind a level. -/
def channelOf (s : Hardware δ ω) (level : Nat) : RealChannel :=
  s.channels.channel (s.core.cpu.scratchpad.levelEntry level).realChannel

/-- The place of a level's channel in memory. -/
def placeOf (s : Hardware δ ω) (level : Nat) : Word := (s.channelOf level).statusAddress.setWidth 32

/-- The oldest status of a level's channel has been stored in its place, and the context block tells where. -/
def delivered (s : Hardware δ ω) (level : Nat) (block : Word) (status : StatusDoubleword)
    (rest : List StatusDoubleword) : Hardware δ ω where
  core := ⟨s.core.cpu, ((s.core.memory.stored (s.placeOf level) status.word1).stored (s.placeOf level + 4)
    status.word2).stored (block + 20) (s.placeOf level ||| RealChannel.postedBit)⟩
  channels := s.channels.setChannel (s.core.cpu.scratchpad.levelEntry level).realChannel
    { s.channelOf level with queue := rest }

/-- The state in which a level interrupts: without a request it has status of its channel delivered. -/
def presented (s : Hardware δ ω) (level : Nat) : Hardware δ ω :=
  if (s.core.cpu.levels.get level).requested then s
  else match s.block? level, (s.channelOf level).queue with
    | some block, status :: rest => s.delivered level block status rest
    | _, _ => s

/-- The context blocks of levels and the places for status lie in memory. -/
structure Fits (s : Hardware δ ω) : Prop where
  block : ∀ level < levelCount, (s.core.cpu.scratchpad.levelEntry level).isConfigured = true →
    ∀ block, s.block? level = some block → block.toNat + 24 ≤ s.core.memory.sizeBytes
  place : ∀ n, (s.channels.channel n).queue ≠ [] → (s.channels.channel n).statusAddress.toNat % 4 = 0 ∧
    (s.channels.channel n).statusAddress.toNat + 8 ≤ s.core.memory.sizeBytes

theorem presentStatus_of_fits {status : StatusDoubleword} {rest : List StatusDoubleword}
    (hblock : s.block? level = some block) (hqueue : (s.channelOf level).queue = status :: rest)
    (hfits : block.toNat + 24 ≤ s.core.memory.sizeBytes)
    (hplace : (s.placeOf level).toNat % 4 = 0 ∧ (s.placeOf level).toNat + 8 ≤ s.core.memory.sizeBytes) :
    presentStatus (s.core.cpu.scratchpad.levelEntry level) level s =
      .ok true { s.delivered level block status rest with
        core := ⟨s.core.cpu.requestInterrupt level, (s.delivered level block status rest).core.memory⟩ } := by
  obtain ⟨⟨cpu, memory⟩, channels⟩ := s
  rw [block?] at hblock
  rw [channelOf] at hqueue
  generalize hentry : cpu.scratchpad.levelEntry level = entry at hqueue
  obtain ⟨haligned, hfit⟩ := hplace
  rw [placeOf, channelOf] at haligned hfit
  rw [delivered, placeOf, channelOf]
  dsimp only at hblock hqueue hfits haligned hfit ⊢
  rw [hentry] at haligned hfit ⊢
  have hreal : channels.real.get? entry.realChannel = some (channels.channel entry.realChannel) := by
    cases h : channels.real.get? entry.realChannel with
    | none => rw [Channels.channel, h] at hqueue; cases hqueue
    | some r => rw [Channels.channel, h]; rfl
  generalize channels.channel entry.realChannel = r at *
  generalize hplaceW : (r.statusAddress.setWidth 32 : Word) = place at *
  have h4 : (place + 4).toNat = place.toNat + 4 := memory.toNat_add_of_fits (k := 4) (by decide) (by omega)
  have h20 : (block + 20).toNat = block.toNat + 20 := memory.toNat_add_of_fits (k := 20) (by decide) (by omega)
  have hpair : memory.after (Memory.writePair place status.word1 status.word2) =
      (memory.stored place status.word1).stored (place + 4) status.word2 := by
    rw [Memory.after_writePair haligned h4 (by rw [Memory.sizeBytes] at hfit; omega), Memory.stored, Memory.stored, h4]
    have hindex : (place.toNat + 4) / 4 = place.toNat / 4 + 1 := by omega
    rw [hindex]
  have hpost : r.post memory = (some (place ||| RealChannel.postedBit), { r with queue := rest },
      (memory.stored place status.word1).stored (place + 4) status.word2) := by
    rw [RealChannel.post, hqueue]
    dsimp only
    rw [hplaceW, hpair]
  have hwrite := Memory.writeWord_stored (m := (memory.stored place status.word1).stored (place + 4) status.word2)
    (a := block + 20) (w := place ||| RealChannel.postedBit)
    (by have := (toNat_of_levelBlock? hblock).1; omega)
    (by rw [Memory.sizeBytes_stored, Memory.sizeBytes_stored]; omega)
  rw [presentStatus, hblock]
  dsimp only
  rw [Channels.postStatus, hreal]
  dsimp only
  rw [hpost]
  dsimp only
  rw [hwrite]

/-! ### The first level that is ready -/

/-- A level interrupts: it is the least that is ready, and no level up to it is active. -/
structure First (s : Hardware δ ω) (level : Nat) : Prop where
  lt : level < levelCount
  ready : s.Ready level
  least : ∀ k < level, ¬s.Ready k
  idle : ∀ k ≤ level, s.core.cpu.levels.isActive k = false

theorem First.unique {k : Nat} (h : s.First level) (h' : s.First k) : k = level := by
  rcases Nat.lt_trichotomy k level with hlt | rfl | hlt
  · exact absurd h'.ready (h.least k hlt)
  · rfl
  · exact absurd h.ready (h'.least level hlt)

theorem First.not_quiet (h : s.First level) (hopen : s.core.cpu.interruptsBlocked = false) : ¬s.Quiet := by
  rintro (hblocked | hall)
  · rw [hblocked] at hopen
    cases hopen
  · obtain ⟨j, hle, hactive⟩ := hall level h.lt h.ready
    rw [h.idle j hle] at hactive
    cases hactive

theorem least_ready (s : Hardware δ ω) (n : Nat) :
    (∀ k < n, ¬s.Ready k) ∨ ∃ level < n, s.Ready level ∧ ∀ k < level, ¬s.Ready k := by
  induction n with
  | zero => exact .inl fun k hk => absurd hk (Nat.not_lt_zero k)
  | succ n ih =>
    rcases ih with hnone | ⟨level, hlt, hready, hleast⟩
    · by_cases hready : s.Ready n
      · exact .inr ⟨n, Nat.lt_succ_self n, hready, hnone⟩
      · refine .inl fun k hk => ?_
        rcases Nat.lt_succ_iff_lt_or_eq.mp hk with hlt | rfl
        · exact hnone k hlt
        · exact hready
    · exact .inr ⟨level, Nat.lt_succ_of_lt hlt, hready, hleast⟩

/-- If interrupts are not blocked and an interrupt can be taken, some level is the first. -/
theorem first_or_quiet (s : Hardware δ ω) : s.Quiet ∨ s.core.cpu.interruptsBlocked = false ∧ ∃ level, s.First level := by
  cases hblocked : s.core.cpu.interruptsBlocked with
  | true => exact .inl (.inl hblocked)
  | false =>
    rcases s.least_ready levelCount with hnone | ⟨level, hlt, hready, hleast⟩
    · exact .inl (.inr fun level hlt hready => absurd hready (hnone level hlt))
    · by_cases hidle : ∀ k ≤ level, s.core.cpu.levels.isActive k = false
      · exact .inr ⟨rfl, level, hlt, hready, hleast, hidle⟩
      · refine .inl (.inr fun k hk hkready => ?_)
        obtain ⟨j, hj⟩ := Classical.not_forall.mp hidle
        obtain ⟨hle, hactive⟩ := Classical.not_imp.mp hj
        have hge : level ≤ k := Nat.le_of_not_lt fun hless => hleast k hless hkready
        exact ⟨j, Nat.le_trans hle hge, (Bool.not_eq_false _).mp hactive⟩

/-- The scan ends at the first level, which is taken after its status has been presented. -/
theorem scanLevels_ready {left : Nat} (hfits : s.Fits) (hfirst : s.First level) (hlevel : levelCount - (left + 1) = level) :
    scanLevels now (left + 1) s =
      onCore (takeInterrupt now level (s.core.cpu.scratchpad.levelEntry level)) (s.presented level) := by
  obtain ⟨hconfigured, henabled, hready⟩ := hfirst.ready
  have hidle : (s.core.cpu.levels.get level).active = false := hfirst.idle level (Nat.le_refl _)
  rw [scanLevels, hlevel]
  show (if (s.core.cpu.levels.get level).active then _ else _ : EStateM TrapHalt (Hardware δ ω) Bool) s = _
  rw [hidle, if_neg Bool.false_ne_true, hconfigured, henabled, if_neg (by decide)]
  cases hrequested : (s.core.cpu.levels.get level).requested with
  | true => rw [if_pos rfl, presented, if_pos hrequested]
  | false =>
    obtain hr | ⟨hclassF, hsome, hwaits⟩ := hready
    · rw [hrequested] at hr
      cases hr
    obtain ⟨block, hblock⟩ := Option.isSome_iff_exists.mp hsome
    obtain ⟨status, rest, hqueue⟩ := List.exists_cons_of_ne_nil hwaits
    have hpresented : s.presented level = s.delivered level block status rest := by
      rw [presented, hrequested, if_neg Bool.false_ne_true, block?, hblock, channelOf, hqueue]
    have hplace := hfits.place _ hwaits
    have hpresent := presentStatus_of_fits hblock hqueue (hfits.block level hfirst.lt hconfigured block hblock) (by
      rw [placeOf, channelOf, BitVec.toNat_setWidth_of_le (by decide)]
      exact hplace)
    rw [if_neg Bool.false_ne_true, hclassF, if_neg (by decide), bind_of_ok hpresent, if_pos rfl, hpresented, onCore,
      onCore, takeInterrupt_requestInterrupt]
    rfl

theorem scanLevels_of_first {left : Nat} (hfits : s.Fits) (hfirst : s.First level) (hleft : left ≤ levelCount)
    (hlevel : levelCount - left ≤ level) :
    scanLevels now left s =
      onCore (takeInterrupt now level (s.core.cpu.scratchpad.levelEntry level)) (s.presented level) := by
  induction left with
  | zero => exact absurd hfirst.lt (by omega)
  | succ left ih =>
    rcases Nat.eq_or_lt_of_le hlevel with heq | hlt
    · exact scanLevels_ready hfits hfirst heq
    · rw [scanLevels_skip rfl (hfirst.idle _ hlevel) (hfirst.least _ hlt)]
      exact ih (by omega) (by omega)

/-! ### Arbitration -/

/-- Memory with the status doubleword of the program saved in a context block. -/
def saved (s : Hardware δ ω) (block : Word) : Memory :=
  s.core.memory.saved block (s.core.cpu.psd.withAddress s.core.cpu.psd.address) s.core.cpu.interruptsBlocked

/-- The context block through which a level interrupts lies in memory, and the map of its routine can be loaded. -/
def Loads (s : Hardware δ ω) (level : Nat) : Prop :=
  ∀ block, s.block? level = some block → block.toNat + 16 ≤ s.core.memory.sizeBytes ∧
    ∃ map, s.core.cpu.mapUnder (s.saved block) ((s.saved block).routine block) = .ok map

/-- A level has interrupted: the program's status doubleword is saved in the context block, the routine's is in force,
and of the processor nothing else has changed but the level, its slot in the scratchpad and the status word. -/
structure Takes (level : Nat) (block : Word) (s s' : Hardware δ ω) : Prop where
  channels : s'.channels = s.channels
  saved : s'.core.memory = s.saved block
  loaded : s'.core.cpu.psd = s'.core.memory.routine block
  map : s.core.cpu.mapUnder s'.core.memory s'.core.cpu.psd = .ok s'.core.cpu.map
  levels : s'.core.cpu.levels = s.core.cpu.levels.modify level fun l => { l with
    requested := false
    active := !((s.core.cpu.scratchpad.levelEntry level).isClassF && s'.core.cpu.psd.blocking = .block) }
  blocked : s'.core.cpu.interruptsBlocked = (s'.core.cpu.psd.blocking = .block : Bool)
  slots : ∀ slot < 256, slot ≠ Scratchpad.statusSlot → slot ≠ Scratchpad.levelBase + level →
    s'.core.cpu.scratchpad.get slot = s.core.cpu.scratchpad.get slot
  others : s'.core.cpu = { s.core.cpu with
    psd := s'.core.cpu.psd
    map := s'.core.cpu.map
    levels := s'.core.cpu.levels
    scratchpad := s'.core.cpu.scratchpad
    mode := .running }

/-- The request of a level is dropped. -/
def withoutRequest (s : Hardware δ ω) (level : Nat) : Hardware δ ω :=
  { s with core := ⟨{ s.core.cpu with levels := s.core.cpu.levels.clearRequest level }, s.core.memory⟩ }

/-- The ways in which a look for an interrupt ends. -/
inductive Arbitrates (s : Hardware δ ω) : Bool → Hardware δ ω → Prop
  /-- The first level has interrupted. -/
  | takes {level : Nat} {block : Word} {s' : Hardware δ ω} (hopen : s.core.cpu.interruptsBlocked = false)
      (hfirst : s.First level) (hblock : (s.presented level).block? level = some block)
      (htakes : Takes level block (s.presented level) s') : Arbitrates s true s'
  /-- The first level has no context block, and its request is dropped. -/
  | drops {level : Nat} (hopen : s.core.cpu.interruptsBlocked = false) (hfirst : s.First level)
      (hblock : (s.presented level).block? level = none) : Arbitrates s false ((s.presented level).withoutRequest level)
  | quiet (h : s.Quiet) : Arbitrates s false s

theorem cpu_presented (level : Nat) : (s.presented level).core.cpu = s.core.cpu := by
  rw [presented]
  split
  · rfl
  · split
    · rfl
    · rfl

theorem takes_of_block (now : Nat) (hopen : s.core.cpu.interruptsBlocked = false) (hblock : s.block? level = some block)
    (hloads : s.Loads level) :
    ∃ s', onCore (takeInterrupt now level (s.core.cpu.scratchpad.levelEntry level)) s = .ok true s' ∧
      Takes level block s s' := by
  obtain ⟨⟨cpu, mem⟩, channels⟩ := s
  obtain ⟨hfits, map, hmap⟩ := hloads block hblock
  generalize hmemory : (⟨⟨cpu, mem⟩, channels⟩ : Hardware δ ω).saved block = memory at hmap
  refine ⟨_, by rw [onCore, takeInterrupt_of_block hblock hfits hmemory hmap], ?_⟩
  have hpsd : (cpu.interrupted level (cpu.scratchpad.levelEntry level).isClassF (memory.routine block) map).psd =
      memory.routine block := Cpu.psd_interrupted
  exact {
    channels := rfl
    saved := hmemory.symm
    loaded := hpsd
    map := by
      dsimp only
      rw [hpsd, hmap, Cpu.map_interrupted]
    levels := by
      dsimp only
      rw [hpsd]
      exact Cpu.levels_interrupted
    blocked := by
      dsimp only
      rw [hpsd]
      exact Cpu.interruptsBlocked_interrupted hopen
    slots := fun slot hslot hstatus hlevel => Cpu.slot_interrupted hslot hstatus hlevel
    others := by
      dsimp only
      rw [hpsd, Cpu.map_interrupted]
      exact Cpu.interrupted_eq }

theorem scanForInterrupt_of_first (now : Nat) (hfits : s.Fits) (hopen : s.core.cpu.interruptsBlocked = false)
    (hfirst : s.First level) :
    scanForInterrupt now s =
      onCore (takeInterrupt now level (s.core.cpu.scratchpad.levelEntry level)) (s.presented level) := by
  rw [scanForInterrupt]
  show (if s.core.cpu.interruptsBlocked then _ else _ : EStateM TrapHalt (Hardware δ ω) Bool) s = _
  rw [hopen, if_neg Bool.false_ne_true]
  exact scanLevels_of_first hfits hfirst (Nat.le_refl _) (by omega)

theorem scanForInterrupt_of_none (hfits : s.Fits) (hopen : s.core.cpu.interruptsBlocked = false)
    (hfirst : s.First level) (hblock : (s.presented level).block? level = none) :
    scanForInterrupt now s = .ok false ((s.presented level).withoutRequest level) := by
  rw [scanForInterrupt_of_first now hfits hopen hfirst]
  generalize s.presented level = t at hblock
  obtain ⟨⟨cpu, mem⟩, channels⟩ := t
  rw [onCore, takeInterrupt_of_none hblock]
  rfl

/-- A look for an interrupt takes the first level and no other, if interrupts are not blocked and its context block is
in the table once its status has been presented. Otherwise it takes none. -/
theorem scanForInterrupt_arbitrates (s : Hardware δ ω) (now : Nat) (hfits : s.Fits)
    (hloads : ∀ level, s.First level → (s.presented level).Loads level) :
    ∃ taken s', scanForInterrupt now s = .ok taken s' ∧ Arbitrates s taken s' ∧
      (taken = true ↔ s.core.cpu.interruptsBlocked = false ∧
        ∃ level, s.First level ∧ ((s.presented level).block? level).isSome) := by
  rcases s.first_or_quiet with hquiet | ⟨hopen, level, hfirst⟩
  · refine ⟨false, s, scanForInterrupt_of_quiet hquiet, .quiet hquiet, fun h => Bool.noConfusion h, ?_⟩
    rintro ⟨hopen, level, hfirst, -⟩
    exact absurd hquiet (hfirst.not_quiet hopen)
  · have hscan := scanForInterrupt_of_first now hfits hopen hfirst
    cases hblock : (s.presented level).block? level with
    | some block =>
      rw [← cpu_presented level] at hopen hscan
      obtain ⟨s', htake, htakes⟩ := takes_of_block now hopen hblock (hloads level hfirst)
      rw [cpu_presented] at hopen
      exact ⟨true, s', hscan.trans htake, .takes hopen hfirst hblock htakes,
        ⟨fun _ => ⟨hopen, level, hfirst, by rw [hblock]; rfl⟩, fun _ => rfl⟩⟩
    | none =>
      refine ⟨false, _, scanForInterrupt_of_none hfits hopen hfirst hblock, .drops hopen hfirst hblock,
        fun h => Bool.noConfusion h, ?_⟩
      rintro ⟨-, k, hk, hsome⟩
      rw [hfirst.unique hk, hblock] at hsome
      cases hsome

/-! ### A place in the table itself -/

/-- A level of class F is enabled. The interrupt table is at 4, and the context block at `0x10`. -/
def oneLevel : Core where
  cpu := { Cpu.initial .c3227 0 with
    levels := InterruptLevels.idle.enable 0
    scratchpad := (Scratchpad.empty.set Scratchpad.levelBase 0x0F000000#32).set Scratchpad.interruptTableSlot 4#32 }
  memory := ⟨#[0, 0x10#32, 0, 0, 0, 0, 0x80000100#32, 0, 0, 0, 0, 0], by decide⟩

/-- Status of the level's channel waits for a place. -/
def waiting (place : Address) : Hardware Unit Unit where
  core := oneLevel
  channels := { Channels.empty with real := Table.empty.set 0 ⟨place, [⟨0, 0x00800000#32⟩]⟩ }

section
variable {place : Address}

theorem block?_waiting : (waiting place).block? 0 = some 0x10#32 :=
  show oneLevel.cpu.levelBlock? oneLevel.memory 0 = some 0x10#32 by decide +kernel

theorem entry_waiting : ((waiting place).core.cpu.scratchpad.levelEntry 0) = ⟨0x0F000000#32⟩ :=
  show oneLevel.cpu.scratchpad.levelEntry 0 = ⟨0x0F000000#32⟩ by decide +kernel

theorem channel_waiting {n : Byte} :
    (waiting place).channels.channel n = if n = 0 then ⟨place, [⟨0, 0x00800000#32⟩]⟩ else .idle := by
  rw [Channels.channel, waiting, Table.get?_set]
  split
  · rfl
  · rfl

theorem first_waiting : (waiting place).First 0 where
  lt := by decide
  ready := by
    rw [Ready, entry_waiting]
    refine ⟨by decide, show (oneLevel.cpu.levels.get 0).enabled = true by decide +kernel, .inr ⟨by decide, ?_, ?_⟩⟩
    · exact Option.isSome_iff_exists.mpr ⟨_, block?_waiting⟩
    · rw [channel_waiting, if_pos (by decide)]
      exact List.cons_ne_nil _ _
  least k hk := absurd hk (Nat.not_lt_zero k)
  idle k hk := by
    obtain rfl := Nat.le_zero.mp hk
    exact show oneLevel.cpu.levels.isActive 0 = false by decide +kernel

theorem fits_waiting (haligned : place.toNat % 4 = 0) (hplace : place.toNat + 8 ≤ 48) : (waiting place).Fits where
  block level hlt hconfigured block hblock := by
    have honly : ∀ level < levelCount, (oneLevel.cpu.scratchpad.levelEntry level).isConfigured = true → level = 0 := by
      decide +kernel
    obtain rfl := honly level hlt hconfigured
    obtain rfl := Option.some.inj (block?_waiting.symm.trans hblock)
    exact show (0x10#32).toNat + 24 ≤ oneLevel.memory.sizeBytes by decide
  place n hwaits := by
    rw [channel_waiting] at hwaits ⊢
    split at hwaits
    · next hn =>
      rw [if_pos hn]
      exact ⟨haligned, hplace⟩
    · exact absurd rfl hwaits

end

/-- With a place of its own for the status the level is taken. -/
theorem waiting_taken : (waiting 0x28).Fits ∧ ∃ taken s', scanForInterrupt 0 (waiting 0x28) = .ok taken s' ∧
    Arbitrates (waiting 0x28) taken s' ∧ (taken = true ↔ (waiting 0x28).core.cpu.interruptsBlocked = false ∧
      ∃ level, (waiting 0x28).First level ∧ (((waiting 0x28).presented level).block? level).isSome) := by
  have hfits : (waiting 0x28).Fits := fits_waiting (by decide) (by decide)
  refine ⟨hfits, scanForInterrupt_arbitrates (waiting 0x28) 0 hfits fun level hfirst block hblock => ?_⟩
  obtain rfl := first_waiting.unique hfirst
  have hkept : ((waiting 0x28).presented 0).block? 0 = some 0x10#32 := by decide +kernel
  obtain rfl := Option.some.inj (hkept.symm.trans hblock)
  exact ⟨by decide +kernel, _, if_neg (by decide +kernel)⟩

/-- Status that is presented in the entry of its own level takes the context block away: the level is ready, but it
loses its status and does not interrupt. -/
theorem waiting_lost : (waiting 4).Fits ∧ (waiting 4).core.cpu.interruptsBlocked = false ∧ (waiting 4).First 0 ∧
    (waiting 4).block? 0 = some 0x10#32 ∧ (waiting 4).Loads 0 ∧ ((waiting 4).channelOf 0).queue ≠ [] ∧
    ∃ s', scanForInterrupt 0 (waiting 4) = .ok false s' ∧ (s'.channelOf 0).queue = [] := by
  have hfits : (waiting 4).Fits := fits_waiting (by decide) (by decide)
  have hopen : (waiting 4).core.cpu.interruptsBlocked = false := show oneLevel.cpu.interruptsBlocked = false by decide +kernel
  have hloads : (waiting 4).Loads 0 := fun block hblock => by
    obtain rfl := Option.some.inj (block?_waiting.symm.trans hblock)
    exact ⟨by decide +kernel, _, if_neg (by decide +kernel)⟩
  have hgone : ((waiting 4).presented 0).block? 0 = none := by decide +kernel
  exact ⟨hfits, hopen, first_waiting, block?_waiting, hloads, by decide +kernel, _,
    scanForInterrupt_of_none hfits hopen first_waiting hgone, by decide +kernel⟩

end Hardware
end Concept32
