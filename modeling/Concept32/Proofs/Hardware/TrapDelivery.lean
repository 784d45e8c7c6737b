import Concept32.Proofs.Exchange
import Concept32.Proofs.Hardware.Raising

/-!
# A trap is delivered completely or halts the machine

Delivery is a chain of stores and loads of which each can fail. When all that it needs is there, the old status
doubleword and the status words of the trap are in the context block and the new one is in force; otherwise the
machine halts with the status doubleword, the registers and the blocking of interrupts as they were before the
instruction.
-/

namespace Concept32

namespace Trap

/-- The number of bytes of its context block that a trap needs. -/
def blockBytes : Trap → Nat
  | demandPage _ => 24
  | _ => 16

/-- The words of its context block that a trap stores. -/
def storedWords : Trap → List Nat
  | demandPage _ => [0, 1, 4, 5]
  | _ => [0, 1]

/-- Where a program goes on after a trap: at the instruction itself when a page was not resident, and otherwise at the
next one. -/
def resume (t : Trap) (itself next : Word) : Word :=
  match t with
  | demandPage _ => itself
  | _ => next

theorem le_blockBytes {t : Trap} : 16 ≤ t.blockBytes := by
  cases t with
  | demandPage _ => exact (by decide : 16 ≤ 24)
  | _ => exact Nat.le_refl 16

end Trap

namespace Memory
variable {m : Memory} {t : Trap} {failing block a : Word}

/-- Memory with the status words of a trap in its context block. -/
def noted (m : Memory) (t : Trap) (failing block : Word) : Memory :=
  match t.statusWords failing with
  | some (word4, word5) => (m.stored (block + 16) word4).stored (block + 20) word5
  | none => m

theorem sizeBytes_noted : (m.noted t failing block).sizeBytes = m.sizeBytes := by
  rw [noted]
  split
  · rw [sizeBytes_stored, sizeBytes_stored]
  · rfl

end Memory

/-- Memory with everything stored that the delivery of a trap stores. -/
def Core.entered (s : Core) (t : Trap) (block resume : Word) : Memory :=
  Core.saved ⟨s.cpu, s.memory.noted t s.cpu.faultAddress block⟩ block resume

/-- All that the delivery of a trap through a context block needs: traps are enabled, the trap table has the block, the
words that are used lie in memory, and the map of the new status doubleword can be loaded if it asks for one. -/
structure Core.Deliverable (s : Core) (t : Trap) (block resume : Word) : Prop where
  enabled : s.cpu.trapsEnabled = true
  entry : s.memory.contextBlock? (s.cpu.trapEntry t) = some block
  fits : block.toNat + t.blockBytes ≤ s.memory.sizeBytes
  loads : ∃ map, s.cpu.mapUnder (s.entered t block resume) ((s.entered t block resume).routine block) = .ok map

namespace Core
variable {s : Core} {t : Trap} {block resume a : Word}

theorem Deliverable.aligned (h : s.Deliverable t block resume) : block.toNat % 4 = 0 :=
  (Memory.contextBlock?_eq_some h.entry).1

/-- The words that the exchange of status doublewords needs. -/
theorem Deliverable.fits_exchange (h : s.Deliverable t block resume) : block.toNat + 16 ≤ s.memory.sizeBytes :=
  Nat.le_trans (Nat.add_le_add_left Trap.le_blockBytes _) h.fits

/-! ### Memory after a delivery -/

theorem sizeBytes_entered : (s.entered t block resume).sizeBytes = s.memory.sizeBytes := by
  rw [entered, saved, Memory.sizeBytes_saved, Memory.sizeBytes_noted]

/-- Outside the words that the trap stores memory is as it was. -/
theorem readWord_entered_of_ne (hlt : block.toNat < 0x1000000)
    (h : ∀ k ∈ t.storedWords, a.toNat / 4 ≠ block.toNat / 4 + k) :
    (s.entered t block resume).readWord a = s.memory.readWord a := by
  have hplace : ∀ k < 0x100, (block + BitVec.ofNat 32 k).toNat = block.toNat + k := fun k hk =>
    Memory.toNat_add_of_le (by omega) (by omega)
  have h4 : (block + 4).toNat = block.toNat + 4 := hplace 4 (by decide)
  have hword0 : a.toNat / 4 ≠ block.toNat / 4 + 0 := h 0 (by cases t <;> simp [Trap.storedWords])
  have hword1 : a.toNat / 4 ≠ block.toNat / 4 + 1 := h 1 (by cases t <;> simp [Trap.storedWords])
  rw [entered, saved, Memory.saved, Memory.readWord_stored_of_ne (by omega), Memory.readWord_stored_of_ne hword0]
  cases t with
  | demandPage page =>
    have h16 : (block + 16).toNat = block.toNat + 16 := hplace 16 (by decide)
    have h20 : (block + 20).toNat = block.toNat + 20 := hplace 20 (by decide)
    have hword4 : a.toNat / 4 ≠ block.toNat / 4 + 4 := h 4 (by simp [Trap.storedWords])
    have hword5 : a.toNat / 4 ≠ block.toNat / 4 + 5 := h 5 (by simp [Trap.storedWords])
    exact (Memory.readWord_stored_of_ne (by omega)).trans (Memory.readWord_stored_of_ne (by omega))
  | _ => rfl

theorem readWord_entered (resume : Word) (haligned : block.toNat % 4 = 0)
    (hfits : block.toNat + t.blockBytes ≤ s.memory.sizeBytes) :
    (s.entered t block resume).readWord block = .ok (s.cpu.psd.withAddress resume).word1 ∧
      (s.entered t block resume).readWord (block + 4) = .ok (s.cpu.psd.savedWord2 s.cpu.interruptsBlocked) := by
  have hbytes : 16 ≤ t.blockBytes := Trap.le_blockBytes
  exact Memory.readWord_saved haligned (by rw [Memory.sizeBytes_noted]; omega)

/-- The status words of the trap of a page. -/
theorem readWord_entered_status {page : Word} (haligned : block.toNat % 4 = 0)
    (hfits : block.toNat + 24 ≤ s.memory.sizeBytes) :
    (s.entered (.demandPage page) block resume).readWord (block + 16) = .ok s.cpu.faultAddress ∧
      (s.entered (.demandPage page) block resume).readWord (block + 20) = .ok page := by
  have hnoted : s.memory.noted (.demandPage page) s.cpu.faultAddress block =
      (s.memory.stored (block + 16) s.cpu.faultAddress).stored (block + 20) page := rfl
  have h16 : (block + 16).toNat = block.toNat + 16 := s.memory.toNat_add_of_fits (k := 16) (by decide) (by omega)
  have h20 : (block + 20).toNat = block.toNat + 20 := s.memory.toNat_add_of_fits (k := 20) (by decide) (by omega)
  have hword4 : (s.entered (.demandPage page) block resume).readWord (block + 16) =
      (s.memory.noted (.demandPage page) s.cpu.faultAddress block).readWord (block + 16) :=
    Memory.readWord_saved_of_le (k := 16) (by decide) (by decide) (by rw [Memory.sizeBytes_noted]; omega)
  have hword5 : (s.entered (.demandPage page) block resume).readWord (block + 20) =
      (s.memory.noted (.demandPage page) s.cpu.faultAddress block).readWord (block + 20) :=
    Memory.readWord_saved_of_le (k := 20) (by decide) (by decide) (by rw [Memory.sizeBytes_noted]; omega)
  constructor
  · rw [hword4, hnoted, Memory.readWord_stored_of_ne (by omega)]
    exact Memory.readWord_stored (by omega) (by omega)
  · rw [hword5, hnoted]
    exact Memory.readWord_stored (by omega) (by rw [Memory.sizeBytes_stored]; omega)

end Core

namespace Delivery
open Concept32.Core EStateM
variable {s s' : Core} {t : Trap} {block resume : Word} {now : Nat}

/-- Once the status words are stored an entry comes to an exchange. -/
theorem enter_eq_exchange (haligned : block.toNat % 4 = 0) (hfits : block.toNat + t.blockBytes ≤ s.memory.sizeBytes) :
    enter t block resume s = Exec.exchange block resume ⟨s.cpu, s.memory.noted t s.cpu.faultAddress block⟩ := by
  obtain ⟨cpu, memory⟩ := s
  dsimp only at hfits
  rw [enter, bind_of_ok (show Exec.ask Cpu.faultAddress ⟨cpu, memory⟩ = .ok cpu.faultAddress ⟨cpu, memory⟩ from rfl),
    Memory.noted]
  cases t with
  | demandPage page =>
    have hbytes : block.toNat + 24 ≤ memory.sizeBytes := hfits
    have h16 : (block + 16).toNat = block.toNat + 16 := memory.toNat_add_of_fits (k := 16) (by decide) (by omega)
    have h20 : (block + 20).toNat = block.toNat + 20 := memory.toNat_add_of_fits (k := 20) (by decide) (by omega)
    have hfirst : Exec.toMemory (Memory.writeWord (block + 16) cpu.faultAddress) ⟨cpu, memory⟩ =
        .ok () ⟨cpu, memory.stored (block + 16) cpu.faultAddress⟩ :=
      Exec.storeWord_eq_ok.mpr ⟨by omega, by dsimp only; omega, rfl⟩
    have hsecond : Exec.toMemory (Memory.writeWord (block + 20) page)
        ⟨cpu, memory.stored (block + 16) cpu.faultAddress⟩ =
          .ok () ⟨cpu, (memory.stored (block + 16) cpu.faultAddress).stored (block + 20) page⟩ :=
      Exec.storeWord_eq_ok.mpr ⟨by omega, by dsimp only; rw [Memory.sizeBytes_stored]; omega, rfl⟩
    exact (bind_of_ok hfirst).trans (bind_of_ok hsecond)
  | _ => rfl

/-- An entry that succeeds has had the words of the context block in memory. -/
theorem fits_of_enter {u : Unit} (hlt : block.toNat < 0x1000000) (h : enter t block resume s = .ok u s') :
    block.toNat + t.blockBytes ≤ s.memory.sizeBytes := by
  rw [enter] at h
  obtain ⟨_, _, hask, h⟩ := bind_eq_ok.mp h
  cases hask
  cases t with
  | demandPage page =>
    obtain ⟨_, _, hfirst, h⟩ := bind_eq_ok.mp h
    obtain ⟨-, -, rfl⟩ := Exec.storeWord_eq_ok.mp hfirst
    obtain ⟨_, _, hsecond, -⟩ := bind_eq_ok.mp h
    obtain ⟨-, hfits, -⟩ := Exec.storeWord_eq_ok.mp hsecond
    have h20 : (block + 20).toNat = block.toNat + 20 := Memory.toNat_add_of_le (k := 20) (by decide) (by omega)
    rw [Memory.sizeBytes_stored, h20] at hfits
    exact hfits
  | _ => exact (Exec.fits_of_exchange h).2

/-- A failed entry leaves the processor as it was. -/
theorem keeps_cpu_enter : Ends (fun _ => Anyhow) (Keeps Core.cpu) (enter t block resume) := by
  refine .bind (Q := Keeps Core.cpu) Exec.moves_ask fun failing => ?_
  dsimp only
  split
  · exact .bind Exec.keeps_cpu_toMemory fun _ => .bind Exec.keeps_cpu_toMemory fun _ => Exec.keeps_cpu_exchange
  · exact Exec.keeps_cpu_exchange

/-- The state after the delivery of a trap, if the map of the new status doubleword is the one given. -/
def delivered (s : Core) (t : Trap) (block resume : Word) (map : AddressMap) : Core :=
  ⟨{ Exec.enforced ((s.entered t block resume).routine block) { s.cpu with map := map } with mode := .running },
    s.entered t block resume⟩

/-- A trap that is not delivered leaves the processor as it was, but halted. -/
theorem cpu_of_takeTrap_error {e : TrapHalt} (h : takeTrap now t resume s = .error e s') :
    s'.cpu = { s.cpu with mode := .halted } := by
  rcases takeTrap_cases now t resume s with ⟨-, htake⟩ | ⟨block, u, -, ⟨-, htake⟩ | ⟨_, henter, htake⟩⟩
  · cases htake.symm.trans h
    rfl
  · cases htake.symm.trans h
  · have hcpu : u.cpu = s.cpu := keeps_cpu_enter.error henter
    cases htake.symm.trans h
    rw [hcpu]

theorem takeTrap_of_deliverable (now : Nat) (hcall : t ≠ .supervisorCall) (h : s.Deliverable t block resume) :
    ∃ map, s.cpu.mapUnder (s.entered t block resume) ((s.entered t block resume).routine block) = .ok map ∧
      takeTrap now t resume s = .ok () (delivered s t block resume map) := by
  obtain ⟨map, hmap⟩ := h.loads
  have hblock : blockOf? s t = some block := by
    simp only [blockOf?, hcall, h.enabled, decide_false, Bool.or_true, if_true, h.entry]
  have henter : enter t block resume s = .ok () ⟨Exec.enforced ((s.entered t block resume).routine block)
      { s.cpu with map := map }, s.entered t block resume⟩ := by
    rw [enter_eq_exchange h.aligned h.fits]
    exact Exec.exchange_of_fits h.aligned (by rw [Memory.sizeBytes_noted]; exact h.fits_exchange) rfl hmap
  refine ⟨map, hmap, ?_⟩
  rcases takeTrap_cases now t resume s with ⟨hnone, -⟩ | ⟨_, _, hfound, ⟨hentered, htake⟩ | ⟨_, hfailed, -⟩⟩
  · cases hnone.symm.trans hblock
  · cases hfound.symm.trans hblock
    cases hentered.symm.trans henter
    exact htake
  · cases hfound.symm.trans hblock
    cases hfailed.symm.trans henter

theorem takeTrap_of_not_deliverable (now : Nat) (hcall : t ≠ .supervisorCall) (h : ∀ block, ¬s.Deliverable t block resume) :
    ∃ memory, takeTrap now t resume s = .error ⟨t, s.cpu.psd, now⟩ ⟨{ s.cpu with mode := .halted }, memory⟩ := by
  rcases takeTrap_cases now t resume s with ⟨-, htake⟩ | ⟨block, u, hblock, ⟨henter, -⟩ | ⟨_, henter, htake⟩⟩
  · exact ⟨s.memory, htake⟩
  · -- An entry that succeeds had all that it needs.
    have hentry : s.cpu.trapsEnabled = true ∧ s.memory.contextBlock? (s.cpu.trapEntry t) = some block := by
      simpa [blockOf?, hcall] using hblock
    obtain ⟨haligned, hlt⟩ := Memory.contextBlock?_eq_some hentry.2
    have hfits := fits_of_enter hlt henter
    rw [enter_eq_exchange haligned hfits] at henter
    obtain ⟨-, -, map, hmap, -⟩ := Exec.exchange_eq_ok.mp henter
    exact absurd ⟨hentry.1, hentry.2, hfits, map, hmap⟩ (h block)
  · have hcpu : u.cpu = s.cpu := keeps_cpu_enter.error henter
    rw [hcpu] at htake
    exact ⟨u.memory, htake⟩

end Delivery

namespace Hardware
open Concept32.Core EStateM
variable {δ ω : Type} {t : Trap} {block resume : Word} {now : Nat}

/-! ### What a delivered trap has done -/

/-- A trap that an instruction raised has been delivered through a context block: `s` is the state before the
instruction, `u` the one in which the trap was raised, and `s'` the one after the delivery. -/
structure Delivered (t : Trap) (block resume : Word) (s u s' : Core) : Prop where
  word0 : s'.memory.readWord block = .ok (s.cpu.psd.withAddress resume).word1
  word1 : s'.memory.readWord (block + 4) = .ok (s.cpu.psd.savedWord2 s.cpu.interruptsBlocked)
  /-- Words 4 and 5 say which access failed. -/
  status : ∀ page, t = .demandPage page → ∃ failing access,
    s.cpu.map.translate failing access s.cpu.psd.mapped s.cpu.psd.privileged u.memory.sizeBytes =
        .error (.notResident (failing &&& 0x00FFFFFF#32) page) ∧
      page = (failing &&& 0x00FFFFFF#32) >>> s.cpu.map.scheme.pageShift ∧
      s'.memory.readWord (block + 16) = .ok failing ∧ s'.memory.readWord (block + 20) = .ok page
  memory : ∀ a, (∀ k ∈ t.storedWords, a.toNat / 4 ≠ block.toNat / 4 + k) → s'.memory.readWord a = u.memory.readWord a
  /-- The status doubleword is the one in words 2 and 3. -/
  runs : RunsFrom block s'
  blocked : s'.cpu.interruptsBlocked = s'.cpu.psd.blocks s.cpu.interruptsBlocked
  map : s.cpu.mapUnder s'.memory s'.cpu.psd = .ok s'.cpu.map
  mode : s'.cpu.mode = .running
  gpr : s'.cpu.gpr = s.cpu.gpr
  base : s'.cpu.base = s.cpu.base
  levels : s'.cpu.levels = s.cpu.levels

theorem delivered_of_deliverable {s u : Core} {map : AddressMap} (hexplained : Explained t u) (hsteady : Steady s u)
    (h : u.Deliverable t block resume)
    (hmap : u.cpu.mapUnder (u.entered t block resume) ((u.entered t block resume).routine block) = .ok map) :
    Delivered t block resume s u (Delivery.delivered u t block resume map) := by
  obtain ⟨haligned, hlt⟩ := Memory.contextBlock?_eq_some h.entry
  obtain ⟨hword0, hword1⟩ := readWord_entered resume haligned h.fits
  have hruns := Memory.readWord_routine (m := u.entered t block resume) haligned
    (by rw [sizeBytes_entered]; exact h.fits_exchange)
  have hcpu : (Delivery.delivered u t block resume map).cpu = { u.cpu with
      psd := (u.entered t block resume).routine block
      map := map
      mode := .running
      scratchpad := (Delivery.delivered u t block resume map).cpu.scratchpad } :=
    congrArg (fun c : Cpu => { c with mode := .running }) Cpu.enforced_eq
  -- At the trap the processor is the one before the instruction, but for its notes.
  obtain ⟨address, count, hsame⟩ := hsteady
  have hpsd : u.cpu.psd = s.cpu.psd := by rw [hsame]
  have hblocked : u.cpu.interruptsBlocked = s.cpu.interruptsBlocked := by
    rw [hsame]
    rfl
  refine ⟨?_, ?_, ?_, fun a ha => readWord_entered_of_ne hlt ha, ?_, ?_, ?_, rfl, ?_, ?_, ?_⟩
  · rw [← hpsd]
    exact hword0
  · rw [← hpsd, ← hblocked]
    exact hword1
  · rintro page rfl
    obtain ⟨hpage, access, hrefused⟩ := hexplained.page page rfl
    rw [hpsd, show u.cpu.map = s.cpu.map by rw [hsame]] at hrefused
    rw [show u.cpu.map = s.cpu.map by rw [hsame]] at hpage
    exact ⟨u.cpu.faultAddress, access, hpage ▸ hrefused, hpage, readWord_entered_status haligned h.fits⟩
  · rw [RunsFrom, hcpu]
    exact hruns
  · rw [← hblocked, hcpu]
    exact Cpu.interruptsBlocked_enforced
  · rw [hcpu]
    rw [hsame] at hmap
    exact hmap
  · rw [hcpu, hsame]
  · rw [hcpu, hsame]
  · rw [hcpu, hsame]

theorem Delivered.remember {s u s' : Core} (h : Delivered t block resume s u s') (history : History) :
    Delivered t block resume s u ⟨{ s'.cpu with history := history }, s'.memory⟩ :=
  ⟨h.word0, h.word1, h.status, h.memory, h.runs, h.blocked, h.map, h.mode, h.gpr, h.base, h.levels⟩

/-! ### Instructions that raise traps -/

variable [Peripheral δ ω] {s u : Hardware δ ω}

/-- The instruction at the program counter raises a trap in the state `u`, after which the program is to go on at
`resume`; it does not call the supervisor, by itself or through an execute instruction. -/
inductive Raises (now : Nat) (s : Hardware δ ω) : Trap → Word → Hardware δ ω → Prop
  | fetching {t : Trap} {core : Core} (h : fetch ⟨{ s.core.cpu with indirections := 0 }, s.core.memory⟩ = .error t core) :
      Raises now s t s.core.cpu.psd.address ⟨core, s.channels⟩
  | executing {t : Trap} {i : Instruction} {next : Word} {core : Core} {u : Hardware δ ω}
      (hfetch : fetch ⟨{ s.core.cpu with indirections := 0 }, s.core.memory⟩ = .ok (i, next) core)
      (hcall : ∀ target, carriedOut? i next core = some target → ¬target.callsSupervisor s.core.cpu.psd.based)
      (h : dispatch now i next ⟨core, s.channels⟩ = .error t u) :
      Raises now s t (t.resume s.core.cpu.psd.address next) u

theorem Raises.explained (h : Raises now s t resume u) : Explained t u.core ∧ OnCore Steady s u := by
  have hstart : Steady s.core ⟨{ s.core.cpu with indirections := 0 }, s.core.memory⟩ :=
    ⟨s.core.cpu.faultAddress, 0, rfl⟩
  cases h with
  | fetching h =>
    obtain ⟨hexplained, hsame⟩ := fetch_raises h
    exact ⟨hexplained, Trans.trans hstart hsame.steady, rfl⟩
  | executing hfetch hcall h =>
    have hread : Steady s.core _ := Trans.trans hstart (reads_fetch.ok hfetch).steady
    have hbased := hread
    obtain ⟨_, _, hcpu⟩ := hbased
    obtain ⟨hexplained, hsteady⟩ := dispatch_raises h (by rw [hcpu]; exact hcall)
    exact ⟨hexplained, Trans.trans hread hsteady.1, hsteady.2⟩

/-- The processor and memory when the instruction at the program counter begins. -/
def begun (s : Hardware δ ω) : Core := ⟨{ s.core.cpu with indirections := 0 }, s.core.memory⟩

/-- The instruction at the program counter raises a trap in the state `u`, after which the program is to go on at
`resume`, whether it calls the supervisor or not. -/
inductive Trapped (now : Nat) (s : Hardware δ ω) : Trap → Word → Hardware δ ω → Prop
  | fetching {t : Trap} {core : Core} (h : fetch s.begun = .error t core) :
      Trapped now s t s.core.cpu.psd.address ⟨core, s.channels⟩
  | executing {t : Trap} {i : Instruction} {next : Word} {core : Core} {u : Hardware δ ω}
      (hfetch : fetch s.begun = .ok (i, next) core) (h : dispatch now i next ⟨core, s.channels⟩ = .error t u) :
      Trapped now s t (t.resume s.core.cpu.psd.address next) u

theorem Raises.trapped (h : Raises now s t resume u) : Trapped now s t resume u := by
  cases h with
  | fetching h => exact .fetching h
  | executing hfetch _ h => exact .executing hfetch h

/-- What follows the delivery keeps the books alone. -/
def Books (x : EStateM TrapHalt (Hardware δ ω) Nat) : Prop :=
  ∀ v, ∃ duration history, x v = .ok duration ⟨⟨{ v.core.cpu with history := history }, v.core.memory⟩, v.channels⟩

theorem executeInstruction_trapped (h : Trapped now s t resume u) :
    ∃ rest : EStateM TrapHalt (Hardware δ ω) Nat, Books rest ∧
      executeInstruction now s = (do onCore (Delivery.takeTrap now t resume); rest) u := by
  obtain ⟨⟨cpu, memory⟩, channels⟩ := s
  cases h with
  | fetching h =>
    refine ⟨pure Timing.trap, fun v => ⟨_, v.core.cpu.history, rfl⟩, ?_⟩
    rw [begun] at h
    rw [executeInstruction]
    dsimp only at h ⊢
    rw [h]
  | @executing i next core _ hfetch h =>
    rw [begun] at hfetch
    refine ⟨do
      onCore (Delivery.modifyCpu (remember cpu.psd i))
      let indirections := (← get).core.cpu.indirections
      return Timing.instruction i cpu.psd.based indirections, fun v => ⟨_, _, rfl⟩, ?_⟩
    rw [executeInstruction]
    dsimp only at hfetch ⊢
    rw [hfetch]
    dsimp only
    rw [h]
    rfl

theorem executeInstruction_raising (h : Raises now s t resume u) :
    ∃ rest : EStateM TrapHalt (Hardware δ ω) Nat, Books rest ∧
      executeInstruction now s = (do onCore (Delivery.takeTrap now t resume); rest) u :=
  executeInstruction_trapped h.trapped

/-- A trap is delivered completely if all that its delivery needs is there, and halts the machine otherwise. -/
theorem executeInstruction_of_raises (h : Raises now s t resume u) :
    (∀ block, u.core.Deliverable t block resume → ∃ duration s', executeInstruction now s = .ok duration s' ∧
      Delivered t block resume s.core u.core s'.core ∧ s'.channels = s.channels) ∧
    ((∀ block, ¬u.core.Deliverable t block resume) → ∃ s', executeInstruction now s = .error ⟨t, s.core.cpu.psd, now⟩ s' ∧
      s'.channels = s.channels ∧ ∃ address count,
        s'.core.cpu = { s.core.cpu with mode := .halted, faultAddress := address, indirections := count }) := by
  obtain ⟨hexplained, hsteady, hchannels⟩ := h.explained
  obtain ⟨rest, hrest, hexecute⟩ := executeInstruction_raising h
  constructor
  · intro block hdeliverable
    obtain ⟨map, hmap, htake⟩ := Delivery.takeTrap_of_deliverable now hexplained.not_call hdeliverable
    have hcore : onCore (Delivery.takeTrap now t resume) u =
        .ok () ⟨Delivery.delivered u.core t block resume map, u.channels⟩ := by
      rw [onCore, htake]
    obtain ⟨duration, history, hdone⟩ := hrest ⟨Delivery.delivered u.core t block resume map, u.channels⟩
    rw [hexecute, bind_of_ok hcore, hdone]
    exact ⟨_, _, rfl, (delivered_of_deliverable hexplained hsteady hdeliverable hmap).remember history, hchannels⟩
  · intro hnot
    obtain ⟨memory, htake⟩ := Delivery.takeTrap_of_not_deliverable now hexplained.not_call hnot
    have hcore : onCore (Delivery.takeTrap now t resume) u =
        .error ⟨t, u.core.cpu.psd, now⟩ ⟨⟨{ u.core.cpu with mode := .halted }, memory⟩, u.channels⟩ := by
      rw [onCore, htake]
    obtain ⟨address, count, hcpu⟩ := hsteady
    rw [hexecute, bind_of_error hcore, hcpu]
    exact ⟨_, rfl, hchannels, address, count, rfl⟩

/-- A mapped program whose instruction at 0 loads from page 1, which is not resident. The trap table is at 4 and has the
context block at 8, whose routine runs without a map and with interrupts blocked. -/
def awayPage : Hardware StandardDevice Char where
  core :=
    { cpu := { Cpu.initial .v6 0 with
        psd := ⟨0x80000000#32, 0x80000000#32⟩
        scratchpad := (Scratchpad.empty.set Scratchpad.statusSlot Cpu.trapsEnabledBit).set Scratchpad.trapTableSlot 4
        map := .ofEntries .paged [0xC0000000#32, 0x80000000#32] (by decide) }
      memory := ⟨#[0xAD802400#32, 0, 0, 0, 0x80000100#32, 0x4000#32, 0, 0, 0, 0, 0, 0, 0, 0, 0, 0, 0, 0, 8], by simp⟩ }
  channels := .empty

set_option maxRecDepth 1000 in
theorem executeInstruction_of_raises_awayPage : ∃ u, Raises 0 awayPage (.demandPage 1) 0 u ∧
    u.core.Deliverable (.demandPage 1) 8 0 ∧ ∃ duration s', executeInstruction 0 awayPage = .ok duration s' ∧
      Delivered (.demandPage 1) 8 0 awayPage.core u.core s'.core ∧ s'.channels = awayPage.channels := by
  have hnot : ¬(⟨0xAD802400#32⟩ : Instruction).callsSupervisor awayPage.core.cpu.psd.based := by
    rw [Instruction.callsSupervisor]
    decide
  obtain ⟨u, hraises, hdeliverable⟩ : ∃ u, Raises 0 awayPage (.demandPage 1) 0 u ∧
      u.core.Deliverable (.demandPage 1) 8 0 :=
    ⟨_, .executing rfl (fun target h => Option.some.inj h ▸ hnot) rfl, ⟨rfl, rfl, by decide, _, rfl⟩⟩
  exact ⟨u, hraises, hdeliverable, (executeInstruction_of_raises hraises).1 8 hdeliverable⟩

end Hardware
end Concept32
