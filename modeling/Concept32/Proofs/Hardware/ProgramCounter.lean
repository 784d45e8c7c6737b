import Concept32.Proofs.Addressing
import Concept32.Proofs.Hardware.Events
import Concept32.Proofs.Hardware.Returning

/-!
# The program counter and the addressing mode

Every address that an instruction puts in the program counter is cut to what the addressing mode reaches. A status
doubleword that is put in force is not: its program counter may lie beyond its mode. While it does not, a program goes on
at the next instruction, and a status doubleword that is saved is for going on where the program has been interrupted.
-/

namespace Concept32

/-- Control has passed through a context block, and the status doubleword that is saved there goes on at an address. -/
structure Core.Suspended (block a : Word) (s : Core) : Prop where
  runs : Core.RunsFrom block s
  saved : ∃ p : Psd, s.memory.readWord block = .ok p.word1 ∧ s.memory.readWord (block + 4) = .ok p.word2 ∧ p.address = a

namespace Exec
open Concept32.Core EStateM
variable {s s' : Core} {block resume next number : Word} {index : Nat} {flow : Flow}

/-! ### What is saved -/

theorem suspended_exchange {u : Unit} (h : exchange block resume s = .ok u s') :
    Suspended block (resume &&& s.cpu.psd.addressMask) s' := by
  have hruns := runsFrom_exchange h
  obtain ⟨haligned, hfits, map, -, rfl⟩ := exchange_eq_ok.mp h
  obtain ⟨hword1, hword2⟩ := Memory.readWord_saved (m := s.memory) (p := s.cpu.psd.withAddress resume) haligned (by omega)
  exact ⟨hruns, s.cpu.psd.suspended resume s.cpu.interruptsBlocked, hword1, hword2, Psd.address_suspended⟩

theorem suspended_callSupervisor (hindex : index < 16) (h : callSupervisor index number next s = .ok flow s') :
    flow = .loaded ∧ ∃ block, Handler s block ∧ Suspended block (next &&& s.cpu.psd.addressMask) s' := by
  obtain ⟨t, hrun⟩ | ⟨target, hhandler, hrun⟩ := callSupervisor_run s number next hindex
  · rw [hrun] at h
    cases h
  rw [hrun] at h
  have hlt := hhandler.lt
  obtain ⟨hflow, hruns⟩ := runsFrom_call hlt h
  refine ⟨hflow, target, hhandler, hruns, ?_⟩
  obtain ⟨_, t, hexchange, h⟩ := bind_eq_ok.mp h
  obtain ⟨_, _, hstore, h⟩ := bind_eq_ok.mp h
  cases h
  -- The number of the call lies beside the words that are saved.
  obtain ⟨-, p, hword1, hword2, haddress⟩ := suspended_exchange hexchange
  obtain ⟨-, -, rfl⟩ := storeWord_eq_ok.mp hstore
  have h4 : (target + 4).toNat = target.toNat + 4 := Memory.toNat_add_of_le (k := 4) (by decide) (by omega)
  have h20 : (target + 20).toNat = target.toNat + 20 := Memory.toNat_add_of_le (k := 20) (by decide) (by omega)
  exact ⟨p, (Memory.readWord_stored_of_ne (by omega)).trans hword1, (Memory.readWord_stored_of_ne (by omega)).trans hword2,
    haddress⟩

end Exec

namespace Delivery
open Concept32.Core EStateM
variable {s s' : Core} {t : Trap} {block resume : Word} {now : Nat}

theorem suspended_enter {u : Unit} (h : enter t block resume s = .ok u s') :
    Suspended block (resume &&& s.cpu.psd.addressMask) s' := by
  rw [enter, bind_of_ok (show Exec.ask Cpu.faultAddress s = .ok s.cpu.faultAddress s from rfl)] at h
  cases hwords : t.statusWords s.cpu.faultAddress with
  | none =>
    rw [hwords] at h
    exact Exec.suspended_exchange h
  | some words =>
    rw [hwords] at h
    obtain ⟨_, u, hfirst, h⟩ := bind_eq_ok.mp h
    obtain ⟨_, v, hsecond, h⟩ := bind_eq_ok.mp h
    have hcpu : v.cpu = s.cpu := (Exec.keeps_cpu_toMemory.ok hsecond).trans (Exec.keeps_cpu_toMemory.ok hfirst)
    rw [← hcpu]
    exact Exec.suspended_exchange h

theorem suspended_takeTrap {u : Unit} (h : takeTrap now t resume s = .ok u s') :
    ∃ block, blockOf? s t = some block ∧ Suspended block (resume &&& s.cpu.psd.addressMask) s' := by
  rcases takeTrap_cases now t resume s with ⟨-, htake⟩ | ⟨block, v, hblock, ⟨henter, htake⟩ | ⟨_, -, htake⟩⟩
  · cases htake.symm.trans h
  · cases htake.symm.trans h
    obtain ⟨hruns, hsaved⟩ := suspended_enter henter
    exact ⟨block, hblock, hruns, hsaved⟩
  · cases htake.symm.trans h

end Delivery

/-- The program counter lies within the addressing mode. -/
def Cpu.InReach (c : Cpu) : Prop := c.psd.Reaches c.psd.address

instance {c : Cpu} : Decidable c.InReach := inferInstanceAs (Decidable (c.psd.address ≤ c.psd.addressMask))

namespace Hardware
open Concept32.Core EStateM
variable {δ ω : Type} {s s' u : Hardware δ ω} {i : Instruction} {next resume : Word} {flow : Flow} {t : Trap} {now : Nat}
  {level : Nat} {entry : ConfigurationEntry}

/-! ### A look for an interrupt -/

/-- A look for an interrupt that takes none leaves the status doubleword alone; one that takes one saves it in the
context block of a level. -/
def Minds (taken : Bool) (s s' : Hardware δ ω) : Prop :=
  match taken with
  | false => s'.core.cpu.psd = s.core.cpu.psd ∧ s'.core.cpu.scratchpad = s.core.cpu.scratchpad
  | true => ∃ level block memory, s.core.cpu.levelBlock? memory level = some block ∧
      Suspended block (s.core.cpu.psd.address &&& s.core.cpu.psd.addressMask) s'.core

instance : Std.Refl (@Minds δ ω false) := ⟨fun _ => ⟨rfl, rfl⟩⟩

theorem minds_of_same {taken : Bool} (h : Minds false s u) (h' : Minds taken u s') : Minds taken s s' := by
  obtain ⟨hpsd, hscratchpad⟩ := h
  cases taken with
  | false => exact ⟨h'.1.trans hpsd, h'.2.trans hscratchpad⟩
  | true =>
    obtain ⟨level, block, memory, hblock, hsaved⟩ := h'
    rw [hpsd] at hsaved
    rw [Cpu.levelBlock?, hscratchpad] at hblock
    exact ⟨level, block, memory, hblock, hsaved⟩

instance {taken : Bool} : Trans (@Minds δ ω false) (Minds taken) (Minds taken) := ⟨minds_of_same⟩

instance : Trans (@Minds δ ω false) (Keeps fun s => s.core.cpu.psd) (Keeps fun s => s.core.cpu.psd) :=
  ⟨fun h h' => Eq.trans h' h.1⟩

theorem minds_presentStatus :
    Ends (fun _ => @Minds δ ω false) (Keeps fun s => s.core.cpu.psd) (presentStatus entry level) where
  ok {s s' presented} h := by
    have hcpu := cpu_of_presentStatus h
    cases presented with
    | true => rw [if_pos rfl] at hcpu; exact ⟨by rw [hcpu]; rfl, by rw [hcpu]; rfl⟩
    | false => rw [if_neg Bool.false_ne_true] at hcpu; exact ⟨by rw [hcpu], by rw [hcpu]⟩
  error {s s' halt} h := by
    obtain ⟨⟨cpu, memory⟩, channels⟩ := s
    rw [presentStatus] at h
    repeat' split at h
    all_goals cases h

theorem minds_takeInterrupt :
    Ends (@Minds δ ω) (Keeps fun s => s.core.cpu.psd) (onCore (takeInterrupt now level entry)) where
  ok {s s' taken} h := by
    obtain ⟨core', channels'⟩ := s'
    obtain ⟨-, h⟩ := onCore_eq_ok h
    rcases takeInterrupt_cases now level entry s.core with ⟨-, htake⟩ |
      ⟨block, v, hblock, ⟨hexchange, htake⟩ | ⟨_, -, htake⟩⟩
    · cases htake.symm.trans h
      exact ⟨rfl, rfl⟩
    · cases htake.symm.trans h
      obtain ⟨⟨hword1, hword2⟩, hsaved⟩ := Concept32.Exec.suspended_exchange hexchange
      have hpsd : (v.cpu.settled level entry.isClassF).psd = v.cpu.psd := Cpu.psd_settled
      exact ⟨level, block, s.core.memory, hblock, ⟨by rw [hpsd]; exact hword1, by rw [hpsd]; exact hword2⟩, hsaved⟩
    · cases htake.symm.trans h
  error {s s' halt} h := by
    obtain ⟨core', channels'⟩ := s'
    obtain ⟨-, h⟩ := onCore_eq_error h
    rcases takeInterrupt_cases now level entry s.core with ⟨-, htake⟩ | ⟨block, v, -, ⟨-, htake⟩ | ⟨_, hexchange, htake⟩⟩
    · cases htake.symm.trans h
    · cases htake.symm.trans h
    · have hcpu : v.cpu = s.core.cpu.activateLevel level := Concept32.Exec.keeps_cpu_exchange.error hexchange
      have hpsd : v.cpu.psd = s.core.cpu.psd := by
        rw [hcpu]
        rfl
      cases htake.symm.trans h
      exact hpsd

theorem minds_scanForInterrupt : Ends (@Minds δ ω) (Keeps fun s => s.core.cpu.psd) (scanForInterrupt now) :=
  ends_scanForInterrupt minds_presentStatus minds_takeInterrupt

variable [Peripheral δ ω] {events : List (Event δ ω)} {e : Event δ ω}

/-! ### One event -/

theorem psd_of_steady {c c' : Core} (h : Steady c c') : c'.cpu.psd = c.cpu.psd := by
  obtain ⟨_, _, hcpu⟩ := h
  rw [hcpu]

theorem inReach_reset {c : Cpu} : c.reset.InReach := by
  have hinitial : Psd.initial.address ≤ Psd.initial.addressMask := by decide
  exact hinitial

/-- Where an instruction goes on is within the addressing mode, unless it has loaded a status doubleword. -/
theorem inReach_proceed {c : Cpu} (hflow : flow ≠ .loaded) : (proceed flow next c).InReach := by
  cases flow with
  | loaded => exact absurd rfl hflow
  | next | jump | wait | halt => exact Psd.reaches_withAddress

theorem Trapped.psd (h : Trapped now s t resume u) (hcalls : ¬(Event.instruct now).Enforces s) :
    u.core.cpu.psd = s.core.cpu.psd := by
  cases h with
  | fetching h => exact psd_of_same (s := s.begun) (reads_fetch.error h)
  | @executing i next core _ hfetch h =>
    have hread : core.cpu.psd = s.core.cpu.psd := psd_of_same (s := s.begun) (reads_fetch.ok hfetch)
    have hnot : ∀ target, carriedOut? i next core = some target → ¬target.callsSupervisor core.cpu.psd.based :=
      fun target htarget hsupervisor => hcalls (.calling hfetch h ⟨target, htarget, hsupervisor⟩)
    exact (psd_of_steady (dispatch_raises h hnot).2.1).trans hread

/-- Only a status doubleword that is put in force can leave the program counter beyond the addressing mode. -/
theorem inReach_apply (henforces : ¬e.Enforces s) (h : s.core.cpu.InReach) : (e.apply s).core.cpu.InReach := by
  have hkept : ∀ {u : Hardware δ ω}, u.core.cpu.psd = s.core.cpu.psd → u.core.cpu.InReach := fun hpsd => by
    rw [Cpu.InReach, hpsd]
    exact h
  cases e with
  | instruct now =>
    have hexecuted := executed now s
    rw [Event.apply]
    generalize after (executeInstruction now) s = s' at hexecuted
    cases hexecuted with
    | @completed i next core flow u history hfetch hdispatch =>
      have hflow : flow ≠ .loaded := fun hloaded => henforces (.loading hfetch (hloaded ▸ hdispatch))
      exact inReach_proceed hflow
    | delivered _ htrap htake => exact absurd (.trapping htrap htake) henforces
    | undelivered htrap htake =>
      have hpsd := congrArg Cpu.psd (Delivery.cpu_of_takeTrap_error htake)
      exact hkept (hpsd.trans (htrap.psd henforces))
  | scan now =>
    rw [Event.apply, after]
    cases hscan : scanForInterrupt now s with
    | ok taken u =>
      cases taken with
      | true => exact absurd (.interrupting hscan) henforces
      | false => exact hkept (minds_scanForInterrupt.ok hscan).1
    | error halt u => exact hkept (minds_scanForInterrupt.error hscan)
  | load a =>
    rw [Event.apply, after]
    cases hload : onCore (Concept32.Exec.startAt a) s with
    | ok _ u => exact absurd (.starting (onCore_eq_ok hload).2) henforces
    | error t u => exact hkept (congrArg Cpu.psd (Concept32.Exec.cpu_of_startAt_error (onCore_eq_error hload).2))
  | request _ => exact h
  | start _ => exact Psd.reaches_withAddress
  | reset => exact inReach_reset
  | halt => exact h
  | devices _ _ => exact h

/-! ### Where a program goes on -/

omit [Peripheral δ ω] in
/-- The next instruction is a halfword or a word further on. -/
theorem next_of_fetch {core core' : Core} (h : fetch core = .ok (i, next) core') :
    ∃ size, (size = 2 ∨ size = 4) ∧ next = core.cpu.psd.address + BitVec.ofNat 32 size := by
  let P : Instruction × Word → Prop := fun found =>
    found.2 = core.cpu.psd.address + 2 ∨ found.2 = core.cpu.psd.address + 4
  rw [fetch, bind_of_ok (show Concept32.Exec.psd core = .ok core.cpu.psd core from rfl)] at h
  have hplace : P (i, next) := by
    refine Answers.of_ok h (.bind fun word => ?_)
    dsimp only
    split
    · split
      · exact .pure (.inl rfl)
      · exact fun _ _ _ hthrow => nomatch hthrow
    · split
      · exact .pure (.inr rfl)
      · refine .bind fun _ => ?_
        split
        · exact .pure (.inr rfl)
        · exact .pure (.inl rfl)
  rcases hplace with hhalf | hword
  · exact ⟨2, .inl rfl, hhalf⟩
  · exact ⟨4, .inr rfl, hword⟩

/-- The context block of a supervisor call has the place after the call. -/
theorem suspended_of_calls {core : Core} (hcalls : calls i next core) {channels : Channels δ ω}
    (h : dispatch now i next ⟨core, channels⟩ = .ok flow u) :
    flow = .loaded ∧ ∃ block, Suspended block (next &&& core.cpu.psd.addressMask) u.core := by
  obtain ⟨target, htarget, hsupervisor⟩ := hcalls
  obtain ⟨t, v, herror, -⟩ | ⟨target', v, htarget', hsame, hdispatch⟩ := dispatch_cases now i next ⟨core, channels⟩
  · cases herror.symm.trans h
  cases htarget'.symm.trans htarget
  obtain ⟨t, w, herror, -⟩ | ⟨opcode, o, w, hopcode, hinstruction, hnext, hsame', hperform⟩ :=
    perform_cases now target next v
  · cases (hdispatch.trans herror).symm.trans h
  have hpsd : v.core.cpu.psd = core.cpu.psd := psd_of_same hsame.1
  have hpsd' : w.core.cpu.psd = core.cpu.psd := (psd_of_same hsame'.1).trans hpsd
  rw [hdispatch, hperform] at h
  rw [hpsd] at hopcode
  rw [← hpsd', ← hnext]
  have hcall : ∀ {index : Nat} {number : Word}, index < 16 →
      onCore (Concept32.Exec.callSupervisor index number o.next) w = .ok flow u →
        flow = .loaded ∧ ∃ block, Suspended block (o.next &&& w.core.cpu.psd.addressMask) u.core := fun hindex hx => by
    obtain ⟨hflow, block, -, hsaved⟩ := Concept32.Exec.suspended_callSupervisor hindex (onCore_eq_ok hx).2
    exact ⟨hflow, block, hsaved⟩
  rcases hsupervisor with hcalm | ⟨himm, haugment⟩
  · cases hopcode.symm.trans hcalm
    exact hcall (by decide) h
  · cases hopcode.symm.trans himm
    rw [if_neg (by decide), Concept32.Exec.perform, Concept32.Exec.immediateGroup, Operand.augment, hinstruction,
      haugment] at h
    exact hcall (BitVec.isLt _) h

/-- Where a program goes on: after an instruction at the next one, counted within the address space of its mode; and
after a trap, a supervisor call or an interrupt at the place that is saved for it. -/
structure Continues (s : Hardware δ ω) : Prop where
  sequential : ∀ {now i next core u}, fetch s.begun = .ok (i, next) core →
    dispatch now i next ⟨core, s.channels⟩ = .ok .next u → ∃ size, (size = 2 ∨ size = 4) ∧
      ((Event.instruct now).apply s).core.cpu.psd.address.toNat =
        (s.core.cpu.psd.address.toNat + size) % (((Event.instruct now).apply s).core.cpu.psd.addressMask.toNat + 1)
  /-- A program that is to go on at the very instruction that trapped does so. -/
  trapped : ∀ {now t resume u core}, Raises now s t resume u → Delivery.takeTrap now t resume u.core = .ok () core →
    ∃ block a, Delivery.blockOf? u.core t = some block ∧ Suspended block a ((Event.instruct now).apply s).core ∧
      a.toNat = resume.toNat % (s.core.cpu.psd.addressMask.toNat + 1) ∧
        (resume = s.core.cpu.psd.address → a = s.core.cpu.psd.address)
  called : ∀ {now i next core flow u}, fetch s.begun = .ok (i, next) core → calls i next core →
    dispatch now i next ⟨core, s.channels⟩ = .ok flow u → ∃ block a,
      Suspended block a ((Event.instruct now).apply s).core ∧
        a.toNat = next.toNat % (s.core.cpu.psd.addressMask.toNat + 1)
  interrupted : ∀ {now u}, scanForInterrupt now s = .ok true u → ∃ level block memory,
    s.core.cpu.levelBlock? memory level = some block ∧ Suspended block s.core.cpu.psd.address u.core

theorem continues (h : s.core.cpu.InReach) : s.Continues where
  sequential {now i next core u} hfetch hdispatch := by
    obtain ⟨size, hsize, hnext⟩ := next_of_fetch hfetch
    obtain ⟨history, hafter⟩ := after_of_completed hfetch hdispatch
    have hpsd : ((Event.instruct now).apply s).core.cpu.psd = u.core.cpu.psd.withAddress next := by
      rw [Event.apply, hafter]
      rfl
    have hbelow : s.core.cpu.psd.address.toNat < 0x1000000 := Psd.toNat_address_lt
    have hsum : next.toNat = s.core.cpu.psd.address.toNat + size := by
      have hplace : next = s.core.cpu.psd.address + BitVec.ofNat 32 size := hnext
      rw [hplace, BitVec.toNat_add, BitVec.toNat_ofNat]
      omega
    refine ⟨size, hsize, ?_⟩
    rw [hpsd, Psd.address_withAddress, Psd.addressMask_withAddress, Psd.toNat_and_addressMask, hsum]
  trapped {now t resume u core} hraises htake := by
    obtain ⟨block, hblock, hsaved⟩ := Delivery.suspended_takeTrap htake
    rw [psd_of_steady hraises.explained.2.1] at hsaved
    refine ⟨block, _, hblock, ?_, Psd.toNat_and_addressMask, fun hresume => ?_⟩
    · obtain ⟨history, hafter⟩ := after_of_delivered hraises.trapped htake
      rw [Event.apply, hafter]
      exact ⟨hsaved.runs, hsaved.saved⟩
    · rw [hresume]
      exact Psd.reaches_iff.mp h
  called {now i next core flow u} hfetch hcalls hdispatch := by
    obtain ⟨hflow, block, hsaved⟩ := suspended_of_calls hcalls hdispatch
    have hread : core.cpu.psd = s.core.cpu.psd := psd_of_same (s := s.begun) (reads_fetch.ok hfetch)
    rw [hread] at hsaved
    obtain ⟨history, hafter⟩ := after_of_completed hfetch hdispatch
    refine ⟨block, _, ?_, Psd.toNat_and_addressMask⟩
    rw [Event.apply, hafter, hflow]
    exact ⟨hsaved.runs, hsaved.saved⟩
  interrupted hscan := by
    obtain ⟨level, block, memory, hblock, hsaved⟩ := minds_scanForInterrupt.ok hscan
    rw [Psd.reaches_iff.mp h] at hsaved
    exact ⟨level, block, memory, hblock, hsaved⟩

/-! ### Runs -/

/-- A program counter that begins within its addressing mode stays so exactly if every event that puts a status
doubleword in force leaves it so. Then a program always goes on at the next instruction, and after a trap or an interrupt
at the very place at which it was. -/
theorem inReach_iff (hstart : s.core.cpu.InReach) :
    (Always (fun s => s.core.cpu.InReach) events s ↔
        Along (fun (e : Event δ ω) s => e.Enforces s → (e.apply s).core.cpu.InReach) events s) ∧
      (Always (fun s => s.core.cpu.InReach) events s → Always Continues events s) :=
  ⟨always_iff (P := fun s => s.core.cpu.InReach) inReach_apply hstart, Always.mono continues⟩

/-! ### A program that is interrupted -/

/-- The status doubleword at address zero is for a program at `0x14` that does nothing. Level 2 is requested; the interrupt
table is at 8, and the context block of the level at `0x20`. -/
def interruptible (word1 : Word) : Hardware StandardDevice Char where
  core :=
    { cpu := { Cpu.initial .c3227 0 with
        levels := (InterruptLevels.idle.enable 2).request 2
        scratchpad := (Scratchpad.empty.set 0x82 0x00800000#32).set Scratchpad.interruptTableSlot 8#32 }
      memory := ⟨#[word1, 0, 0, 0, 0x20#32, 0x00020002#32, 0, 0, 0, 0, 0x80000100#32, 0], by simp⟩ }
  channels := .empty

/-- A status doubleword is loaded, and the program executes one instruction before it is interrupted. -/
def interruption : List (Event StandardDevice Char) := [.load 0, .instruct 0, .scan 0]

theorem inReach_interruption : Always (fun s => s.core.cpu.InReach) interruption (interruptible 0x80000014#32) ∧
    Always Continues interruption (interruptible 0x80000014#32) := by
  have hstart : (interruptible 0x80000014#32).core.cpu.InReach := by decide +kernel
  have halong : Along (fun e s => e.Enforces s → (e.apply s).core.cpu.InReach) interruption (interruptible 0x80000014#32) :=
    ⟨fun _ => by decide +kernel, fun _ => by decide +kernel, fun _ => by decide +kernel, trivial⟩
  have halways := (inReach_iff hstart).1.mpr halong
  exact ⟨halways, (inReach_iff hstart).2 halways⟩

set_option maxRecDepth 1000 in
/-- A program at `0x80000`, beyond its mode, is interrupted, and the status doubleword that is saved is for going on at
zero. -/
theorem not_inReach : (interruptible 0x80080000#32).core.cpu.InReach ∧
    ¬(run [.load 0] (interruptible 0x80080000#32)).core.cpu.InReach ∧
    (run [.load 0] (interruptible 0x80080000#32)).core.cpu.psd.address = 0x80000#32 ∧
    ∃ u, scanForInterrupt 0 (run [.load 0] (interruptible 0x80080000#32)) = .ok true u ∧
      u.core.memory.readWord 0x20 = .ok 0x80000000#32 :=
  ⟨by decide +kernel, by decide +kernel, by decide +kernel, _, rfl, rfl⟩

end Hardware
end Concept32
