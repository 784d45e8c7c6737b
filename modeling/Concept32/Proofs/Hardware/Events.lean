import Concept32.Proofs.Hardware.Execute
import Concept32.Proofs.Hardware.Halting
import Concept32.Proofs.Hardware.Returning
import Concept32.Proofs.Hardware.TrapDelivery
import Concept32.Proofs.Instructions.Changes

/-!
# Events

What happens to the hardware from one moment to the next: an instruction or the trap that it raises, a look for an
interrupt, a request, a load of a status doubleword, a start, a reset, and whatever the devices do. Every event changes
the processor step by step, and puts a status doubleword in force only by a load, a delivered trap or an interrupt.
-/

namespace Concept32

/-- The instruction transfers a register to a slot of the scratchpad. -/
def Instruction.transfersTo (i : Instruction) (c : Cpu) (slot : Nat) : Prop :=
  i.opcode? c.psd.based = some .trr ∧ i.augment = 0xE ∧ slot = (c.gpr.get i.sourceRegister).toNat

namespace Delivery
open Concept32.Core EStateM
variable {s s' : Core} {now : Nat} {t : Trap} {block resume : Word} {slots : Nat → Prop} {loads : Prop}

theorem evolves_enter : Moves (Evolves slots True) (enter t block resume) := by
  rw [enter]
  refine .bind Exec.evolves_of fun _ => ?_
  dsimp only
  split
  · exact .bind Exec.evolves_of fun _ => .bind Exec.evolves_of fun _ => Exec.evolves_exchange
  · exact Exec.evolves_exchange

theorem evolves_mode {c : Cpu} {m m' : Memory} {mode : RunMode} :
    Evolves slots loads ⟨c, m⟩ ⟨{ c with mode := mode }, m'⟩ :=
  .of_change (.compute ⟨rfl, rfl, fun _ _ => rfl, rfl⟩)

/-- A trap puts a status doubleword in force only when it is delivered. -/
theorem evolves_takeTrap : Ends (fun _ => Evolves slots True) (Evolves slots False) (takeTrap now t resume) where
  ok {s s' u} h := by
    rcases takeTrap_cases now t resume s with ⟨-, htake⟩ | ⟨block, v, -, ⟨henter, htake⟩ | ⟨_, -, htake⟩⟩
    · cases htake.symm.trans h
    · cases htake.symm.trans h
      have hentered : Evolves slots True s v := evolves_enter.ok henter
      exact hentered.trans evolves_mode
    · cases htake.symm.trans h
  error {s s' e} h := by
    have hhalted : Evolves slots False s ⟨{ s.cpu with mode := .halted }, s'.memory⟩ := evolves_mode
    rw [Evolves, cpu_of_takeTrap_error h]
    exact hhalted

end Delivery

namespace Hardware
open Concept32.Core EStateM
variable {δ ω α : Type} {s s' u : Hardware δ ω} {i : Instruction} {next resume : Word} {flow : Flow} {t : Trap} {now : Nat}
  {slots : Nat → Prop} {loads : Prop}

/-- The processor has changed step by step. -/
def Evolves (slots : Nat → Prop) (loads : Prop) (s s' : Hardware δ ω) : Prop := Core.Evolves slots loads s.core s'.core

theorem Evolves.trans (h : Evolves slots loads s s') (h' : Evolves slots loads s' u) : Evolves slots loads s u :=
  Core.Evolves.trans h h'

instance : Std.Refl (@Evolves δ ω slots loads) := ⟨fun _ => .refl⟩

instance : Trans (@Evolves δ ω slots loads) (Evolves slots loads) (Evolves slots loads) := ⟨.trans⟩

theorem evolves_onCore {ε : Type} {R : α → Core → Core → Prop} {S : Core → Core → Prop} {x : EStateM ε Core α}
    (h : Ends R S x) : Ends (fun a (s s' : Hardware δ ω) => R a s.core s'.core) (fun s s' => S s.core s'.core) (onCore x) :=
  (ends_onCore h).mono (fun _ _ _ hs => hs.1) fun _ _ hs => hs.1

theorem evolves_of_same (h : OnCore Same s s') : Evolves slots loads s s' := h.1.steady.evolves

/-! ### Instructions -/

theorem evolves_proceed {history : History} {memory : Memory} :
    Core.Evolves slots loads s.core ⟨{ proceed flow next s.core.cpu with history := history }, memory⟩ := by
  have hgo : ∀ a, Core.Evolves slots loads s.core ⟨{ s.core.cpu with psd := s.core.cpu.psd.withAddress a }, memory⟩ :=
    fun a => .of_change (.go a)
  cases flow with
  | next => exact (hgo next).trans (.of_change (.compute ⟨rfl, rfl, fun _ _ => rfl, rfl⟩))
  | jump a => exact (hgo a).trans (.of_change (.compute ⟨rfl, rfl, fun _ _ => rfl, rfl⟩))
  | loaded => exact .of_change (.compute ⟨rfl, rfl, fun _ _ => rfl, rfl⟩)
  | wait => exact (hgo next).trans (.of_change (.compute ⟨rfl, rfl, fun _ _ => rfl, rfl⟩))
  | halt => exact (hgo next).trans (.of_change (.compute ⟨rfl, rfl, fun _ _ => rfl, rfl⟩))

section
variable [Peripheral δ ω]

theorem permits_evolves : Permits now (@Evolves δ ω slots loads) where
  computing h := evolves_onCore (Concept32.Exec.evolves_of_computing h)
  switching h := evolves_onCore (Concept32.Exec.evolves_modifyCpu fun c => .switch (h c))
  startIo _ _ := moves_onChannelsAndMemory fun _ _ _ => .refl
  testIo _ _ := moves_onChannelsAndMemory fun _ _ _ => .refl
  stopIo _ := moves_onChannels fun _ _ => .refl
  haltIo _ := moves_onChannels fun _ _ => .refl
  grabIo _ := moves_onChannels fun _ _ => .refl
  resetChannel _ := moves_onChannels fun _ _ => .refl
  resetController _ := moves_onChannels fun _ _ => .refl
  testDevice _ _ := moves_onChannels fun _ _ => .refl
  commandDevice _ _ := moves_onChannels fun _ _ => .refl

/-- An instruction traps before it is carried out, or it is carried out with an operand of its own. -/
theorem perform_cases (now : Nat) (i : Instruction) (next : Word) (s : Hardware δ ω) :
    (∃ t u, perform now i next s = .error t u ∧ OnCore Same s u) ∨
      ∃ opcode o u, i.opcode? s.core.cpu.psd.based = some opcode ∧ o.instruction = i ∧ o.next = next ∧
        OnCore Same s u ∧ perform now i next s =
          (if opcode = .io then ioInstruction now o else onCore (Concept32.Exec.perform opcode o)) u := by
  rw [perform, bind_of_ok (show onCore Concept32.Exec.based s = .ok s.core.cpu.psd.based s from rfl)]
  cases hopcode : i.opcode? s.core.cpu.psd.based with
  | none => exact .inl ⟨_, _, rfl, Std.Refl.refl _⟩
  | some opcode =>
    dsimp only
    cases hoperand : onCore (Concept32.Exec.operandOf i opcode.format next) s with
    | error t u => exact .inl ⟨t, u, bind_of_error hoperand, (ends_onCore Concept32.Exec.reads_operandOf).error hoperand⟩
    | ok o u =>
      have hsame : OnCore Same s u := (ends_onCore Concept32.Exec.reads_operandOf).ok hoperand
      have hfound := (onCore_eq_ok hoperand).2
      exact .inr ⟨opcode, o, u, rfl, Concept32.Exec.operandOf_instruction hfound, Concept32.Exec.operandOf_next hfound,
        hsame, bind_of_ok hoperand⟩

theorem dispatch_cases (now : Nat) (i : Instruction) (next : Word) (s : Hardware δ ω) :
    (∃ t u, dispatch now i next s = .error t u ∧ OnCore Same s u) ∨
      ∃ target u, carriedOut? i next s.core = some target ∧ OnCore Same s u ∧
        dispatch now i next s = perform now target next u := by
  rw [dispatch, carriedOut?]
  split
  · cases htarget : onCore (executeTarget i next) s with
    | error t u => exact .inl ⟨t, u, bind_of_error htarget, (ends_onCore Concept32.Exec.reads_executeTarget).error htarget⟩
    | ok target u =>
      have hsame : OnCore Same s u := (ends_onCore Concept32.Exec.reads_executeTarget).ok htarget
      rw [bind_of_ok htarget, (onCore_eq_ok htarget).2]
      split
      · exact .inl ⟨_, _, rfl, hsame⟩
      · exact .inr ⟨target, u, rfl, hsame, rfl⟩
  · exact .inr ⟨i, s, rfl, Std.Refl.refl _, rfl⟩

/-- The slot to which the instruction transfers a register, by itself or through an execute instruction. -/
def transfers (i : Instruction) (next : Word) (core : Core) (slot : Nat) : Prop :=
  ∃ target, carriedOut? i next core = some target ∧ target.transfersTo core.cpu slot

/-- The instruction calls the supervisor, by itself or through an execute instruction. -/
def calls (i : Instruction) (next : Word) (core : Core) : Prop :=
  ∃ target, carriedOut? i next core = some target ∧ target.callsSupervisor core.cpu.psd.based

theorem evolves_carriedOut {opcode : Opcode} {o : Operand} :
    Ends (fun flow s s' => Evolves (Concept32.Exec.transfers opcode o s.core.cpu) (flow = .loaded) s s')
      (fun s s' => Evolves (Concept32.Exec.transfers opcode o s.core.cpu) (Concept32.Exec.callsSupervisor opcode o) s s')
      (if opcode = .io then ioInstruction now o else onCore (Concept32.Exec.perform opcode o) : Exec δ ω Flow) := by
  split
  · exact ⟨(moves_ioInstruction permits_evolves).ok, (moves_ioInstruction permits_evolves).error⟩
  · exact evolves_onCore Concept32.Exec.evolves_perform

/-- What an instruction does when it is carried out, beside the notes that the processor keeps about it. -/
theorem dispatch_reaches (now : Nat) (i : Instruction) (next : Word) (s : Hardware δ ω) :
    (∃ t u, dispatch now i next s = .error t u ∧ OnCore Same s u) ∨
      ∃ opcode o u, OnCore Same s u ∧
        (∀ slot, Concept32.Exec.transfers opcode o u.core.cpu slot → transfers i next s.core slot) ∧
        (Concept32.Exec.callsSupervisor opcode o → calls i next s.core) ∧
        dispatch now i next s =
          (if opcode = .io then ioInstruction now o else onCore (Concept32.Exec.perform opcode o)) u := by
  obtain herror | ⟨target, u, htarget, hsame, hdispatch⟩ := dispatch_cases now i next s
  · exact .inl herror
  obtain ⟨t, v, hperform, hsame'⟩ | ⟨opcode, o, v, hopcode, hinstruction, -, hsame', hperform⟩ :=
    perform_cases now target next u
  · exact .inl ⟨t, v, hdispatch.trans hperform, Trans.trans hsame hsame'⟩
  have hsame'' : OnCore Same s v := Trans.trans hsame hsame'
  have hpsd : u.core.cpu.psd = s.core.cpu.psd := by
    obtain ⟨_, _, hcore⟩ := hsame.1
    rw [hcore]
  have hgpr : v.core.cpu.gpr = s.core.cpu.gpr := by
    obtain ⟨_, _, hcore⟩ := hsame''.1
    rw [hcore]
  rw [hpsd] at hopcode
  refine .inr ⟨opcode, o, v, hsame'', ?_, ?_, hdispatch.trans hperform⟩
  · rintro slot ⟨rfl, haugment, hslot⟩
    rw [Operand.augment, hinstruction] at haugment
    rw [hgpr, Operand.source, hinstruction] at hslot
    exact ⟨target, htarget, hopcode, haugment, hslot⟩
  · rintro (rfl | ⟨rfl, haugment⟩)
    · exact ⟨target, htarget, .inl hopcode⟩
    · rw [Operand.augment, hinstruction] at haugment
      exact ⟨target, htarget, .inr ⟨hopcode, haugment⟩⟩

/-- An instruction puts a status doubleword in force only if it says so; if it traps it has done that only if it has
called the supervisor. -/
theorem evolves_dispatch :
    Ends (fun flow s s' => Evolves (transfers i next s.core) (flow = .loaded) s s')
      (fun s s' => Evolves (transfers i next s.core) (calls i next s.core) s s') (dispatch now i next : Exec δ ω Flow) := by
  constructor
  · intro s s' flow h
    obtain ⟨t, u, herror, -⟩ | ⟨opcode, o, u, hsame, hslots, -, hdispatch⟩ := dispatch_reaches now i next s
    · rw [herror] at h
      cases h
    · rw [hdispatch] at h
      have hcarried : Evolves (transfers i next s.core) (flow = .loaded) u s' :=
        (evolves_carriedOut.ok h).mono hslots id
      exact (evolves_of_same hsame).trans hcarried
  · intro s s' t h
    obtain ⟨t, u, herror, hsame⟩ | ⟨opcode, o, u, hsame, hslots, hcalls, hdispatch⟩ := dispatch_reaches now i next s
    · rw [herror] at h
      cases h
      exact evolves_of_same hsame
    · rw [hdispatch] at h
      have hcarried : Evolves (transfers i next s.core) (calls i next s.core) u s' :=
        (evolves_carriedOut.error h).mono hslots hcalls
      exact (evolves_of_same hsame).trans hcarried

/-! ### The instruction at the program counter -/

/-- The instruction at the program counter completes, or its trap is delivered, or that cannot be done. -/
inductive Executed (now : Nat) (s : Hardware δ ω) : Hardware δ ω → Prop
  | completed {i : Instruction} {next : Word} {core : Core} {flow : Flow} {u : Hardware δ ω} (history : History)
      (hfetch : fetch s.begun = .ok (i, next) core) (h : dispatch now i next ⟨core, s.channels⟩ = .ok flow u) :
      Executed now s ⟨⟨{ proceed flow next u.core.cpu with history := history }, u.core.memory⟩, u.channels⟩
  | delivered {t : Trap} {resume : Word} {u : Hardware δ ω} {core : Core} (history : History)
      (htrap : Trapped now s t resume u) (h : Delivery.takeTrap now t resume u.core = .ok () core) :
      Executed now s ⟨⟨{ core.cpu with history := history }, core.memory⟩, u.channels⟩
  | undelivered {t : Trap} {resume : Word} {u : Hardware δ ω} {halt : TrapHalt} {core : Core}
      (htrap : Trapped now s t resume u) (h : Delivery.takeTrap now t resume u.core = .error halt core) :
      Executed now s ⟨core, u.channels⟩

theorem after_of_delivered {core : Core} (htrap : Trapped now s t resume u)
    (h : Delivery.takeTrap now t resume u.core = .ok () core) :
    ∃ history, after (executeInstruction now) s = ⟨⟨{ core.cpu with history := history }, core.memory⟩, u.channels⟩ := by
  obtain ⟨rest, hrest, hexecute⟩ := executeInstruction_trapped htrap
  obtain ⟨_, history, hbooks⟩ := hrest ⟨core, u.channels⟩
  have hcore : onCore (Delivery.takeTrap now t resume) u = .ok () ⟨core, u.channels⟩ := by rw [onCore, h]
  rw [after, hexecute, bind_of_ok hcore, hbooks]
  exact ⟨history, rfl⟩

theorem executed_of_trapped (htrap : Trapped now s t resume u) :
    Executed now s (after (executeInstruction now) s) := by
  cases htake : Delivery.takeTrap now t resume u.core with
  | ok _ core =>
    obtain ⟨history, hafter⟩ := after_of_delivered htrap htake
    rw [hafter]
    exact .delivered history htrap htake
  | error halt core =>
    obtain ⟨_, -, hexecute⟩ := executeInstruction_trapped htrap
    have hcore : onCore (Delivery.takeTrap now t resume) u = .error halt ⟨core, u.channels⟩ := by rw [onCore, htake]
    rw [after, hexecute, bind_of_error hcore]
    exact .undelivered htrap htake

/-- Execute the instruction at the program counter when it is found by `find`. -/
def executeBy (find : Concept32.Exec (Instruction × Word)) (now : Nat) : EStateM TrapHalt (Hardware δ ω) Nat :=
  fun ⟨⟨cpu, memory⟩, channels⟩ =>
    let before := cpu.psd
    let core : Core := ⟨{ cpu with indirections := 0 }, memory⟩
    match find core with
    | .error t core =>
      (do onCore (Delivery.takeTrap now t before.address); return Timing.trap :
        EStateM TrapHalt (Hardware δ ω) Nat) ⟨core, channels⟩
    | .ok (i, next) core =>
      let finish : EStateM TrapHalt (Hardware δ ω) Nat := do
        onCore (Delivery.modifyCpu (remember before i))
        let indirections := (← get).core.cpu.indirections
        return Timing.instruction i before.based indirections
      match dispatch now i next ⟨core, channels⟩ with
      | .ok flow s => (do onCore (Delivery.modifyCpu (proceed flow next)); finish :
          EStateM TrapHalt (Hardware δ ω) Nat) s
      | .error t s =>
        let resume := match t with
          | .demandPage _ => before.address
          | _ => next
        (do onCore (Delivery.takeTrap now t resume); finish : EStateM TrapHalt (Hardware δ ω) Nat) s

theorem executeInstruction_eq : (executeInstruction now : EStateM TrapHalt (Hardware δ ω) Nat) = executeBy fetch now := rfl

theorem executeBy_congr {find find' : Concept32.Exec (Instruction × Word)} (h : find s.begun = find' s.begun) :
    executeBy find now s = executeBy find' now s := by
  obtain ⟨⟨cpu, memory⟩, channels⟩ := s
  have hfind : find ⟨{ cpu with indirections := 0 }, memory⟩ = find' ⟨{ cpu with indirections := 0 }, memory⟩ := h
  rw [executeBy, executeBy]
  dsimp only
  rw [hfind]

/-- An instruction that traps nowhere is complete, and the program goes on. -/
theorem executeBy_of_completed {find : Concept32.Exec (Instruction × Word)} {core : Core}
    (hfind : find s.begun = .ok (i, next) core) (h : dispatch now i next ⟨core, s.channels⟩ = .ok flow u) :
    ∃ duration history, executeBy find now s =
      .ok duration ⟨⟨{ proceed flow next u.core.cpu with history := history }, u.core.memory⟩, u.channels⟩ := by
  obtain ⟨⟨cpu, memory⟩, channels⟩ := s
  have hfound : find ⟨{ cpu with indirections := 0 }, memory⟩ = .ok (i, next) core := hfind
  rw [executeBy]
  dsimp only at h ⊢
  rw [hfound]
  dsimp only
  rw [h]
  exact ⟨_, _, rfl⟩

theorem executeInstruction_of_completed {core : Core} (hfetch : fetch s.begun = .ok (i, next) core)
    (h : dispatch now i next ⟨core, s.channels⟩ = .ok flow u) :
    ∃ duration history, executeInstruction now s =
      .ok duration ⟨⟨{ proceed flow next u.core.cpu with history := history }, u.core.memory⟩, u.channels⟩ :=
  executeBy_of_completed hfetch h

theorem after_of_completed {core : Core} (hfetch : fetch s.begun = .ok (i, next) core)
    (h : dispatch now i next ⟨core, s.channels⟩ = .ok flow u) :
    ∃ history, after (executeInstruction now) s =
      ⟨⟨{ proceed flow next u.core.cpu with history := history }, u.core.memory⟩, u.channels⟩ := by
  obtain ⟨_, history, hexecute⟩ := executeInstruction_of_completed hfetch h
  rw [after, hexecute]
  exact ⟨history, rfl⟩

theorem executed (now : Nat) (s : Hardware δ ω) : Executed now s (after (executeInstruction now) s) := by
  cases hfetch : fetch s.begun with
  | error t core => exact executed_of_trapped (.fetching hfetch)
  | ok found core =>
    obtain ⟨i, next⟩ := found
    cases hdispatch : dispatch now i next ⟨core, s.channels⟩ with
    | ok flow u =>
      obtain ⟨history, hafter⟩ := after_of_completed hfetch hdispatch
      rw [hafter]
      exact .completed history hfetch hdispatch
    | error t u => exact executed_of_trapped (.executing hfetch hdispatch)

end

/-! ### Interrupts -/

section
variable {level : Nat} {entry : ConfigurationEntry}

/-- A look for an interrupt puts a status doubleword in force only when it takes one. -/
def Scans (slots : Nat → Prop) (taken : Bool) : Hardware δ ω → Hardware δ ω → Prop := Evolves slots (taken = true)

instance : Std.Refl (@Scans δ ω slots false) := ⟨fun _ => .refl⟩

instance {taken : Bool} : Trans (@Scans δ ω slots false) (Scans slots taken) (Scans slots taken) :=
  ⟨fun h h' => Core.Evolves.trans (h.mono (fun _ => id) Bool.noConfusion) h'⟩

theorem evolves_takeInterrupt : Ends (fun taken => Core.Evolves slots (taken = true)) (Core.Evolves slots (false = true))
    (takeInterrupt now level entry) where
  ok {s s' taken} h := by
    rcases takeInterrupt_cases now level entry s with ⟨-, htake⟩ | ⟨block, v, -, ⟨hexchange, htake⟩ | ⟨_, -, htake⟩⟩
    · rw [htake] at h
      cases h
      exact .of_change (.switch (.clear level))
    · have hactive : Core.Evolves slots True s ⟨s.cpu.activateLevel level, s.memory⟩ :=
        .of_change (.switch (.activate level))
      have hentered : Core.Evolves slots True s v := hactive.trans (Concept32.Exec.evolves_exchange.ok hexchange)
      have hsettled : Core.Evolves slots True v ⟨v.cpu.settled level entry.isClassF, v.memory⟩ := by
        rw [Cpu.settled]
        split
        · exact .of_change (.switch (.deactivate level))
        · exact .refl
      rw [htake] at h
      cases h
      exact (hentered.trans (hsettled.trans Delivery.evolves_mode)).mono (fun _ => id) fun _ => rfl
    · rw [htake] at h
      cases h
  error {s s' halt} h := by
    rcases takeInterrupt_cases now level entry s with ⟨-, htake⟩ | ⟨block, v, -, ⟨-, htake⟩ | ⟨_, hexchange, htake⟩⟩
    · rw [htake] at h
      cases h
    · rw [htake] at h
      cases h
    · have hcpu : v.cpu = s.cpu.activateLevel level := Concept32.Exec.keeps_cpu_exchange.error hexchange
      have hactive : Core.Evolves slots (false = true) s ⟨v.cpu, v.memory⟩ :=
        .of_change (.switch (by rw [hcpu]; exact .activate level))
      rw [htake] at h
      cases h
      exact hactive.trans Delivery.evolves_mode

theorem evolves_presentStatus : Ends (fun _ => @Scans δ ω slots false) (Scans slots false) (presentStatus entry level) where
  ok {s s' presented} h := by
    have hcpu := cpu_of_presentStatus h
    cases presented with
    | true => exact .of_change (.switch (by rw [hcpu]; exact .request level))
    | false => exact .of_change (.compute (by rw [hcpu]; exact .refl))
  error {s s' halt} h := by
    obtain ⟨⟨cpu, memory⟩, channels⟩ := s
    rw [presentStatus] at h
    repeat' split at h
    all_goals cases h

theorem evolves_scanForInterrupt : Ends (@Scans δ ω slots) (Scans slots false) (scanForInterrupt now) :=
  ends_scanForInterrupt evolves_presentStatus (evolves_onCore evolves_takeInterrupt)

end

/-! ### Events -/

/-- Something that happens to the hardware. -/
inductive Event (δ ω : Type)
  | instruct (now : Nat)
  | scan (now : Nat)
  | request (level : Nat)
  /-- A load of the status doubleword at an address, as at the end of a program load. -/
  | load (a : Word)
  /-- A start at an address. -/
  | start (a : Word)
  | reset
  | halt
  /-- Whatever the devices and channels do by themselves. -/
  | devices (channels : Channels δ ω) (memory : Memory)

namespace Event

section
variable [Peripheral δ ω]

/-- The hardware after an event, also if it failed. -/
def apply (s : Hardware δ ω) : Event δ ω → Hardware δ ω
  | instruct now => after (executeInstruction now) s
  | scan now => after (scanForInterrupt now) s
  | request level => ⟨⟨s.core.cpu.requestInterrupt level, s.core.memory⟩, s.channels⟩
  | load a => after (onCore (Concept32.Exec.startAt a)) s
  | start a =>
    ⟨⟨{ s.core.cpu with psd := Psd.initial.withAddress a, mode := .running }, s.core.memory⟩, s.channels⟩
  | reset => ⟨⟨s.core.cpu.reset, s.core.memory⟩, s.channels⟩
  | halt => ⟨⟨{ s.core.cpu with mode := .halted }, s.core.memory⟩, s.channels⟩
  | devices channels memory => ⟨⟨s.core.cpu, memory⟩, channels⟩

/-- The slots of the scratchpad to which an event transfers a register. -/
def transfersTo (e : Event δ ω) (s : Hardware δ ω) (slot : Nat) : Prop :=
  match e with
  | instruct _ => ∃ i next core, fetch s.begun = .ok (i, next) core ∧ transfers i next core slot
  | _ => False

/-- An event puts a status doubleword in force: an instruction loads one, a trap or an interrupt is delivered, a
supervisor call fails when it has already passed control, or one is loaded from outside. -/
inductive Enforces (s : Hardware δ ω) : Event δ ω → Prop
  | loading {now : Nat} {i : Instruction} {next : Word} {core : Core} {u : Hardware δ ω}
      (hfetch : fetch s.begun = .ok (i, next) core) (h : dispatch now i next ⟨core, s.channels⟩ = .ok .loaded u) :
      Enforces s (.instruct now)
  | trapping {now : Nat} {t : Trap} {resume : Word} {u : Hardware δ ω} {core : Core} (htrap : Trapped now s t resume u)
      (h : Delivery.takeTrap now t resume u.core = .ok () core) : Enforces s (.instruct now)
  | calling {now : Nat} {i : Instruction} {next : Word} {core : Core} {t : Trap} {u : Hardware δ ω}
      (hfetch : fetch s.begun = .ok (i, next) core) (h : dispatch now i next ⟨core, s.channels⟩ = .error t u)
      (hcalls : calls i next core) : Enforces s (.instruct now)
  | interrupting {now : Nat} {u : Hardware δ ω} (h : scanForInterrupt now s = .ok true u) : Enforces s (.scan now)
  | starting {a : Word} {core : Core} (h : Concept32.Exec.startAt a s.core = .ok () core) : Enforces s (.load a)

theorem evolves_trapped (h : Trapped now s t resume u) :
    Evolves ((Event.instruct now).transfersTo s) ((Event.instruct now).Enforces s) s u := by
  have hbegun : Core.Evolves ((Event.instruct now).transfersTo s)
      ((Event.instruct now).Enforces s) s.core s.begun := .of_change (.compute ⟨rfl, rfl, fun _ _ => rfl, rfl⟩)
  cases h with
  | fetching h => exact hbegun.trans (reads_fetch.error h).steady.evolves
  | executing hfetch h =>
    have hread := hbegun.trans (reads_fetch.ok hfetch).steady.evolves
    exact hread.trans ((evolves_dispatch.error h).mono (fun slot hslot => ⟨_, _, _, hfetch, hslot⟩) (.calling hfetch h))

theorem evolves_executed (h : Executed now s s') :
    Evolves ((Event.instruct now).transfersTo s) ((Event.instruct now).Enforces s) s s' := by
  cases h with
  | @completed i next core flow u history hfetch h =>
    have hbegun : Core.Evolves ((Event.instruct now).transfersTo s)
        ((Event.instruct now).Enforces s) s.core s.begun := .of_change (.compute ⟨rfl, rfl, fun _ _ => rfl, rfl⟩)
    have hread := hbegun.trans (reads_fetch.ok hfetch).steady.evolves
    have hdone := hread.trans ((evolves_dispatch.ok h).mono (fun slot hslot => ⟨i, next, core, hfetch, hslot⟩)
      fun hloaded => .loading hfetch (hloaded ▸ h))
    exact hdone.trans evolves_proceed
  | @delivered t resume u core history htrap h =>
    have hdelivered : Core.Evolves ((Event.instruct now).transfersTo s) True u.core core :=
      Delivery.evolves_takeTrap.ok h
    have hentered : Core.Evolves ((Event.instruct now).transfersTo s)
        ((Event.instruct now).Enforces s) s.core core :=
      Core.Evolves.trans (evolves_trapped htrap) (hdelivered.mono (fun _ => id) fun _ => .trapping htrap h)
    exact hentered.trans (.of_change (.compute ⟨rfl, rfl, fun _ _ => rfl, rfl⟩))
  | undelivered htrap h =>
    exact (evolves_trapped htrap).trans ((Delivery.evolves_takeTrap.error h).mono (fun _ => id) False.elim)

/-- An event changes the processor step by step. -/
theorem evolves (e : Event δ ω) (s : Hardware δ ω) : Evolves (e.transfersTo s) (e.Enforces s) s (e.apply s) := by
  cases e with
  | instruct now => exact evolves_executed (executed now s)
  | scan now =>
    rw [apply, after]
    cases hscan : scanForInterrupt now s with
    | ok taken u =>
      have hscanned : Scans ((Event.scan now).transfersTo s) taken s u :=
        evolves_scanForInterrupt.ok hscan
      refine hscanned.mono (fun _ => id) fun htaken => ?_
      rw [htaken] at hscan
      exact .interrupting hscan
    | error halt u => exact (evolves_scanForInterrupt.error hscan).mono (fun _ => id) Bool.noConfusion
  | request level => exact .of_change (.switch (.request level))
  | load a =>
    rw [apply, after]
    cases hload : onCore (Concept32.Exec.startAt a) s with
    | ok _ u =>
      have hstart := (onCore_eq_ok hload).2
      exact (Concept32.Exec.evolves_startAt.ok hstart).mono (fun _ => id) fun _ => .starting hstart
    | error t u =>
      have hstart := (onCore_eq_error hload).2
      exact (Concept32.Exec.evolves_startAt.error hstart).mono (fun _ => id) False.elim
  | start a =>
    have hstart : Core.Evolves ((Event.start a).transfersTo s)
        ((Event.start a).Enforces s) s.core
        ⟨{ s.core.cpu with psd := Psd.initial.withAddress a }, s.core.memory⟩ := .of_change (.start a)
    exact hstart.trans Delivery.evolves_mode
  | reset => exact .of_change .reset
  | halt => exact Delivery.evolves_mode
  | devices channels memory => exact .refl

end
end Event

/-! ### Runs -/

section
variable [Peripheral δ ω] {events : List (Event δ ω)} {P : Hardware δ ω → Prop} {Q : Event δ ω → Hardware δ ω → Prop}

/-- The hardware after some events. -/
def run : List (Event δ ω) → Hardware δ ω → Hardware δ ω
  | [], s => s
  | e :: events, s => run events (e.apply s)

/-- Something holds of every event in the state in which it happens. -/
def Along (Q : Event δ ω → Hardware δ ω → Prop) : List (Event δ ω) → Hardware δ ω → Prop
  | [], _ => True
  | e :: events, s => Q e s ∧ Along Q events (e.apply s)

/-- Something holds in every state through which the events lead. -/
def Always (P : Hardware δ ω → Prop) : List (Event δ ω) → Hardware δ ω → Prop
  | [], s => P s
  | e :: events, s => P s ∧ Always P events (e.apply s)

theorem run_keeps (hstep : ∀ {e : Event δ ω} {s : Hardware δ ω}, Q e s → P s → P (e.apply s)) (halong : Along Q events s)
    (hp : P s) : P (run events s) := by
  induction events generalizing s with
  | nil => exact hp
  | cons e events ih => exact ih halong.2 (hstep halong.1 hp)

theorem Always.head (h : Always P events s) : P s := by
  cases events with
  | nil => exact h
  | cons => exact h.1

theorem Always.mono {P' : Hardware δ ω → Prop} (h : ∀ {s}, P s → P' s) (halways : Always P events s) :
    Always P' events s := by
  induction events generalizing s with
  | nil => exact h halways
  | cons e events ih => exact ⟨h halways.1, ih halways.2⟩

/-- What can be lost only by putting a status doubleword in force holds always if it holds after each of these. -/
theorem always_iff (hstep : ∀ {e : Event δ ω} {s : Hardware δ ω}, ¬e.Enforces s → P s → P (e.apply s)) (hp : P s) :
    Always P events s ↔ Along (fun (e : Event δ ω) s => e.Enforces s → P (e.apply s)) events s := by
  induction events generalizing s with
  | nil => exact ⟨fun _ => trivial, fun _ => hp⟩
  | cons e events ih =>
    constructor
    · rintro ⟨-, hrest⟩
      exact ⟨fun _ => hrest.head, (ih hrest.head).mp hrest⟩
    · rintro ⟨henforced, hrest⟩
      have hnext : P (e.apply s) := by
        by_cases henforces : e.Enforces s
        · exact henforced henforces
        · exact hstep henforces hp
      exact ⟨hp, (ih hnext).mpr hrest⟩

end
end Hardware
end Concept32
