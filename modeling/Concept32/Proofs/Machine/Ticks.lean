import Concept32.Machine.Run
import Concept32.Proofs.Channels.Polling
import Concept32.Proofs.Hardware.Execute
import Concept32.Proofs.Hardware.Interrupts

/-!
# What a tick does

The parts of a tick that succeeds: the poll of the channels, the look for an interrupt, and the instruction
that is due.
-/

namespace Concept32.Machine
open EStateM
variable {δ ω : Type} {m m' : Machine δ ω} {now : Nat}

theorem onHardware_eq_ok {α : Type} {x : EStateM TrapHalt (Hardware δ ω) α} {a : α} :
    onHardware x m = .ok a m' ↔ ∃ s, x m.hardware = .ok a s ∧ m' = { m with hardware := s } := by
  obtain ⟨config, hardware, instructionDue, pollDue, executed⟩ := m
  rw [onHardware]
  cases x hardware with
  | ok b s => simp [eq_comm, and_comm]
  | error e s => simp

theorem onHardware_eq_error {α : Type} {x : EStateM TrapHalt (Hardware δ ω) α} {stop : MachineStop} :
    onHardware x m = .error stop m' ↔
      ∃ halt s, x m.hardware = .error halt s ∧ stop = .trap halt ∧ m' = { m with hardware := s } := by
  obtain ⟨config, hardware, instructionDue, pollDue, executed⟩ := m
  rw [onHardware]
  cases x hardware with
  | ok b s => simp
  | error e s => simp [eq_comm, and_comm]

/-- The time at which the channels are next looked at after a poll that left them in a state. -/
def nextPoll (now : Nat) (serviced scanned : Channels δ ω) : Nat :=
  if scanned.interruptPending then now
  else match serviced.nextService? with
    | some due => max due now
    | none => now + idlePollTime

theorem pollIfPending_eq : pollIfPending now m =
    .ok () { m with pollDue := if m.channels.interruptPending then now else m.pollDue } := by
  obtain ⟨config, ⟨⟨cpu, memory⟩, channels⟩, instructionDue, pollDue, executed⟩ := m
  show (if channels.interruptPending then modifyPollDue fun _ => now else pure () : Action δ ω Unit) _ =
    .ok () (⟨config, ⟨⟨cpu, memory⟩, channels⟩, instructionDue,
      if channels.interruptPending then now else pollDue, executed⟩ : Machine δ ω)
  split <;> rfl

/-- The time at which the channels are next looked at after an instruction that left them in a state. -/
def advancedPoll (now : Nat) (c : Channels δ ω) (pollDue : Nat) : Nat :=
  if c.interruptPending then now
  else match c.nextService? with
    | some due => min pollDue (max due now)
    | none => pollDue

theorem advancePoll_eq : advancePoll now m = .ok () { m with pollDue := advancedPoll now m.channels m.pollDue } := by
  obtain ⟨config, ⟨core, channels⟩, instructionDue, pollDue, executed⟩ := m
  rw [advancePoll, bind_of_ok (show nextService? ⟨config, ⟨core, channels⟩, instructionDue, pollDue, executed⟩ =
    .ok channels.nextService? ⟨config, ⟨core, channels⟩, instructionDue, pollDue, executed⟩ from rfl), advancedPoll]
  dsimp only [Machine.channels]
  cases channels.nextService? with
  | none => exact pollIfPending_eq
  | some due => exact bind_eq_ok.mpr ⟨_, _, rfl, pollIfPending_eq⟩

/-- The end of a load leaves the channels as they are, and the time at which they are next looked at. -/
theorem keeps_endLoad {progress : LoadProgress} : Moves (Keeps fun m : Machine δ ω => (m.channels, m.pollDue))
    (endLoad now progress) := by
  have hcore : ∀ {α : Type} (x : Delivery α), Moves (Keeps fun m : Machine δ ω => (m.channels, m.pollDue))
      (onHardware (Hardware.onCore x)) := fun x => by
    refine ⟨fun h => ?_, fun h => ?_⟩
    · obtain ⟨s, hs, rfl⟩ := onHardware_eq_ok.mp h
      exact Prod.ext (Hardware.onCore_eq_ok hs).1 rfl
    · obtain ⟨halt, s, hs, -, rfl⟩ := onHardware_eq_error.mp h
      exact Prod.ext (Hardware.onCore_eq_error hs).1 rfl
  cases progress with
  | complete a =>
    rw [endLoad]
    exact .bind (hcore _) fun _ => ⟨fun h => by cases h; rfl, fun h => by cases h⟩
  | failed e =>
    rw [endLoad]
    exact .bind (hcore _) fun _ => .throw _

variable [Peripheral δ ω]

theorem serviced_eq {c : Channels δ ω} {mem : Memory} (hpoll : m.channels.poll now m.memory = (c, mem)) :
    onHardware (Hardware.onChannelsAndMemory fun c mem => ((), c.poll now mem)) m =
      .ok () { m with hardware := ⟨⟨m.cpu, mem⟩, c⟩ } :=
  onHardware_eq_ok.mpr ⟨_, Hardware.onChannelsAndMemory_of_eq (congrArg (Prod.mk ()) hpoll), rfl⟩

theorem scanned_eq {c c' : Channels δ ω} {mem : Memory} {progress : Option LoadProgress}
    (hscan : c.scan now mem = (progress, c')) (hm : m.hardware = ⟨⟨m.cpu, mem⟩, c⟩) :
    onHardware (Hardware.onChannelsAndMemory fun c mem =>
        match c.scan now mem with
        | (progress, c) => (progress, c, mem)) m = .ok progress { m with hardware := ⟨⟨m.cpu, mem⟩, c'⟩ } := by
  refine onHardware_eq_ok.mpr ⟨_, ?_, rfl⟩
  rw [hm]
  exact Hardware.onChannelsAndMemory_of_eq (by rw [hscan])

/-- The time at which the channels are next looked at for a device that wants service. -/
def servicePoll (now : Nat) (serviced : Channels δ ω) : Nat :=
  match serviced.nextService? with
  | some due => max due now
  | none => now + idlePollTime

/-- The end of a poll, after its scan. -/
def concludePoll (now : Nat) : Option LoadProgress → Action δ ω Unit
  | none => pollIfPending now
  | some progress => do
    endLoad now progress
    pollIfPending now

/-- A poll services devices, scans the programs and acts on the end of a load. -/
theorem poll_eq {c c' : Channels δ ω} {mem : Memory} {progress : Option LoadProgress}
    (hpoll : m.channels.poll now m.memory = (c, mem)) (hscan : c.scan now mem = (progress, c')) :
    poll now m = concludePoll now progress
      ⟨m.config, ⟨⟨m.cpu, mem⟩, c'⟩, m.instructionDue, servicePoll now c, m.executed⟩ := by
  refine (bind_of_ok (serviced_eq hpoll)).trans ((bind_of_ok rfl).trans ((bind_of_ok rfl).trans
    ((bind_of_ok (scanned_eq hscan rfl)).trans ?_)))
  cases progress <;> rfl

/-- A poll that succeeds leaves the channels as its scan does. Unless the loading of the machine has ended it changes
nothing else but memory and when the channels are next looked at. -/
theorem poll_inv {c c' : Channels δ ω} {mem : Memory} {progress : Option LoadProgress}
    (hpoll : m.channels.poll now m.memory = (c, mem)) (hscan : c.scan now mem = (progress, c'))
    (h : poll now m = .ok () m') :
    (m'.channels = c' ∧ m'.pollDue = nextPoll now c c') ∧ (progress = none →
      m' = ⟨m.config, ⟨⟨m.cpu, mem⟩, c'⟩, m.instructionDue, nextPoll now c c', m.executed⟩) := by
  rw [poll_eq hpoll hscan] at h
  cases progress with
  | none =>
    cases h.symm.trans pollIfPending_eq
    exact ⟨⟨rfl, rfl⟩, fun _ => rfl⟩
  | some progress =>
    obtain ⟨_, ended, hend, h⟩ := bind_eq_ok.mp h
    cases h.symm.trans pollIfPending_eq
    obtain ⟨hchannels, hdue⟩ := Prod.mk.inj (keeps_endLoad.ok hend)
    refine ⟨⟨hchannels, ?_⟩, fun hnone => by cases hnone⟩
    dsimp only
    rw [hchannels, hdue]
    rfl

/-- A poll fails when it acts on the end of a load. -/
theorem poll_eq_error {c c' : Channels δ ω} {mem : Memory} {progress : Option LoadProgress} {stop : MachineStop}
    (hpoll : m.channels.poll now m.memory = (c, mem)) (hscan : c.scan now mem = (progress, c'))
    (h : poll now m = .error stop m') :
    progress.isSome ∧ m'.channels = c' ∧ m'.pollDue = servicePoll now c := by
  rw [poll_eq hpoll hscan] at h
  cases progress with
  | none => cases h.symm.trans pollIfPending_eq
  | some progress =>
    obtain hend | ⟨_, ended, _, h⟩ := bind_eq_error.mp h
    · obtain ⟨hchannels, hdue⟩ := Prod.mk.inj (keeps_endLoad.error hend)
      exact ⟨rfl, hchannels, hdue⟩
    · cases h.symm.trans pollIfPending_eq

/-- A poll at which no loading ends succeeds. -/
theorem poll_of_scan_none {c c' : Channels δ ω} {mem : Memory} (hpoll : m.channels.poll now m.memory = (c, mem))
    (hscan : c.scan now mem = (none, c')) :
    poll now m = .ok () ⟨m.config, ⟨⟨m.cpu, mem⟩, c'⟩, m.instructionDue, nextPoll now c c', m.executed⟩ :=
  (poll_eq hpoll hscan).trans pollIfPending_eq

/-! ### Instructions -/

/-- The time at which the next instruction is due after one that was due at a time and left the processor in a mode. -/
def nextInstruction (now due duration : Nat) (mode : RunMode) : Option Nat :=
  if mode = .running then some (if due + duration ≤ now then now + 1 else due + duration) else none

theorem execute_of_ok {due duration : Nat} {s : Hardware δ ω}
    (h : Hardware.executeInstruction now m.hardware = .ok duration s) :
    execute now due m = .ok () ⟨m.config, s, nextInstruction now due duration s.core.cpu.mode,
      advancedPoll now s.channels m.pollDue, m.executed + 1⟩ := by
  refine bind_eq_ok.mpr ⟨(), { m with instructionDue := none }, rfl, bind_eq_ok.mpr ⟨duration,
    { m with hardware := s, instructionDue := none }, onHardware_eq_ok.mpr ⟨s, h, rfl⟩, bind_eq_ok.mpr ⟨_, _, rfl,
    bind_eq_ok.mpr ⟨_, _, rfl, ?_⟩⟩⟩⟩
  split
  · next hmode =>
    rw [nextInstruction, if_pos (show s.core.cpu.mode = .running from hmode)]
    exact bind_eq_ok.mpr ⟨(), _, rfl, advancePoll_eq⟩
  · next hmode =>
    rw [nextInstruction, if_neg (show ¬s.core.cpu.mode = .running from hmode)]
    exact advancePoll_eq

theorem execute_of_error {due : Nat} {halt : TrapHalt} {s : Hardware δ ω}
    (h : Hardware.executeInstruction now m.hardware = .error halt s) :
    execute now due m = .error (.trap halt) { m with hardware := s, instructionDue := none } := by
  rw [execute, bind_of_ok (show setInstructionDue none m = .ok () { m with instructionDue := none } from rfl)]
  exact bind_of_error (onHardware_eq_error.mpr ⟨halt, s, h, rfl, rfl⟩)

theorem executeDue_eq : executeDue now m =
    match m.mode, m.instructionDue with
    | .running, some due => if due ≤ now then execute now due m else .ok () m
    | .running, none => .ok () { m with instructionDue := some now }
    | _, _ => .ok () m := by
  rw [executeDue, bind_of_ok (get_eq_ok.mpr ⟨rfl, rfl⟩), bind_of_ok (get_eq_ok.mpr ⟨rfl, rfl⟩)]
  cases m.mode with
  | running =>
    cases m.instructionDue with
    | none => rfl
    | some due =>
      dsimp only
      split <;> rfl
  | waiting | halted => rfl

/-- An instruction that is executed leaves none due, or one that is due later. -/
theorem execute_inv {due : Nat} (h : execute now due m = .ok () m') :
    (∀ d, m'.instructionDue = some d → now < d) ∧ m'.channels.loading = m.channels.loading := by
  cases hexecute : Hardware.executeInstruction now m.hardware with
  | error halt s => cases h.symm.trans (execute_of_error hexecute)
  | ok duration s =>
    cases h.symm.trans (execute_of_ok hexecute)
    refine ⟨fun d hd => ?_, Hardware.sameLoading_executeInstruction hexecute⟩
    dsimp only [nextInstruction] at hd
    split at hd
    · cases hd
      split <;> omega
    · cases hd

/-- What may happen when an instruction is looked for: none is due; one is due at once, because the processor
runs again without one; or one is executed. -/
theorem executeDue_inv (h : executeDue now m = .ok () m') :
    (m' = m ∧ (m.mode = .running → ∃ due, m.instructionDue = some due ∧ now < due)) ∨
      (m.instructionDue = none ∧ m' = { m with instructionDue := some now }) ∨
      ((∃ due ≤ now, m.instructionDue = some due) ∧ (∀ d, m'.instructionDue = some d → now < d) ∧
        m'.channels.loading = m.channels.loading) := by
  rw [executeDue_eq] at h
  split at h
  · next due _ hdue =>
    split at h
    · next hle => exact .inr (.inr ⟨⟨due, hle, hdue⟩, execute_inv h⟩)
    · cases h
      exact .inl ⟨rfl, fun _ => ⟨due, hdue, by omega⟩⟩
  · next hnone =>
    cases h
    exact .inr (.inl ⟨hnone, rfl⟩)
  · next hdue hnone =>
    cases h
    refine .inl ⟨rfl, fun hrunning => ?_⟩
    cases hd : m.instructionDue with
    | none => exact (hnone hrunning hd).elim
    | some due => exact (hdue due hrunning hd).elim

theorem executeDue_of_later (h : m.mode = .running → ∃ due, m.instructionDue = some due ∧ now < due) :
    executeDue now m = .ok () m := by
  rw [executeDue_eq]
  split
  · next due hrunning hdue =>
    obtain ⟨due', hdue', hlt⟩ := h hrunning
    cases hdue.symm.trans hdue'
    rw [if_neg (Nat.not_le.mpr hlt)]
  · next hrunning hnone =>
    obtain ⟨due, hdue, -⟩ := h hrunning
    cases hnone.symm.trans hdue
  · rfl

/-! ### The whole tick -/

/-- The part of a tick after the poll, with the answer whether an interrupt was taken. -/
theorem act_eq_ok {taken : Bool} :
    (do if taken then setInstructionDue (some (now + Timing.interrupt)) else executeDue now : Action δ ω Unit) m =
        .ok () m' ↔
      if taken then m' = { m with instructionDue := some (now + Timing.interrupt) }
      else executeDue now m = .ok () m' := by
  cases taken with
  | true => exact modify_eq_ok.trans eq_comm
  | false => exact Iff.rfl

theorem look_eq_ok : (do
      let interrupted ←
        if (← get).mode = .halted then pure false else onHardware (Hardware.scanForInterrupt now)
      if interrupted then setInstructionDue (some (now + Timing.interrupt))
      else executeDue now : Action δ ω Unit) m = .ok () m' ↔
    ∃ taken s, (if m.mode = .halted then taken = false ∧ s = m.hardware
        else Hardware.scanForInterrupt now m.hardware = .ok taken s) ∧
      (if taken then m' = { m with hardware := s, instructionDue := some (now + Timing.interrupt) }
        else executeDue now { m with hardware := s } = .ok () m') := by
  constructor
  · intro h
    obtain ⟨_, _, hget, h⟩ := bind_eq_ok.mp h
    cases hget
    split at h
    · next hmode =>
      exact ⟨false, m.hardware, by rw [if_pos hmode]; exact ⟨rfl, rfl⟩, act_eq_ok.mp h⟩
    · next hmode =>
      obtain ⟨taken, _, hscan, h⟩ := bind_eq_ok.mp h
      obtain ⟨s, hs, rfl⟩ := onHardware_eq_ok.mp hscan
      exact ⟨taken, s, by rwa [if_neg hmode], act_eq_ok.mp h⟩
  · rintro ⟨taken, s, hlook, hact⟩
    refine bind_eq_ok.mpr ⟨m, m, rfl, ?_⟩
    split at hlook
    · next hmode =>
      obtain ⟨rfl, rfl⟩ := hlook
      rw [if_pos hmode]
      exact act_eq_ok.mpr hact
    · next hmode =>
      rw [if_neg hmode]
      exact bind_eq_ok.mpr ⟨taken, _, onHardware_eq_ok.mpr ⟨s, hlook, rfl⟩, act_eq_ok.mpr hact⟩

/-- A tick polls the channels if it is time, looks for an interrupt unless the processor is halted, and executes
an instruction if none was taken. -/
theorem tick_eq_ok : tick now m = .ok () m' ↔
    ∃ m₁ taken s, (if m.pollDue ≤ now then poll now m = .ok () m₁ else m₁ = m) ∧
      (if m₁.mode = .halted then taken = false ∧ s = m₁.hardware
        else Hardware.scanForInterrupt now m₁.hardware = .ok taken s) ∧
      (if taken then m' = { m₁ with hardware := s, instructionDue := some (now + Timing.interrupt) }
        else executeDue now { m₁ with hardware := s } = .ok () m') := by
  constructor
  · intro h
    rw [tick] at h
    obtain ⟨_, _, hget, h⟩ := bind_eq_ok.mp h
    cases hget
    split at h
    · next hdue =>
      obtain ⟨_, m₁, hpoll, h⟩ := bind_eq_ok.mp h
      obtain ⟨taken, s, hlook, hact⟩ := look_eq_ok.mp h
      exact ⟨m₁, taken, s, by rwa [if_pos hdue], hlook, hact⟩
    · next hdue =>
      obtain ⟨taken, s, hlook, hact⟩ := look_eq_ok.mp h
      exact ⟨m, taken, s, by rw [if_neg hdue], hlook, hact⟩
  · rintro ⟨m₁, taken, s, hpoll, hlook, hact⟩
    have hrest := look_eq_ok.mpr ⟨taken, s, hlook, hact⟩
    rw [tick]
    refine bind_eq_ok.mpr ⟨m, m, rfl, ?_⟩
    split at hpoll
    · next hdue =>
      rw [if_pos hdue]
      exact bind_eq_ok.mpr ⟨(), m₁, hpoll, hrest⟩
    · next hdue =>
      subst hpoll
      rw [if_neg hdue]
      exact hrest

/-- The first part of a tick: the poll, if it is time for one, and the look for an interrupt unless the processor is
halted. The answer is whether an interrupt was taken. -/
def look (now : Nat) : Action δ ω Bool := do
  if (← get).pollDue ≤ now then poll now
  if (← get).mode = .halted then pure false else onHardware (Hardware.scanForInterrupt now)

theorem look_eq : look now m =
    match (if m.pollDue ≤ now then poll now m else .ok () m) with
    | .ok _ m₁ => if m₁.mode = .halted then .ok false m₁ else onHardware (Hardware.scanForInterrupt now) m₁
    | .error stop m' => .error stop m' := by
  have hrest : ∀ m₁ : Machine δ ω, (do
        if (← get).mode = .halted then pure false else onHardware (Hardware.scanForInterrupt now) : Action δ ω Bool) m₁ =
      if m₁.mode = .halted then .ok false m₁ else onHardware (Hardware.scanForInterrupt now) m₁ := fun m₁ => by
    rw [bind_of_ok (get_eq_ok.mpr ⟨rfl, rfl⟩)]
    split <;> rfl
  rw [look, bind_of_ok (get_eq_ok.mpr ⟨rfl, rfl⟩)]
  split
  · cases hpoll : poll now m with
    | ok _ m₁ =>
      rw [bind_of_ok hpoll]
      exact hrest m₁
    | error stop m' => rw [bind_of_error hpoll]
  · exact hrest m

/-- The rest of a tick follows from the first part: the time of the next instruction is set, or the instruction that
is due is executed. -/
theorem tick_eq : tick now m =
    match look now m with
    | .ok true m' => .ok () { m' with instructionDue := some (now + Timing.interrupt) }
    | .ok false m' => executeDue now m'
    | .error stop m' => .error stop m' := by
  have hget : ∀ m : Machine δ ω, (get : Action δ ω (Machine δ ω)) m = .ok m m := fun _ => rfl
  have hrest : ∀ m₁ : Machine δ ω, (do
        let interrupted ←
          if (← get).mode = .halted then pure false else onHardware (Hardware.scanForInterrupt now)
        if interrupted then setInstructionDue (some (now + Timing.interrupt))
        else executeDue now : Action δ ω Unit) m₁ =
      match (do if (← get).mode = .halted then pure false else onHardware (Hardware.scanForInterrupt now) :
          Action δ ω Bool) m₁ with
      | .ok true m' => .ok () { m' with instructionDue := some (now + Timing.interrupt) }
      | .ok false m' => executeDue now m'
      | .error stop m' => .error stop m' := fun m₁ => by
    rw [bind_of_ok (hget m₁), bind_of_ok (hget m₁)]
    split
    · rfl
    · cases hscan : onHardware (Hardware.scanForInterrupt now) m₁ with
      | ok taken m' =>
        rw [bind_of_ok hscan]
        cases taken <;> rfl
      | error stop m' => rw [bind_of_error hscan]
  rw [tick, look, bind_of_ok (hget m), bind_of_ok (hget m)]
  split
  · cases hpoll : poll now m with
    | ok _ m₁ =>
      rw [bind_of_ok hpoll, bind_of_ok hpoll]
      exact hrest m₁
    | error stop m' => rw [bind_of_error hpoll, bind_of_error hpoll]
  · exact hrest m

/-- A tick at which the processor is halted only polls. -/
theorem tick_of_halted {m₁ : Machine δ ω} (hdue : m.pollDue ≤ now) (hpoll : poll now m = .ok () m₁)
    (hmode : m₁.mode = .halted) : tick now m = .ok () m₁ := by
  rw [tick_eq, look_eq, if_pos hdue, hpoll]
  dsimp only
  rw [if_pos hmode]
  exact executeDue_of_later fun hrunning => by cases hmode.symm.trans hrunning

/-- What a tick comes to. -/
inductive Outcome (now : Nat) (m : Machine δ ω) : Result MachineStop (Machine δ ω) Unit → Prop
  /-- The loading of the machine has failed, or an interrupt cannot be delivered. -/
  | stopped {stop : MachineStop} {m' : Machine δ ω} (hlook : look now m = .error stop m') :
    Outcome now m (.error stop m')
  | interrupted {m' : Machine δ ω} (hlook : look now m = .ok true m') :
    Outcome now m (.ok () { m' with instructionDue := some (now + Timing.interrupt) })
  | executed {m' : Machine δ ω} {s : Hardware δ ω} {due duration : Nat} (hlook : look now m = .ok false m')
    (hrunning : m'.mode = .running) (hdue : m'.instructionDue = some due) (hle : due ≤ now)
    (hexecute : Hardware.executeInstruction now m'.hardware = .ok duration s) :
    Outcome now m (.ok () ⟨m'.config, s, nextInstruction now due duration s.core.cpu.mode,
      advancedPoll now s.channels m'.pollDue, m'.executed + 1⟩)
  /-- The instruction has trapped, and the trap cannot be delivered. -/
  | trapped {m' : Machine δ ω} {s : Hardware δ ω} {due : Nat} {halt : TrapHalt} (hlook : look now m = .ok false m')
    (hrunning : m'.mode = .running) (hdue : m'.instructionDue = some due) (hle : due ≤ now)
    (hexecute : Hardware.executeInstruction now m'.hardware = .error halt s) :
    Outcome now m (.error (.trap halt) { m' with hardware := s, instructionDue := none })
  /-- The processor runs again without an instruction that is due. -/
  | resumed {m' : Machine δ ω} (hlook : look now m = .ok false m') (hrunning : m'.mode = .running)
    (hnone : m'.instructionDue = none) : Outcome now m (.ok () { m' with instructionDue := some now })
  | idle {m' : Machine δ ω} (hlook : look now m = .ok false m')
    (hlater : m'.mode = .running → ∃ due, m'.instructionDue = some due ∧ now < due) : Outcome now m (.ok () m')

theorem outcome_tick (now : Nat) (m : Machine δ ω) : Outcome now m (tick now m) := by
  rw [tick_eq]
  cases hlook : look now m with
  | error stop m' => exact .stopped hlook
  | ok taken m' =>
    cases taken with
    | true => exact .interrupted hlook
    | false =>
      by_cases hlater : m'.mode = .running → ∃ due, m'.instructionDue = some due ∧ now < due
      · dsimp only
        rw [executeDue_of_later hlater]
        exact .idle hlook hlater
      obtain ⟨hrunning, hnot⟩ := Classical.not_imp.mp hlater
      dsimp only
      rw [executeDue_eq, hrunning]
      cases hdue : m'.instructionDue with
      | none => exact .resumed hlook hrunning hdue
      | some due =>
        have hle : due ≤ now := Nat.not_lt.mp fun hlt => hnot ⟨due, hdue, hlt⟩
        dsimp only
        rw [if_pos hle]
        cases hexecute : Hardware.executeInstruction now m'.hardware with
        | ok duration s =>
          rw [execute_of_ok hexecute]
          exact .executed hlook hrunning hdue hle hexecute
        | error halt s =>
          rw [execute_of_error hexecute]
          exact .trapped hlook hrunning hdue hle hexecute

/-! ### Machines that can come about -/

/-- The machines that can come about, each at a time: a machine is built, with any choice among devices that want
service at the same time, something is done to it, or it is advanced at the time of its next tick. -/
inductive Reachable : Machine δ ω → Nat → Prop
  | build {config : Configuration} {m : Machine δ ω} {now : Nat} (choice : Nat → Nat)
    (h : Machine.build now config = .ok m) : Reachable (m.choosing choice) now
  | attach {m : Machine δ ω} {now : Nat} (a : DeviceAddress) (device : δ) (h : Reachable m now) :
    Reachable (m.attach now a device) now
  | loadImage {m : Machine δ ω} {now : Nat} (a : Word) (image : List Byte) (h : Reachable m now) :
    Reachable (m.loadImage a image).2 now
  | start {m : Machine δ ω} {now : Nat} (a : Word) (h : Reachable m now) : Reachable (m.start now a) now
  | boot {m : Machine δ ω} {now : Nat} (a : DeviceAddress) (h : Reachable m now) : Reachable (m.boot now a).2 now
  | requestInterrupt {m : Machine δ ω} {now : Nat} (level : Nat) (h : Reachable m now) :
    Reachable (m.requestInterrupt now level) now
  | tick {m m' : Machine δ ω} {now : Nat} (h : Reachable m now)
    (htick : Machine.tick (max now m.nextTick) m = .ok () m') : Reachable m' (max now m.nextTick)

end Concept32.Machine

/-! ### Ticks in turn -/

namespace Concept32.Run
variable {δ ω : Type} [Peripheral δ ω]

theorem advanceUntil_succ (done : Machine δ ω → Bool) (n : Nat) (r : Run δ ω) :
    r.advanceUntil done (n + 1) =
      if (r.advanceUntil done n).stop.isSome || done (r.advanceUntil done n).machine then r.advanceUntil done n
      else (r.advanceUntil done n).advance := by
  induction n generalizing r with
  | zero => rfl
  | succ n ih =>
    rw [advanceUntil]
    by_cases hstop : (r.stop.isSome || done r.machine) = true
    · have hsame : r.advanceUntil done (n + 1) = r := by rw [advanceUntil, if_pos hstop]
      rw [if_pos hstop, hsame, if_pos hstop]
    · have hnext : r.advanceUntil done (n + 1) = r.advance.advanceUntil done n := by rw [advanceUntil, if_neg hstop]
      rw [if_neg hstop, hnext]
      exact ih r.advance

theorem advance_eq (r : Run δ ω) : r.advance =
    match Machine.tick (max r.now r.machine.nextTick) r.machine with
    | .ok _ m => ⟨m, max r.now r.machine.nextTick, r.ticks + 1, none⟩
    | .error stop m => ⟨m, max r.now r.machine.nextTick, r.ticks + 1, some stop⟩ := rfl

theorem now_advance (r : Run δ ω) : r.advance.now = max r.now r.machine.nextTick := by
  rw [advance_eq]
  cases Machine.tick (max r.now r.machine.nextTick) r.machine <;> rfl

end Concept32.Run
