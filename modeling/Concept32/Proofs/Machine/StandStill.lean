import Concept32.Machine.Run
import Concept32.Proofs.Machine.Ticks
import Concept32.Proofs.Memory

/-!
# When time stands still

The machine is advanced at the time of its next tick. A tick that changes nothing and leaves the next tick due
at once is repeated for ever, and time stands still. This happens exactly when there is nothing to do and the
channels have something to present that nothing takes from them.
-/

namespace Concept32

namespace Channels
variable {δ ω : Type}

/-- Everything is as it was but what the devices have put out. -/
structure SameAs (c c' : Channels δ ω) : Prop where
  subchannels : c'.subchannels = c.subchannels
  real : c'.real = c.real
  schedule : c'.schedule = c.schedule
  loading : c'.loading = c.loading
  raised : c'.raised = c.raised

end Channels

namespace Machine
variable {δ ω : Type} {m m' : Machine δ ω} {now : Nat}

/-- The processor, memory, the channels and the time of the next instruction are as they were. -/
structure Unchanged (m m' : Machine δ ω) : Prop where
  cpu : m'.cpu = m.cpu
  memory : m'.memory = m.memory
  channels : m.channels.SameAs m'.channels
  instructionDue : m'.instructionDue = m.instructionDue

/-! ### The next poll -/

theorem nextPoll_le_iff {c c' : Channels δ ω} (h : c.schedule.NoneDue now) :
    nextPoll now c c' ≤ now ↔ c'.interruptPending = true := by
  rw [nextPoll]
  split
  · next hpending => simp [hpending]
  · next hpending =>
    refine ⟨fun hle => ?_, fun hp => absurd hp hpending⟩
    split at hle
    · next due hdue =>
      have := Schedule.noneDue_iff_next?.mp h due hdue
      omega
    · exact absurd hle (by rw [idlePollTime]; omega)

theorem nextTick_of_running {due : Nat} (hmode : m.mode = .running) (hdue : m.instructionDue = some due) :
    m.nextTick = min m.pollDue due := by
  rw [nextTick, hmode, hdue]

theorem pollDue_le_of_nextTick_le (hle : m.nextTick ≤ now)
    (hlate : m.mode = .running → ∃ due, m.instructionDue = some due ∧ now < due) : m.pollDue ≤ now := by
  rw [nextTick] at hle
  split at hle
  · next due hmode hdue =>
    obtain ⟨d, hd, hlt⟩ := hlate hmode
    cases hdue.symm.trans hd
    omega
  · exact hle

/-- A look for an interrupt that leaves the levels and the queues as they were found none to take. -/
theorem quiet_of_unchanged {s s' : Hardware δ ω} {taken : Bool} (hlook : Hardware.scanForInterrupt now s = .ok taken s')
    (hlevels : s'.core.cpu.levels = s.core.cpu.levels)
    (hqueue : ∀ n, (s'.channels.channel n).queue = (s.channels.channel n).queue) :
    taken = false ∧ s' = s ∧ s.Quiet := by
  rcases (Hardware.scanForInterrupt_inv hlook).2 with hfound | ⟨n, hless⟩ | ⟨level, hbefore, hafter⟩
  · exact hfound
  · rw [hqueue] at hless
    omega
  · rw [hlevels, hbefore] at hafter
    cases hafter

/-! ### Standing still -/

variable [Peripheral δ ω]

/-- A tick succeeds and changes nothing, the processor is not halted, and the next tick is due at once. -/
def StandsStill (m : Machine δ ω) (now : Nat) : Prop :=
  ∃ m', tick now m = .ok () m' ∧ Unchanged m m' ∧ m'.mode ≠ .halted ∧ m'.nextTick ≤ now

/-- Nothing is left to do at a time: the processor is not halted and its next instruction is due later, no
device is due, a scan of the programs changes nothing, and no interrupt can be taken. -/
structure Idle (m : Machine δ ω) (now : Nat) : Prop where
  awake : m.mode ≠ .halted
  instruction : m.mode = .running → ∃ due, m.instructionDue = some due ∧ now < due
  devices : m.channels.schedule.NoneDue now
  programs : ∃ c, m.channels.scan now m.memory = (none, c) ∧ m.channels.SameAs c
  interrupts : m.hardware.Quiet

/-! ### A tick that changes nothing -/

/-- A poll that ends the loading of the machine leaves a machine that is not being loaded, and so does the rest
of its tick. -/
theorem loading_of_tick {taken : Bool} {s : Hardware δ ω}
    (hlook : if m.mode = .halted then taken = false ∧ s = m.hardware
      else Hardware.scanForInterrupt now m.hardware = .ok taken s)
    (hact : if taken then m' = { m with hardware := s, instructionDue := some (now + Timing.interrupt) }
      else executeDue now { m with hardware := s } = .ok () m') : m'.channels.loading = m.channels.loading := by
  have hs : s.channels.loading = m.channels.loading := by
    split at hlook
    · rw [hlook.2]
      rfl
    · exact (Hardware.scanForInterrupt_inv hlook).1.loading
  split at hact
  · rw [hact]
    exact hs
  · rcases executeDue_inv hact with ⟨rfl, -⟩ | ⟨-, rfl⟩ | ⟨-, -, hloading⟩
    · exact hs
    · exact hs
    · exact hloading.trans hs

/-- A tick that changes nothing polls without ending a load, and executes no instruction. -/
theorem poll_of_unchanged (hsame : Unchanged m m') {m₁ : Machine δ ω} {taken : Bool}
    {s : Hardware δ ω} (hpoll : poll now m = .ok () m₁)
    (hlook : if m₁.mode = .halted then taken = false ∧ s = m₁.hardware
      else Hardware.scanForInterrupt now m₁.hardware = .ok taken s)
    (hact : if taken then m' = { m₁ with hardware := s, instructionDue := some (now + Timing.interrupt) }
      else executeDue now { m₁ with hardware := s } = .ok () m') :
    ∃ c mem c', m.channels.poll now m.memory = (c, mem) ∧ c.scan now mem = (none, c') ∧
      m₁ = ⟨m.config, ⟨⟨m.cpu, mem⟩, c'⟩, m.instructionDue, nextPoll now c c', m.executed⟩ := by
  generalize hserviced : m.channels.poll now m.memory = serviced
  obtain ⟨c, mem⟩ := serviced
  generalize hscan : c.scan now mem = scanned
  obtain ⟨progress, c'⟩ := scanned
  obtain ⟨⟨hchannels, -⟩, hm₁⟩ := poll_inv hserviced hscan hpoll
  rcases (Channels.scan_inv hscan).2 with ⟨rfl, -⟩ | ⟨-, hloading, hgone⟩
  · exact ⟨c, mem, c', rfl, hscan, hm₁ rfl⟩
  · have hkept : c.loading = m.channels.loading := by
      rw [← show (m.channels.poll now m.memory).1 = c by rw [hserviced]]
      exact Channels.loading_pollUpTo
    have hend := loading_of_tick hlook hact
    rw [hchannels, hgone, hsame.channels.loading, ← hkept] at hend
    rw [hend] at hloading
    cases hloading

/-- A tick that changes nothing executes no instruction; what the look for an interrupt left is what it leaves. -/
theorem act_of_unchanged {taken : Bool} {s : Hardware δ ω}
    (hdue : m'.instructionDue = m.instructionDue)
    (hact : if taken then m' = { m with hardware := s, instructionDue := some (now + Timing.interrupt) }
      else executeDue now { m with hardware := s } = .ok () m') :
    m'.hardware = s ∧ m'.pollDue = m.pollDue ∧
      (m'.mode = .running → ∃ due, m'.instructionDue = some due ∧ now < due) := by
  split at hact
  · subst hact
    have hlong : 0 < Timing.interrupt := by decide
    exact ⟨rfl, rfl, fun _ => ⟨_, rfl, by omega⟩⟩
  · rcases executeDue_inv hact with ⟨rfl, hidle⟩ | ⟨hnone, rfl⟩ | ⟨⟨due, hle, hd⟩, hlate, -⟩
    · exact ⟨rfl, rfl, hidle⟩
    · exact absurd (hdue.trans hnone) (by simp)
    · have := hlate due (hdue.trans hd)
      omega

/-- Nothing was due at a tick that changes nothing: it would have been serviced, and nothing in the tick makes it
due again. -/
theorem noneDue_of_unchanged (hlater : Peripheral.AsksLater δ) {c c' : Channels δ ω} {mem : Memory}
    {progress : Option LoadProgress} (hserviced : m.channels.poll now m.memory = (c, mem))
    (hscan : c.scan now mem = (progress, c')) (hschedule : m.channels.schedule = c'.schedule) :
    m.channels.schedule.NoneDue now := by
  have hafter : c.schedule.NoneDue now := by
    rw [← show (m.channels.poll now m.memory).1 = c by rw [hserviced]]
    exact Channels.noneDue_poll hlater
  rw [hschedule]
  exact (Channels.scan_inv hscan).1 hlater hafter

/-- With nothing to do and something to present, a tick only finds that the channels are to be looked at again. -/
theorem Idle.standsStill (hidle : m.Idle now) (hdue : m.pollDue ≤ now) (hpending : m.channels.interruptPending = true) :
    m.StandsStill now := by
  obtain ⟨c, hscan, hsame⟩ := hidle.programs
  have hpoll := poll_of_scan_none (Channels.poll_of_noneDue hidle.devices) hscan
  have hquiet : Hardware.Quiet ⟨⟨m.cpu, m.memory⟩, c⟩ :=
    Hardware.quiet_congr (s := m.hardware) rfl hsame.real hidle.interrupts
  have hpresent : c.interruptPending = true := by
    rw [Channels.interruptPending, hsame.raised, hsame.real]
    exact hpending
  let m' : Machine δ ω :=
    ⟨m.config, ⟨⟨m.cpu, m.memory⟩, c⟩, m.instructionDue, nextPoll now m.channels c, m.executed⟩
  refine ⟨m', tick_eq_ok.mpr ⟨m', false, m'.hardware, ?_, ?_, executeDue_of_later hidle.instruction⟩,
    ⟨rfl, rfl, hsame, rfl⟩, hidle.awake, ?_⟩
  · rw [if_pos hdue]
    exact hpoll
  · rw [if_neg (show ¬m'.mode = .halted from hidle.awake)]
    exact Hardware.scanForInterrupt_of_quiet hquiet
  · have hle : m'.pollDue ≤ now := (nextPoll_le_iff hidle.devices).mpr hpresent
    rw [nextTick]
    split
    · exact Nat.le_trans (Nat.min_le_left _ _) hle
    · exact hle

end Machine

/-! ### A machine whose time stands still -/

/-- A device that ends every command on the channel at once and never ends one itself. -/
inductive SilentDevice
  | silent

namespace SilentDevice
open EStateM Machine

instance : Peripheral SilentDevice Unit where
  name _ := "silent"
  reset d _ _ := .only d ()
  startCommand d _ _ := .only d (.done .channelEnd)
  service d _ := .done (d, none)

theorem asksLater : Peripheral.AsksLater SilentDevice where
  startCommand _ _ _ _ h := by cases h
  service _ _ := fun _ h => by cases h

def address : DeviceAddress := ⟨0x1000#15⟩

/-! The bootstrap is in memory twice over, from the building of the machine and from the program load. -/

def memory : Memory :=
  ((Memory.ofSize .k128).after (Memory.writePair 0 bootstrap.1 bootstrap.2)).after
    (Memory.writePair 0 bootstrap.1 bootstrap.2)

theorem words_memory : memory.words.size = 0x8000 ∧ memory.wordAt 0 = 0x02000000#32 ∧
    memory.wordAt 1 = 0x60000018#32 := by
  have hsize : (Memory.ofSize .k128).words.size = 0x8000 := Array.size_replicate
  have hpair : ∀ {m : Memory}, m.words.size = 0x8000 → m.after (Memory.writePair 0 bootstrap.1 bootstrap.2) =
      (m.update 0 fun _ => bootstrap.1).update 1 fun _ => bootstrap.2 := fun h =>
    Memory.after_writePair (by decide) (by decide) (by rw [h]; decide)
  rw [memory, hpair hsize, hpair (by simp [hsize])]
  simp [Memory.wordAt_update, hsize, bootstrap]

/-- What the bootstrap needs of memory. -/
structure Bootstrapped (mem : Memory) : Prop where
  size : mem.sizeBytes = 0x20000
  first : mem.readWord 0 = .ok 0x02000000#32
  second : mem.readWord 4 = .ok 0x60000018#32

theorem bootstrapped_memory : Bootstrapped memory := by
  obtain ⟨hsize, h₀, h₁⟩ := words_memory
  exact ⟨by rw [Memory.sizeBytes, hsize],
    Memory.readWord_eq_ok.mpr ⟨by decide, by rw [hsize]; decide, h₀.symm⟩,
    Memory.readWord_eq_ok.mpr ⟨by decide, by rw [hsize]; decide, h₁.symm⟩⟩

section
variable {mem : Memory}

/-! The bootstrap's first doubleword chains commands, and the device ends its command at once. -/

def begun : ChannelProgram :=
  { Channels.started address 0 with
    next := 8, count := 24, flags := ⟨0x6000⟩, command := some 2#8, phase := .active }

theorem listWord_of_readWord (a : Address) {w : Word} (h : mem.readWord (wordBoundary (a.setWidth 32)) = .ok w)
    (p : ChannelProgram) : ChannelProgram.listWord mem a p = .ok w p := by
  rw [ChannelProgram.listWord, h]
  rfl

theorem fetch_started (h : Bootstrapped mem) :
    (Channels.started address 0).fetch mem false = .ok (some 2#8) begun := by
  have hlist := listWord_of_readWord 0 h.first
  have hfirst : ChannelProgram.firstWord mem false (Channels.started address 0) =
      .ok 0x02000000#32 (Channels.started address 0) :=
    (bind_of_ok rfl).trans ((bind_of_ok rfl).trans ((bind_of_ok rfl).trans (bind_of_ok (hlist _))))
  refine (bind_of_ok hfirst).trans ((bind_of_ok rfl).trans ((bind_of_ok rfl).trans ((bind_of_ok rfl).trans ?_)))
  exact bind_of_ok (listWord_of_readWord 4 h.second _)

def channels : Channels SilentDevice Unit where
  subchannels := Table.empty.set address.bits
    ⟨.silent, { begun with command := none, status := .channelEnd, phase := .newCommand }⟩
  real := Table.empty.set address.channel .idle
  schedule := .empty
  loading := some address
  raised := true
  output := #[]

def cpu : Cpu :=
  { Cpu.reset (Cpu.initial .c3227 0) with psd := Psd.initial.withAddress 4, mode := .running }

theorem boot_channels (h : Bootstrapped mem) :
    (((Channels.reset .empty 0).attach 0 address .silent).reset 0).boot 0 mem address = (.ok (), channels) := by
  rw [Channels.boot, if_neg (by decide), if_neg (by decide)]
  dsimp only
  rw [Channels.continueProgram, show Channels.program? _ address = some (Channels.started address 0) from rfl]
  dsimp only
  rw [fetch_started h]
  rfl

theorem boot_eq (config : Configuration) {cpu : Cpu} {instructionDue : Option Nat} {pollDue executed : Nat}
    (hmem : mem.after (Memory.writePair 0 bootstrap.1 bootstrap.2) = memory) :
    (Machine.boot ⟨config, ⟨⟨cpu, mem⟩, (Channels.reset .empty 0).attach 0 address .silent⟩, instructionDue, pollDue,
        executed⟩ 0 address).2 =
      ⟨config, ⟨⟨cpu.reset, memory⟩, channels⟩, none, 0, executed⟩ := by
  rw [Machine.boot, Machine.reset]
  dsimp only
  rw [hmem, boot_channels bootstrapped_memory]

/-- The machine while it is being loaded from the device, set to run at the second word of the bootstrap. -/
def started : Machine SilentDevice Unit := ⟨⟨.c3227, .k128, 0⟩, ⟨⟨cpu, memory⟩, channels⟩, some 0, 0, 0⟩

/-- The same with any memory that holds the bootstrap. -/
def loaded (mem : Memory) : Machine SilentDevice Unit := ⟨⟨.c3227, .k128, 0⟩, ⟨⟨cpu, mem⟩, channels⟩, some 0, 0, 0⟩

theorem started_eq : started = loaded memory := rfl

theorem reachable_started : started.Reachable 0 := by
  let bare : Machine SilentDevice Unit := ⟨⟨.c3227, .k128, 0⟩, .initial ⟨.c3227, .k128, 0⟩, none, 0, 0⟩
  have hbuild : Machine.build 0 ⟨.c3227, .k128, 0⟩ = .ok (bare.reset 0) := rfl
  have hbuilt : (bare.reset 0).Reachable 0 := Reachable.build (fun _ => 0) hbuild
  have hstart := ((hbuilt.attach address .silent).boot address).start 4
  rw [Machine.reset, Machine.attach] at hstart
  dsimp only [bare, Hardware.initial] at hstart
  rw [boot_eq ⟨.c3227, .k128, 0⟩ rfl] at hstart
  exact hstart

/-! One instruction is executed, which does not reach memory or the channels. -/

theorem fetch_cpu (h : Bootstrapped mem) : Hardware.fetch ⟨cpu, mem⟩ = .ok (⟨0x60000000#32⟩, 6) ⟨cpu, mem⟩ := by
  have htranslate : Exec.translate 4 .execute ⟨cpu, mem⟩ = .ok 4 ⟨cpu, mem⟩ := by
    have hmap : cpu.map.translate 4 .execute cpu.psd.mapped cpu.psd.privileged mem.sizeBytes = .ok 4 := by
      rw [h.size]
      decide
    rw [Exec.translate]
    dsimp only
    rw [hmap]
  have hread : Exec.readWord (wordBoundary cpu.psd.address) .execute ⟨cpu, mem⟩ =
      .ok 0x60000018#32 ⟨cpu, mem⟩ := by
    rw [show wordBoundary cpu.psd.address = 4 from by decide, Exec.readWord]
    refine (bind_of_ok rfl).trans ((bind_of_ok htranslate).trans ?_)
    rw [Exec.fromMemory]
    dsimp only
    rw [h.second]
  refine (bind_of_ok rfl).trans ((bind_of_ok hread).trans ?_)
  dsimp only
  rw [if_neg (by decide), if_neg (by decide)]
  rfl

theorem dispatch_cpu : ∃ after : Cpu,
    (after.mode = .running ∧ after.scratchpad = .empty ∧ after.indirections = 0) ∧
      Hardware.dispatch 0 ⟨0x60000000#32⟩ 6 ⟨⟨cpu, mem⟩, channels⟩ = .ok .next ⟨⟨after, mem⟩, channels⟩ := by
  have hopcode : (⟨0x60000000#32⟩ : Instruction).opcode? false = some .nor := by decide
  have hbased : Hardware.onCore Exec.based ⟨⟨cpu, mem⟩, channels⟩ =
      (.ok false ⟨⟨cpu, mem⟩, channels⟩ : EStateM.Result Trap (Hardware SilentDevice Unit) Bool) :=
    congrArg (EStateM.Result.ok · _) (show cpu.psd.based = false by decide)
  rw [Hardware.dispatch, if_neg (by decide), Hardware.perform, bind_of_ok hbased, hopcode]
  exact ⟨_, ⟨rfl, rfl, rfl⟩, rfl⟩

theorem execute_cpu (h : Bootstrapped mem) : ∃ after : Cpu, after.mode = .running ∧ after.scratchpad = .empty ∧
    Hardware.executeInstruction 0 ⟨⟨cpu, mem⟩, channels⟩ = .ok 300 ⟨⟨after, mem⟩, channels⟩ := by
  obtain ⟨after, ⟨hmode, hscratchpad, hindirections⟩, hdispatch⟩ := @dispatch_cpu mem
  have hduration : Timing.instruction ⟨0x60000000#32⟩ cpu.psd.based after.indirections = 300 := by
    rw [hindirections]
    decide
  rw [Hardware.executeInstruction]
  dsimp only
  rw [show ({ cpu with indirections := 0 } : Cpu) = cpu from rfl, fetch_cpu h]
  dsimp only
  rw [hdispatch]
  exact ⟨Hardware.remember cpu.psd ⟨0x60000000#32⟩ (Hardware.proceed .next 6 after), hmode, hscratchpad,
    congrArg (EStateM.Result.ok · _) hduration⟩

theorem quiet_of_empty {s : Hardware SilentDevice Unit} (h : s.core.cpu.scratchpad = .empty) : s.Quiet :=
  .inr fun level hlt ⟨hconfigured, _⟩ => by
    rw [h] at hconfigured
    simp [Scratchpad.levelEntry, Scratchpad.get, Scratchpad.empty, ConfigurationEntry.isConfigured,
      Vector.get] at hconfigured

theorem scan_channels : channels.scan 0 mem = (none, channels) := rfl

theorem noneDue_channels : channels.schedule.NoneDue 0 := fun _ h => by cases h

theorem execute_loaded {after : Cpu} (hmode : after.mode = .running)
    (h : Hardware.executeInstruction 0 ⟨⟨cpu, mem⟩, channels⟩ = .ok 300 ⟨⟨after, mem⟩, channels⟩) :
    executeDue 0 (loaded mem) = .ok () ⟨⟨.c3227, .k128, 0⟩, ⟨⟨after, mem⟩, channels⟩, some 300, 0, 1⟩ := by
  have hrest : execute 0 0 (loaded mem) = .ok () ⟨⟨.c3227, .k128, 0⟩, ⟨⟨after, mem⟩, channels⟩, some 300, 0, 1⟩ := by
    refine bind_eq_ok.mpr ⟨_, _, rfl, bind_eq_ok.mpr ⟨_, _, onHardware_eq_ok.mpr ⟨_, h, rfl⟩, ?_⟩⟩
    refine bind_eq_ok.mpr ⟨_, _, rfl, bind_eq_ok.mpr ⟨_, _, rfl, ?_⟩⟩
    show (if after.mode = .running then _ else _ : Action SilentDevice Unit Unit) _ = _
    rw [if_pos hmode]
    exact bind_eq_ok.mpr ⟨_, _, rfl, bind_eq_ok.mpr ⟨none, _, rfl, pollIfPending_eq⟩⟩
  exact bind_eq_ok.mpr ⟨_, _, rfl, bind_eq_ok.mpr ⟨_, _, rfl, hrest⟩⟩

theorem tick_loaded (h : Bootstrapped mem) : ∃ after : Cpu, after.mode = .running ∧ after.scratchpad = .empty ∧
    tick 0 (loaded mem) = .ok () ⟨⟨.c3227, .k128, 0⟩, ⟨⟨after, mem⟩, channels⟩, some 300, 0, 1⟩ := by
  obtain ⟨after, hmode, hscratchpad, hexecute⟩ := execute_cpu h
  refine ⟨after, hmode, hscratchpad, tick_eq_ok.mpr ⟨loaded mem, false, (loaded mem).hardware, ?_, ?_, ?_⟩⟩
  · have hpoll : (loaded mem).channels.poll 0 (loaded mem).memory = (channels, mem) :=
      Channels.poll_of_noneDue noneDue_channels
    rw [if_pos (show (loaded mem).pollDue ≤ 0 from Nat.le_refl 0)]
    exact poll_of_scan_none hpoll scan_channels
  · have hscratchpad : cpu.scratchpad = .empty := rfl
    have hmode : (loaded mem).mode = .running := rfl
    rw [hmode, if_neg (by decide)]
    exact Hardware.scanForInterrupt_of_quiet (quiet_of_empty hscratchpad)
  · exact execute_loaded hmode hexecute

theorem standsStill_loaded {after : Cpu} (hmode : after.mode = .running) (hscratchpad : after.scratchpad = .empty) :
    StandsStill ⟨⟨.c3227, .k128, 0⟩, ⟨⟨after, mem⟩, channels⟩, some 300, 0, 1⟩ 0 := by
  refine Idle.standsStill ⟨?_, fun _ => ⟨300, rfl, show 0 < 300 by decide⟩, noneDue_channels, ⟨channels, scan_channels, ?_⟩, ?_⟩
    (Nat.le_refl 0) rfl
  · show after.mode ≠ .halted
    rw [hmode]
    decide
  · exact ⟨rfl, rfl, rfl, rfl, rfl⟩
  · exact quiet_of_empty hscratchpad

end

/-- The machine after its first tick. -/
def stalled : Run SilentDevice Unit := (Run.begin started 0).advance

theorem nextTick_loaded : max 0 (loaded memory).nextTick = 0 := by decide

theorem stalled_eq : ∃ after : Cpu, after.mode = .running ∧ after.scratchpad = .empty ∧
    stalled = ⟨⟨⟨.c3227, .k128, 0⟩, ⟨⟨after, memory⟩, channels⟩, some 300, 0, 1⟩, 0, 1, none⟩ := by
  obtain ⟨after, hmode, hscratchpad, htick⟩ := tick_loaded bootstrapped_memory
  refine ⟨after, hmode, hscratchpad, ?_⟩
  rw [stalled, started_eq, Run.begin, Run.advance, nextTick_loaded, htick]

theorem reachable_stalled : stalled.machine.Reachable stalled.now := by
  obtain ⟨after, -, -, htick⟩ := tick_loaded bootstrapped_memory
  have hreachable := reachable_started.tick (by rw [started_eq, nextTick_loaded]; exact htick)
  rw [started_eq, nextTick_loaded] at hreachable
  rw [stalled, started_eq, Run.begin, Run.advance, nextTick_loaded, htick]
  exact hreachable

theorem standsStill_stalled : stalled.machine.StandsStill stalled.now := by
  obtain ⟨after, hmode, hscratchpad, heq⟩ := stalled_eq
  rw [heq]
  exact standsStill_loaded hmode hscratchpad

theorem nextTick_stalled : max stalled.now stalled.machine.nextTick = stalled.now := by
  obtain ⟨after, hmode, -, heq⟩ := stalled_eq
  have hrunning : stalled.machine.mode = .running := by
    rw [heq]
    exact hmode
  rw [nextTick_of_running hrunning (by rw [heq]), heq]
  rfl

end SilentDevice

/-! ### When time stands still -/

namespace Machine
variable {δ ω : Type} [Peripheral δ ω] {m : Machine δ ω} {now : Nat}

/-- Time stands still exactly when the channels are looked at, there is nothing to do, and the channels have
something to present: status is queued that no level takes, or a program waits for its device to end a command
before it goes on to the next. -/
theorem standsStill_iff (hlater : Peripheral.AsksLater δ) :
    m.StandsStill now ↔ m.Idle now ∧ m.pollDue ≤ now ∧
      ((∃ n, (m.channels.channel n).queue ≠ []) ∨
        (m.channels.raised = true ∧ ∃ a, m.channels.AwaitsDevice a)) := by
  constructor
  · rintro ⟨m', htick, hsame, hawake, hnext⟩
    obtain ⟨m₁, taken, s, hpoll, hlook, hact⟩ := tick_eq_ok.mp htick
    have hmode : m'.mode = m.mode := congrArg Cpu.mode hsame.cpu
    split at hpoll
    · next hdue =>
      obtain ⟨c, mem, c', hserviced, hscan, hm₁⟩ := poll_of_unchanged hsame hpoll hlook hact
      have hsameDue : m'.instructionDue = m₁.instructionDue := by rw [hsame.instructionDue, hm₁]
      obtain ⟨hs, hpollDue, hlate⟩ := act_of_unchanged hsameDue hact
      have hawake₁ : m₁.mode ≠ .halted := by rw [hm₁]; exact fun h => hawake (hmode.trans h)
      rw [if_neg hawake₁] at hlook
      have hdrains : Hardware.Drains c' m'.channels := by
        have hdrains := (Hardware.scanForInterrupt_inv hlook).1
        rw [hm₁, ← hs] at hdrains
        exact hdrains
      have hnone : m.channels.schedule.NoneDue now :=
        noneDue_of_unchanged hlater hserviced hscan (hsame.channels.schedule.symm.trans hdrains.schedule)
      cases (Channels.poll_of_noneDue hnone).symm.trans hserviced
      obtain ⟨hqueues, hraised⟩ := Channels.queues_scan hlater hscan
        (hdrains.subchannels.symm.trans hsame.channels.subchannels)
      have hqueue : ∀ n, (m'.channels.channel n).queue = (c'.channel n).queue := fun n => by
        rw [hqueues.queue n, Channels.channel, hsame.channels.real]
        rfl
      obtain ⟨rfl, hs₁, hquiet⟩ := quiet_of_unchanged hlook
        (by rw [← hs, hm₁]; exact congrArg Cpu.levels hsame.cpu) (by rw [← hs, hm₁]; exact hqueue)
      have hc' : m'.channels = c' := by rw [channels, hs, hs₁, hm₁]
      have hpending : c'.interruptPending = true := by
        have hle := pollDue_le_of_nextTick_le hnext hlate
        rw [hpollDue, hm₁] at hle
        exact (nextPoll_le_iff hnone).mp hle
      have hsame' : m.channels.SameAs c' := hc' ▸ hsame.channels
      refine ⟨⟨fun h => hawake (hmode.trans h), fun hrunning => ?_, hnone, ⟨c', hscan, hsame'⟩, ?_⟩, hdue, ?_⟩
      · obtain ⟨due, hd, hlt⟩ := hlate (hmode.trans hrunning)
        exact ⟨due, hsame.instructionDue.symm.trans hd, hlt⟩
      · exact Hardware.quiet_congr (by rw [hm₁]; rfl) (by rw [hm₁]; exact hsame'.real.symm) hquiet
      · rcases Channels.interruptPending_iff.mp hpending with hr | ⟨n, hn⟩
        · exact .inr (hraised hr)
        · exact .inl ⟨n, hqueues.queue n ▸ hn⟩
    · next hdue =>
      subst hpoll
      obtain ⟨-, hpollDue, hlate⟩ := act_of_unchanged hsame.instructionDue hact
      have := pollDue_le_of_nextTick_le hnext hlate
      omega
  · rintro ⟨hidle, hdue, hpending⟩
    refine hidle.standsStill hdue (Channels.interruptPending_iff.mpr ?_)
    rcases hpending with hqueue | ⟨hr, -⟩
    · exact .inr hqueue
    · exact .inl hr

theorem standsStill_iff_stalled : Peripheral.AsksLater SilentDevice ∧
    SilentDevice.stalled.machine.Idle SilentDevice.stalled.now ∧
    SilentDevice.stalled.machine.pollDue ≤ SilentDevice.stalled.now ∧
    ((∃ n, (SilentDevice.stalled.machine.channels.channel n).queue ≠ []) ∨
      (SilentDevice.stalled.machine.channels.raised = true ∧
        ∃ a, SilentDevice.stalled.machine.channels.AwaitsDevice a)) :=
  ⟨SilentDevice.asksLater, (standsStill_iff SilentDevice.asksLater).mp SilentDevice.standsStill_stalled⟩

/-- Time does stand still for a machine that can come about: the device has ended its command on the channel and not
itself, so the channels are looked at again and again and the next instruction is never reached. -/
theorem exists_reachable_standsStill : Peripheral.AsksLater SilentDevice ∧
    SilentDevice.stalled.machine.Reachable SilentDevice.stalled.now ∧
    SilentDevice.stalled.machine.StandsStill
      (max SilentDevice.stalled.now SilentDevice.stalled.machine.nextTick) := by
  refine ⟨SilentDevice.asksLater, SilentDevice.reachable_stalled, ?_⟩
  rw [SilentDevice.nextTick_stalled]
  exact SilentDevice.standsStill_stalled

end Machine
end Concept32
