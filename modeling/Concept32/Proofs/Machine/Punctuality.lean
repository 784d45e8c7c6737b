import Concept32.Machine.Run
import Concept32.Proofs.Channels.Appointments
import Concept32.Proofs.Hardware.Halting
import Concept32.Proofs.Machine.StandStill

/-!
# Devices are serviced at their times

The channels are looked at no later than a device is scheduled for. A scan and an instruction may schedule a device
after that time has been set, and it is brought forward: by the signal that a scan leaves raised when a chain has gone
on, and by the schedule itself after an instruction. A poll that stops the machine does not bring it forward. A machine
that is advanced at the time of its next tick therefore services a device only when its time has come, unless time
stands still before that.
-/

namespace Concept32
open EStateM

namespace Channels
variable {δ ω : Type} {c : Channels δ ω} {a : DeviceAddress} {due : Nat}

theorem nextService?_le (htime : c.schedule.time? a = some due) : ∃ next ≤ due, c.nextService? = some next := by
  have hmem := Schedule.time?_eq_some_iff.mp htime
  obtain ⟨e, hearliest⟩ := Schedule.exists_earliest (List.ne_nil_of_mem hmem)
  exact ⟨e.2, hearliest.2 _ hmem, Schedule.next?_eq_some_iff.mpr ⟨e.1, hearliest⟩⟩

end Channels

namespace Hardware
variable {δ ω : Type} [Peripheral δ ω] {now : Nat}

theorem instructs_appoints : Instructs now (@Channels.Appoints δ ω now) where
  startIo _ _ _ _ := Channels.appoints_startIo
  testIo _ _ _ _ := Channels.appoints_of_eq Channels.schedule_testIo
  stopIo _ _ := Channels.appoints_of_eq Channels.schedule_stopIo
  haltIo _ _ := Channels.appoints_of_eq Channels.schedule_haltIo
  resetChannel _ _ := Channels.appoints_resetChannel
  resetController c a := Channels.appoints_of_eq (by rw [Channels.resetController, Channels.resetDevice]; split <;> rfl)
  testDevice c a command := Channels.appoints_of_eq (by rw [Channels.testDevice]; split <;> rfl)
  commandDevice c a command := Channels.appoints_of_eq (by rw [Channels.commandDevice]; split <;> rfl)

end Hardware

namespace Machine
variable {δ ω : Type} {m m' : Machine δ ω} {now later due : Nat} {a : DeviceAddress} {stop : MachineStop}

/-! ### Looking in time -/

/-- The channels are looked at no later than any device is scheduled for. -/
def Timely (m : Machine δ ω) (now : Nat) : Prop :=
  ∀ a due, m.channels.schedule.time? a = some due → m.pollDue ≤ max now due

theorem timely_of_pollDue_le (h : m.pollDue ≤ now) : m.Timely now := fun _ _ _ =>
  Nat.le_trans h (Nat.le_max_left _ _)

theorem Timely.mono (h : m.Timely now) (hle : now ≤ later) : m.Timely later := fun a due htime =>
  Nat.le_trans (h a due htime) (by omega)

theorem Timely.congr (h : m.Timely now) (hschedule : m'.channels.schedule = m.channels.schedule)
    (hdue : m'.pollDue ≤ m.pollDue) : m'.Timely now := fun a due htime =>
  Nat.le_trans hdue (h a due (hschedule ▸ htime))

theorem nextTick_le_pollDue : m.nextTick ≤ m.pollDue := by
  rw [nextTick]
  split
  · exact Nat.min_le_left _ _
  · exact Nat.le_refl _

theorem servicePoll_le {c : Channels δ ω} (htime : c.schedule.time? a = some due) :
    servicePoll now c ≤ max now due := by
  obtain ⟨next, hle, hnext⟩ := Channels.nextService?_le htime
  rw [servicePoll, hnext]
  dsimp only
  omega

/-- After an instruction the channels are looked at in time, whatever it has scheduled. -/
theorem advancedPoll_le {c : Channels δ ω} {pollDue : Nat} (htime : c.schedule.time? a = some due) :
    advancedPoll now c pollDue ≤ max now due := by
  obtain ⟨next, hle, hnext⟩ := Channels.nextService?_le htime
  rw [advancedPoll, hnext]
  dsimp only
  split <;> omega

/-- The next tick comes no later than any device is scheduled for. -/
theorem nextTick_le (ht : m.Timely now) (hnot : m.channels.NotOverdue now)
    (htime : m.channels.schedule.time? a = some due) :
    max now m.nextTick ≤ due := by
  have hle : now ≤ due := hnot _ (Schedule.time?_eq_some_iff.mp htime)
  have hpoll := Nat.le_trans nextTick_le_pollDue (ht a due htime)
  omega

theorem notOverdue_nextTick (ht : m.Timely now) (hnot : m.channels.NotOverdue now) :
    m.channels.NotOverdue (max now m.nextTick) := fun _ he => nextTick_le ht hnot (Schedule.time?_eq_some_iff.mpr he)

variable [Peripheral δ ω]

/-- A poll that succeeds has the channels looked at in time. -/
theorem timely_poll (h : poll now m = .ok () m') : m'.Timely now ∧ Channels.Appoints now m.channels m'.channels := by
  generalize hpoll : m.channels.poll now m.memory = polled
  obtain ⟨c, mem⟩ := polled
  generalize hscan : c.scan now mem = scanned
  obtain ⟨progress, c'⟩ := scanned
  obtain ⟨⟨hchannels, hdue⟩, -⟩ := poll_inv hpoll hscan h
  obtain ⟨happoints, hquiet⟩ := Channels.scan_appoints hscan
  have hserviced : Channels.Appoints now m.channels c := by
    rw [← show (m.channels.poll now m.memory).1 = c by rw [hpoll]]
    exact Channels.appoints_pollUpTo
  refine ⟨fun a due htime => ?_, hchannels ▸ hserviced.trans happoints⟩
  rw [hdue, nextPoll]
  -- If the scan has scheduled a device then the signal is raised, and the channels are looked at at once.
  split
  · exact Nat.le_max_left _ _
  · next hpending =>
    have hraised : c'.raised = false := by
      rw [Channels.interruptPending, Bool.or_eq_true, not_or] at hpending
      exact Bool.eq_false_iff.mpr hpending.1
    rw [hchannels, hquiet hraised] at htime
    exact servicePoll_le htime

/-- So has a poll that fails, if it does not leave the signal raised. -/
theorem timely_poll_error (h : poll now m = .error stop m') (hraised : m'.channels.raised = false) : m'.Timely now := by
  generalize hpoll : m.channels.poll now m.memory = polled
  obtain ⟨c, mem⟩ := polled
  generalize hscan : c.scan now mem = scanned
  obtain ⟨progress, c'⟩ := scanned
  obtain ⟨-, hchannels, hdue⟩ := poll_eq_error hpoll hscan h
  rw [hchannels] at hraised
  intro a due htime
  rw [hchannels, (Channels.scan_appoints hscan).2 hraised] at htime
  rw [hdue]
  exact servicePoll_le htime

/-- The tick fails in a poll that leaves the signal raised: a scan may have scheduled a device before it came to the
one whose load has ended. -/
def LosesSignal (m : Machine δ ω) (now : Nat) : Prop :=
  m.pollDue ≤ now ∧ ∃ stop m', poll now m = .error stop m' ∧ m'.channels.raised = true

theorem timely_polled {m₁ : Machine δ ω} (ht : m.Timely now)
    (h : (if m.pollDue ≤ now then poll now m else .ok () m) = .ok () m₁) :
    m₁.Timely now ∧ Channels.Appoints now m.channels m₁.channels := by
  split at h
  · exact timely_poll h
  · cases h
    exact ⟨ht, Std.Refl.refl _⟩

theorem timely_look {taken : Bool} (ht : m.Timely now) (h : look now m = .ok taken m') :
    m'.Timely now ∧ Channels.Appoints now m.channels m'.channels := by
  rw [look_eq] at h
  cases hpolled : (if m.pollDue ≤ now then poll now m else .ok () m) with
  | error stop m₁ =>
    rw [hpolled] at h
    cases h
  | ok _ m₁ =>
    obtain ⟨ht₁, happoints⟩ := timely_polled ht hpolled
    rw [hpolled] at h
    dsimp only at h
    by_cases hhalted : m₁.mode = .halted
    · rw [if_pos hhalted] at h
      cases h
      exact ⟨ht₁, happoints⟩
    · rw [if_neg hhalted] at h
      obtain ⟨s, hs, rfl⟩ := onHardware_eq_ok.mp h
      have hsame : s.channels.schedule = m₁.channels.schedule :=
        (Hardware.found_scanForInterrupt.ok hs).channels.schedule
      exact ⟨ht₁.congr hsame (Nat.le_refl _), happoints.trans (Channels.appoints_of_eq hsame)⟩

theorem timely_look_error (ht : m.Timely now) (h : look now m = .error stop m') (hkept : ¬m.LosesSignal now) :
    m'.Timely now := by
  rw [look_eq] at h
  cases hpolled : (if m.pollDue ≤ now then poll now m else .ok () m) with
  | error stop m₁ =>
    rw [hpolled] at h
    cases h
    split at hpolled
    · next hdue =>
      exact timely_poll_error hpolled (Bool.eq_false_iff.mpr fun hraised => hkept ⟨hdue, _, _, hpolled, hraised⟩)
    · cases hpolled
  | ok _ m₁ =>
    obtain ⟨ht₁, -⟩ := timely_polled ht hpolled
    rw [hpolled] at h
    dsimp only at h
    by_cases hhalted : m₁.mode = .halted
    · rw [if_pos hhalted] at h
      cases h
    · rw [if_neg hhalted] at h
      obtain ⟨halt, s, hs, -, rfl⟩ := onHardware_eq_error.mp h
      exact ht₁.congr (Hardware.found_scanForInterrupt.error hs).channels.schedule (Nat.le_refl _)

/-- A tick that succeeds has the channels looked at in time. -/
theorem timely_tick (ht : m.Timely now) (h : tick now m = .ok () m') :
    m'.Timely now ∧ Channels.Appoints now m.channels m'.channels := by
  have houtcome := outcome_tick now m
  rw [h] at houtcome
  clear h
  cases houtcome with
  | interrupted h | resumed h | idle h =>
    have hlook := timely_look ht h
    exact hlook
  | executed h _ _ _ hexecute =>
    refine ⟨fun a due htime => advancedPoll_le htime, (timely_look ht h).2.trans ?_⟩
    exact Hardware.related_executeInstruction Hardware.instructs_appoints hexecute

theorem timely_tick_error (ht : m.Timely now) (h : tick now m = .error stop m') (hkept : ¬m.LosesSignal now) :
    m'.Timely now := by
  have houtcome := outcome_tick now m
  rw [h] at houtcome
  clear h
  cases houtcome with
  | stopped h => exact timely_look_error ht h hkept
  | trapped h _ _ _ hexecute =>
    refine (timely_look ht h).1.congr ?_ (Nat.le_refl _)
    exact congrArg Channels.schedule (Hardware.executeInstruction_eq_error hexecute).2

/-! ### Machines that are driven -/

/-- The machines that come about when one is built, with any choice among devices that want service at the same time, and
then called at times that do not decrease, each with the time of the last call. A tick may fail, but not in a poll that
leaves the signal raised. -/
inductive Driven : Machine δ ω → Nat → Prop
  | build {config : Configuration} {m : Machine δ ω} {now : Nat} (choice : Nat → Nat)
    (h : Machine.build now config = .ok m) : Driven (m.choosing choice) now
  | wait {m : Machine δ ω} {now later : Nat} (h : Driven m now) (hle : now ≤ later) : Driven m later
  | attach {m : Machine δ ω} {now : Nat} (a : DeviceAddress) (device : δ) (h : Driven m now) :
    Driven (m.attach now a device) now
  | loadImage {m : Machine δ ω} {now : Nat} (a : Word) (image : List Byte) (h : Driven m now) :
    Driven (m.loadImage a image).2 now
  | start {m : Machine δ ω} {now : Nat} (a : Word) (h : Driven m now) : Driven (m.start now a) now
  | boot {m : Machine δ ω} {now : Nat} (a : DeviceAddress) (h : Driven m now) : Driven (m.boot now a).2 now
  | requestInterrupt {m : Machine δ ω} {now : Nat} (level : Nat) (h : Driven m now) :
    Driven (m.requestInterrupt now level) now
  | tick {m m' : Machine δ ω} {now : Nat} (h : Driven m now) (htick : Machine.tick now m = .ok () m') : Driven m' now
  | stopped {m m' : Machine δ ω} {now : Nat} {stop : MachineStop} (h : Driven m now)
    (htick : Machine.tick now m = .error stop m') (hkept : ¬m.LosesSignal now) : Driven m' now

theorem Driven.timely (h : m.Driven now) : m.Timely now := by
  induction h with
  | @build config m now choice h =>
    have hdue : m.pollDue ≤ now := by
      rw [Machine.build] at h
      cases hvalid : config.validate <;> rw [hvalid] at h <;> cases h
      exact Nat.le_refl _
    exact timely_of_pollDue_le hdue
  | wait _ hle ih => exact ih.mono hle
  | attach a device _ _ => exact timely_of_pollDue_le (Nat.le_refl _)
  | @loadImage m now a image _ ih =>
    have hkept : (m.loadImage a image).2.channels = m.channels ∧ (m.loadImage a image).2.pollDue = m.pollDue := by
      rw [Machine.loadImage]
      split <;> exact ⟨rfl, rfl⟩
    exact ih.congr (congrArg Channels.schedule hkept.1) (Nat.le_of_eq hkept.2)
  | start a _ ih => exact ih.congr rfl (Nat.le_refl _)
  | boot a _ _ => exact timely_of_pollDue_le (Nat.le_refl _)
  | requestInterrupt level _ _ => exact timely_of_pollDue_le (Nat.min_le_right _ _)
  | tick _ htick ih => exact (timely_tick ih htick).1
  | stopped _ htick hkept ih => exact timely_tick_error ih htick hkept

/-! ### A loop of ticks -/

/-- The devices that a tick services, each with the time for which it was scheduled. -/
def servicesAt (m : Machine δ ω) (now : Nat) : List (DeviceAddress × Nat) :=
  if m.pollDue ≤ now then Channels.services now Channels.serviceLimit m.channels m.memory else []

/-- A tick that comes when a device is due services it. -/
theorem mem_servicesAt (ht : m.Timely now) (hle : now ≤ due) (htime : m.channels.schedule.time? a = some due)
    (hall : (m.channels.poll due m.memory).1.schedule.NoneDue due) : (a, due) ∈ m.servicesAt due := by
  have hpoll : m.pollDue ≤ due := Nat.le_trans (ht a due htime) (by omega)
  rw [servicesAt, if_pos hpoll]
  exact Channels.mem_services hall htime (Nat.le_refl _)

theorem eq_of_mem_servicesAt (hnot : m.channels.NotOverdue now) (h : (a, due) ∈ m.servicesAt now) : due = now := by
  rw [servicesAt] at h
  split at h
  · exact Channels.eq_of_mem_services hnot h
  · cases h

end Machine

namespace Run
variable {δ ω : Type} [Peripheral δ ω] {r : Run δ ω} {m : Machine δ ω} {now : Nat}

/-- The machine is looked at in time, and no device is overdue. -/
structure OnTime (r : Run δ ω) : Prop where
  timely : r.machine.Timely r.now
  notOverdue : r.machine.channels.NotOverdue r.now

theorem OnTime.advance (h : r.OnTime) (hstop : r.advance.stop = none) : r.advance.OnTime := by
  rw [advance_eq] at hstop ⊢
  cases htick : Machine.tick (max r.now r.machine.nextTick) r.machine with
  | ok _ m =>
    have ht := h.timely.mono (Nat.le_max_left r.now r.machine.nextTick)
    obtain ⟨htimely, happoints⟩ := Machine.timely_tick ht htick
    exact ⟨htimely, happoints.notOverdue (Machine.notOverdue_nextTick h.timely h.notOverdue)⟩
  | error stop m =>
    rw [htick] at hstop
    cases hstop

/-- A loop keeps the time of every device for as long as it is not stopped. -/
theorem OnTime.advanceUntil {done : Machine δ ω → Bool} (h : r.OnTime) (n : Nat)
    (hstop : (r.advanceUntil done n).stop = none) : (r.advanceUntil done n).OnTime := by
  induction n with
  | zero => exact h
  | succ n ih =>
    rw [advanceUntil_succ] at hstop ⊢
    split
    · next hdone =>
      rw [if_pos hdone] at hstop
      exact ih hstop
    · next hgoes =>
      rw [if_neg hgoes] at hstop
      have hbefore : (r.advanceUntil done n).stop = none := by
        rw [Bool.or_eq_true, not_or] at hgoes
        exact Option.not_isSome_iff_eq_none.mp hgoes.1
      exact (ih hbefore).advance hstop

end Run

/-! ### A device that is never serviced again -/

/-- A device that takes its time for a command, ends it on the channel only, and asks for another service. -/
inductive HesitantDevice
  | hesitant

namespace HesitantDevice
open Machine SilentDevice

instance : Peripheral HesitantDevice Unit where
  name _ := "hesitant"
  reset d _ _ := .only d ()
  startCommand d _ _ := .only d (.accepted 1000)
  service d _ := .endCommand .channelEnd (.done (d, some 1000))

def address : DeviceAddress := SilentDevice.address

/-- The channels after the program load has begun. -/
def loading : Channels HesitantDevice Unit where
  subchannels := Table.empty.set address.bits ⟨.hesitant, begun⟩
  real := Table.empty.set address.channel .idle
  schedule := Schedule.empty.put address 1000
  loading := some address
  raised := false
  output := #[]

/-- The channels after the first service. -/
def ended : Channels HesitantDevice Unit :=
  { loading with
    subchannels := Table.empty.set address.bits
      ⟨.hesitant, { begun with command := none, status := .channelEnd, phase := .newCommand }⟩
    schedule := (loading.schedule.remove address).put address 2000
    raised := true }

section
variable {mem : Memory}

theorem boot_loading (h : Bootstrapped mem) :
    (((Channels.reset .empty 0).attach 0 address .hesitant).reset 0).boot 0 mem address = (.ok (), loading) := by
  rw [Channels.boot, if_neg (by decide), if_neg (by decide)]
  dsimp only
  rw [Channels.continueProgram, show Channels.program? _ address = some (Channels.started address 0) from rfl]
  dsimp only
  have hfetch : (Channels.started address 0).fetch mem false = .ok (some 2#8) begun := fetch_started h
  rw [hfetch]
  rfl

theorem boot_eq {config : Configuration} {cpu : Cpu} {instructionDue : Option Nat} {pollDue executed : Nat}
    (hmem : mem.after (Memory.writePair 0 bootstrap.1 bootstrap.2) = SilentDevice.memory) :
    (Machine.boot ⟨config, ⟨⟨cpu, mem⟩, (Channels.reset .empty 0).attach 0 address .hesitant⟩, instructionDue, pollDue,
        executed⟩ 0 address).2 =
      ⟨config, ⟨⟨cpu.reset, SilentDevice.memory⟩, loading⟩, none, 0, executed⟩ := by
  rw [Machine.boot, Machine.reset]
  dsimp only
  rw [hmem, boot_loading bootstrapped_memory]

/-- A machine that is being loaded from the device. -/
def machine (channels : Channels HesitantDevice Unit) (pollDue : Nat) (mem : Memory) : Machine HesitantDevice Unit :=
  ⟨⟨.c3227, .k128, 0⟩, ⟨⟨Cpu.reset (Cpu.initial .c3227 0), mem⟩, channels⟩, none, pollDue, 0⟩

theorem tick_machine {c c' c'' : Channels HesitantDevice Unit} {pollDue now : Nat} (hdue : pollDue ≤ now)
    (hpoll : c.poll now mem = (c', mem)) (hscan : c'.scan now mem = (none, c'')) :
    tick now (machine c pollDue mem) = .ok () (machine c'' (nextPoll now c' c'') mem) :=
  tick_of_halted hdue (poll_of_scan_none (m := machine c pollDue mem) hpoll hscan) rfl

theorem tick_loading : tick 0 (machine loading 0 mem) = .ok () (machine loading 1000 mem) := by
  have hnone : loading.schedule.NoneDue 0 := by
    refine Schedule.popDue?_eq_none_iff.mp ?_
    rfl
  exact tick_machine (Nat.le_refl 0) (Channels.poll_of_noneDue hnone) rfl

theorem ended_begun (mem : Memory) : Transfer.ended mem .channelEnd begun =
    { begun with command := none, status := .channelEnd, phase := .newCommand } := by
  rw [Transfer.ended]
  dsimp only
  rw [if_neg (by decide), if_neg (by decide), Transfer.skipChain_of_not_chained (by decide)]
  rfl

theorem noneDue_ended : ended.schedule.NoneDue 1000 := by
  refine Schedule.popDue?_eq_none_iff.mp ?_
  rfl

theorem poll_loading : loading.poll 1000 mem = (ended, mem) := by
  have hfirst : loading.schedule.popDue? 1000 = some (address, loading.schedule.remove address) := rfl
  have hserve : ({ loading with schedule := loading.schedule.remove address } :
      Channels HesitantDevice Unit).serviceDevice 1000 mem address = (ended, mem) := by
    rw [ended, ← ended_begun mem]
    rfl
  rw [Channels.poll, show Channels.serviceLimit = 0x3FFFFFFFFFFFFFFF + 1 from rfl, Channels.pollUpTo, hfirst]
  dsimp only
  rw [hserve]
  exact Channels.pollUpTo_of_noneDue noneDue_ended _

theorem tick_waiting : tick 1000 (machine loading 1000 mem) = .ok () (machine ended 1000 mem) :=
  tick_machine (Nat.le_refl 1000) poll_loading rfl

theorem tick_ended : tick 1000 (machine ended 1000 mem) = .ok () (machine ended 1000 mem) :=
  tick_machine (Nat.le_refl 1000) (Channels.poll_of_noneDue noneDue_ended) rfl

end

/-- The machine when the program load has begun. -/
def started : Machine HesitantDevice Unit := machine loading 0 SilentDevice.memory

/-- The machine after its first tick. -/
def waiting : Machine HesitantDevice Unit := machine loading 1000 SilentDevice.memory

/-- The machine after the first service. -/
def stuck : Machine HesitantDevice Unit := machine ended 1000 SilentDevice.memory

theorem driven_started : started.Driven 0 := by
  let bare : Machine HesitantDevice Unit := ⟨⟨.c3227, .k128, 0⟩, .initial ⟨.c3227, .k128, 0⟩, none, 0, 0⟩
  have hbuild : Machine.build 0 ⟨.c3227, .k128, 0⟩ = .ok (bare.reset 0) := rfl
  have hbuilt : (bare.reset 0).Driven 0 := Driven.build (fun _ => 0) hbuild
  have hboot := (hbuilt.attach address .hesitant).boot address
  rw [Machine.reset, Machine.attach] at hboot
  dsimp only [bare, Hardware.initial] at hboot
  rw [boot_eq rfl] at hboot
  exact hboot

theorem driven_stuck : stuck.Driven 1000 :=
  ((driven_started.tick tick_loading).wait (Nat.zero_le 1000)).tick tick_waiting

theorem notOverdue_started : started.channels.NotOverdue 0 := fun _ _ => Nat.zero_le _

theorem notOverdue_stuck : stuck.channels.NotOverdue 1000 := by
  intro e he
  cases he with
  | head => decide
  | tail _ he => cases he

theorem advance_started : (Run.begin started 0).advanceUntil (fun _ => false) 1 = ⟨waiting, 0, 1, none⟩ := by
  show (Run.begin started 0).advance = _
  rw [Run.advance_eq, show max _ _ = 0 from rfl, Run.begin, started, tick_loading]
  rfl

/-- The same tick comes again and again. -/
theorem advanceUntil_stuck (n : Nat) :
    (Run.begin stuck 1000).advanceUntil (fun _ => false) n = ⟨stuck, 1000, n, none⟩ := by
  induction n with
  | zero => rfl
  | succ n ih =>
    rw [Run.advanceUntil_succ, ih, if_neg (by simp), Run.advance_eq, show max _ _ = 1000 from rfl, stuck, tick_ended]

end HesitantDevice

namespace Machine
variable {δ ω : Type} [Peripheral δ ω] {m : Machine δ ω} {now : Nat}

/-- No device is serviced late. After every call the next tick comes no later than any device is scheduled for. In a
loop of ticks, each at the time of the next one, that begins when no device is overdue, the next tick never comes after
a time for which a device is scheduled; when it comes at that time it services the device, if its poll comes to an end;
and it services no other device than one that is scheduled for the time of the tick. -/
theorem services_on_time (h : m.Driven now) :
    (∀ a due, m.channels.schedule.time? a = some due → m.nextTick ≤ max now due) ∧
    (m.channels.NotOverdue now → ∀ done n r, (Run.begin m now).advanceUntil done n = r → r.stop = none →
      (∀ a due, r.machine.channels.schedule.time? a = some due → r.advance.now ≤ due ∧
        (r.advance.now = due → (r.machine.channels.poll due r.machine.memory).1.schedule.NoneDue due →
          (a, due) ∈ r.machine.servicesAt due)) ∧
      ∀ a due, (a, due) ∈ r.machine.servicesAt r.advance.now → due = r.advance.now) := by
  refine ⟨fun a due htime => Nat.le_trans nextTick_le_pollDue (h.timely a due htime), ?_⟩
  rintro hnot done n r rfl hstop
  have hbegin : (Run.begin m now).OnTime := ⟨h.timely, hnot⟩
  obtain ⟨htimely, hnot⟩ := hbegin.advanceUntil n hstop
  rw [Run.now_advance]
  refine ⟨fun a due htime => ⟨nextTick_le htimely hnot htime, fun hdue hall => ?_⟩, fun a due hmem => ?_⟩
  · exact mem_servicesAt htimely (hnot _ (Schedule.time?_eq_some_iff.mp htime)) htime hall
  · exact eq_of_mem_servicesAt (notOverdue_nextTick htimely hnot) hmem

theorem services_on_time_started : HesitantDevice.started.Driven 0 ∧ HesitantDevice.started.channels.NotOverdue 0 ∧
    (Run.begin HesitantDevice.started 0).advanceUntil (fun _ => false) 1 = ⟨HesitantDevice.waiting, 0, 1, none⟩ ∧
    HesitantDevice.waiting.channels.schedule.time? HesitantDevice.address = some 1000 ∧
    (HesitantDevice.address, 1000) ∈ HesitantDevice.waiting.servicesAt 1000 := by
  refine ⟨HesitantDevice.driven_started, HesitantDevice.notOverdue_started, HesitantDevice.advance_started, rfl, ?_⟩
  have hloop :=
    (services_on_time HesitantDevice.driven_started).2 HesitantDevice.notOverdue_started (fun _ => false) 1 _
    HesitantDevice.advance_started rfl
  have hall : (HesitantDevice.loading.poll 1000 SilentDevice.memory).1.schedule.NoneDue 1000 := by
    rw [HesitantDevice.poll_loading]
    exact HesitantDevice.noneDue_ended
  exact (hloop.1 HesitantDevice.address 1000 rfl).2 (Run.now_advance _) hall

/-- A loop of ticks need not come to the time of a device. Time stands still after the device has ended its command on
the channel only, and however many ticks there are, it is not serviced. -/
theorem exists_never_serviced : ∃ (m : Machine HesitantDevice Unit) (now due : Nat) (a : DeviceAddress),
    m.Driven now ∧ m.channels.NotOverdue now ∧ m.channels.schedule.time? a = some due ∧ now < due ∧
      ∀ n, (Run.begin m now).advanceUntil (fun _ => false) n = ⟨m, now, n, none⟩ ∧ m.servicesAt now = [] :=
  ⟨HesitantDevice.stuck, 1000, 2000, HesitantDevice.address, HesitantDevice.driven_stuck,
    HesitantDevice.notOverdue_stuck, rfl, by decide, fun n => ⟨HesitantDevice.advanceUntil_stuck n, rfl⟩⟩

end Machine
end Concept32
