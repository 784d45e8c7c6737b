import Concept32.Proofs.Channels.Bootstrapping
import Concept32.Proofs.Delivery
import Concept32.Proofs.Machine.Ticks

/-!
# Loading a machine from a file

A machine that is loaded from a reader of a file and then ticks whenever it wants to makes of the file what its list
says. When the list has ended the processor runs under the status doubleword that memory then holds at address zero; a
command that fails ends the load and leaves the processor halted.
-/

namespace Concept32
open ChannelProgram

/-! ### Waiting for a load -/

namespace Run
variable {δ ω : Type} [Peripheral δ ω] {r r' r'' : Run δ ω}

theorem advanceUntil_add (done : Machine δ ω → Bool) (n k : Nat) (r : Run δ ω) :
    r.advanceUntil done (n + k) = (r.advanceUntil done n).advanceUntil done k := by
  induction k with
  | zero => rfl
  | succ k ih => rw [← Nat.add_assoc, advanceUntil_succ, advanceUntil_succ, ih]

/-- A number of ticks, before each of which the processor is halted, leads from one to the other. -/
def Waits (r r' : Run δ ω) : Prop :=
  ∃ n, r.advanceUntil (fun _ => false) n = r' ∧ ∀ k < n, (r.advanceUntil (fun _ => false) k).machine.mode = .halted

theorem Waits.refl (r : Run δ ω) : r.Waits r := ⟨0, rfl, fun _ hk => absurd hk (Nat.not_lt_zero _)⟩

theorem Waits.trans (h : r.Waits r') (h' : r'.Waits r'') : r.Waits r'' := by
  obtain ⟨n, rfl, hn⟩ := h
  obtain ⟨n', rfl, hn'⟩ := h'
  refine ⟨n + n', advanceUntil_add _ n n' r, fun k hk => ?_⟩
  by_cases hlt : k < n
  · exact hn k hlt
  · obtain ⟨j, rfl⟩ := Nat.exists_eq_add_of_le (Nat.le_of_not_lt hlt)
    rw [advanceUntil_add]
    exact hn' j (by omega)

theorem Waits.advance (hstop : r.stop = none) (hmode : r.machine.mode = .halted) : r.Waits r.advance := by
  refine ⟨1, ?_, fun k hk => ?_⟩
  · rw [advanceUntil, hstop]
    rfl
  · obtain rfl : k = 0 := by omega
    exact hmode

end Run

namespace Machine
variable {δ ω : Type} {m m' : Machine δ ω} {now : Nat}

theorem nextTick_of_halted (h : m.mode = .halted) : m.nextTick = m.pollDue := by
  rw [nextTick, h]

/-- A load that has ended well starts the processor under the status doubleword at address zero. -/
theorem endLoad_complete {core : Core} (a : DeviceAddress) (h : Exec.startAt 0 m.hardware.core = .ok () core) :
    endLoad now (.complete a) m =
      .ok () { m with hardware := { m.hardware with core := core }, instructionDue := some now } := by
  obtain ⟨config, ⟨core', channels⟩, instructionDue, pollDue, executed⟩ := m
  have hstart : Hardware.onCore (Delivery.orHaltOnTrap now (Exec.startAt 0)) ⟨core', channels⟩ =
      .ok () (⟨core, channels⟩ : Hardware δ ω) := by
    rw [Hardware.onCore, Delivery.orHaltOnTrap, h]
  have hcore : onHardware (Hardware.onCore (Delivery.orHaltOnTrap now (Exec.startAt 0)))
      (⟨config, ⟨core', channels⟩, instructionDue, pollDue, executed⟩ : Machine δ ω) =
      .ok () ⟨config, ⟨core, channels⟩, instructionDue, pollDue, executed⟩ :=
    onHardware_eq_ok.mpr ⟨_, hstart, rfl⟩
  exact EStateM.bind_of_ok hcore

theorem pollIfPending_of_quiet (h : m.channels.interruptPending = false) : pollIfPending now m = .ok () m := by
  rw [pollIfPending_eq, h]
  rfl

section
variable [Peripheral δ ω]

/-- A tick goes on with the machine as a poll has left it. -/
theorem tick_of_polled (hdue : m.pollDue ≤ now) (hpoll : poll now m = .ok () m') (hlater : now < m'.pollDue) :
    tick now m = tick now m' := by
  rw [tick_eq, tick_eq, look_eq, look_eq, if_pos hdue, hpoll, if_neg (Nat.not_le.mpr hlater)]

theorem tick_of_poll_error {stop : MachineStop} (hdue : m.pollDue ≤ now) (hpoll : poll now m = .error stop m') :
    tick now m = .error stop m' := by
  rw [tick_eq, look_eq, if_pos hdue, hpoll]

end

/-- A machine at the end of its load: its memory has been loaded, the processor runs under the status doubleword at
address zero, and no status is queued. -/
structure Loaded (m : Machine StandardDevice Char) (mem : Memory) : Prop where
  memory : m.memory = mem
  mode : m.mode = .running
  word1 : mem.readWord 0 = .ok m.cpu.psd.word1
  word2 : mem.readWord 4 = .ok m.cpu.psd.word2
  channels : m.channels.Unloaded

end Machine

/-! ### The stages of a load -/

namespace Run
variable {r : Run StandardDevice Char} {cpu : Cpu} {a : DeviceAddress} {reader : ImageReader} {next next' : Address}
  {flags : CommandFlags} {status : ChannelStatus} {mem : Memory} {e : Entry} {c c' : Channels StandardDevice Char}
  {due : Nat} {p : ChannelProgram} {mem' : Memory}

/-- The time of the next tick. -/
def time (r : Run StandardDevice Char) : Nat := max r.now r.machine.nextTick

/-- The processor is as it was at the beginning of the load, and the next tick finds memory and the channels so. -/
structure Holds (r : Run StandardDevice Char) (cpu : Cpu) (mem : Memory) (c : Channels StandardDevice Char) : Prop where
  stop : r.stop = none
  halted : cpu.mode = .halted
  cpu : r.machine.cpu = cpu
  polled : r.machine.channels.poll r.time r.machine.memory = (c, mem)

theorem Holds.mode (h : r.Holds cpu mem c) : r.machine.mode = .halted := by
  rw [Machine.mode, h.cpu, h.halted]

theorem Holds.pollDue (h : r.Holds cpu mem c) : r.machine.pollDue ≤ r.time := by
  rw [time, Machine.nextTick_of_halted h.mode]
  exact Nat.le_max_right _ _

/-- Between two ticks: the time of the last one is over, and the channels have not been polled since. -/
structure Stands (r : Run StandardDevice Char) (cpu : Cpu) (mem : Memory) (c : Channels StandardDevice Char) :
    Prop where
  stop : r.stop = none
  halted : cpu.mode = .halted
  cpu : r.machine.cpu = cpu
  memory : r.machine.memory = mem
  channels : r.machine.channels = c

theorem Stands.holds (h : r.Stands cpu mem c) (hpoll : c.poll r.time mem = (c', mem')) : r.Holds cpu mem' c' :=
  ⟨h.stop, h.halted, h.cpu, by rw [h.channels, h.memory, hpoll]⟩

theorem Holds.advance (h : r.Holds cpu mem c) (hscan : c.scan r.time mem = (none, c')) :
    r.Waits r.advance ∧ r.advance.Stands cpu mem c' ∧
      r.advance.time = max r.time (Machine.nextPoll r.time c c') := by
  have hpoll := Machine.poll_of_scan_none h.polled hscan
  rw [h.cpu] at hpoll
  have htick : Machine.tick (max r.now r.machine.nextTick) r.machine = _ :=
    Machine.tick_of_halted h.pollDue hpoll h.halted
  have hadvance : r.advance = ⟨⟨r.machine.config, ⟨⟨cpu, mem⟩, c'⟩, r.machine.instructionDue,
      Machine.nextPoll r.time c c', r.machine.executed⟩, r.time, r.ticks + 1, none⟩ := by
    rw [advance_eq, htick]
    rfl
  refine ⟨.advance h.stop h.mode, ?_, ?_⟩
  · rw [hadvance]
    exact ⟨rfl, h.halted, rfl, rfl, rfl⟩
  · rw [hadvance, time]
    exact congrArg (max r.time) (Machine.nextTick_of_halted h.halted)

/-- What the next tick finds of a load: the reader has carried out a command, and `next` is where the list goes on. -/
def Poised (r : Run StandardDevice Char) (cpu : Cpu) (a : DeviceAddress) (next : Address) (flags : CommandFlags)
    (status : ChannelStatus) (reader : ImageReader) (mem : Memory) : Prop :=
  ∃ c p, r.Holds cpu mem c ∧ c.AtEnd a reader next flags status p

/-- A reader that has ended its command need not be serviced. -/
theorem Stands.poised (h : r.Stands cpu mem c) (hend : c.AtEnd a reader next flags status p) :
    r.Poised cpu a next flags status reader mem :=
  ⟨c, p, h.holds hend.poll, hend⟩

/-- Nothing is signalled while the reader reads, so the channels are next looked at when it has read. -/
theorem nextPoll_of_reading {now : Nat} (h : c.Reading a reader next e due p) (hlt : now < due) :
    Machine.nextPoll now c { c with raised := false } = due := by
  have hpending : ({ c with raised := false } : Channels StandardDevice Char).interruptPending = false :=
    Channels.interruptPending_eq_false rfl h.loads.queue
  rw [Machine.nextPoll, hpending, if_neg Bool.false_ne_true, Channels.nextService?,
    Schedule.next?_of_single h.schedule]
  exact Nat.max_eq_left (Nat.le_of_lt hlt)

/-! ### Commands of the list -/

/-- What the next tick finds that a command of the list has come to. -/
def Finds (r : Run StandardDevice Char) (cpu : Cpu) (a : DeviceAddress) (next : Address) (e : Entry)
    (file : Array Byte) : Except ChannelStatus Load → Prop
  | .ok l => ∃ reader : ImageReader, reader.data = file ∧ reader.position = l.position ∧
      r.Poised cpu a next e.flags .concluded reader l.memory
  | .error status => ∃ reader mem, r.Poised cpu a next .none status reader mem

/-- The tick after a read has begun has nothing to do but to set the time of the next, at which the record is put into
memory. -/
theorem Stands.reading (h : r.Stands cpu mem c) (hreading : c.Reading a reader next e due p) (hplain : e.Plain mem)
    (hearly : r.time < due) :
    ∃ r', r.Waits r' ∧ r'.Finds cpu a next e reader.data (Load.carryOut reader.data e ⟨mem, reader.position⟩) := by
  obtain ⟨hwaits, hstands, htime⟩ := (h.holds (hreading.poll_early hearly)).advance
    (hreading.loads.scan_busy hreading.reads.status hreading.reads.pending)
  have hdue : due ≤ r.advance.time := by
    rw [htime, nextPoll_of_reading hreading hearly]
    exact Nat.le_max_right _ _
  obtain ⟨c', q, hpoll, hend⟩ := hreading.lowered.poll hplain hdue
  rw [Load.carryOut_of_lt hreading.command (hplain.read hreading.command).1 hreading.more]
  refine ⟨r.advance, hwaits, ?_⟩
  -- Only whether the record is too short is left to tell apart.
  dsimp only at hend hpoll ⊢
  generalize recordOf reader.data reader.position e.count.toNat = record at hend hpoll ⊢
  cases hshort : e.isShort record with
  | true =>
    rw [hshort] at hend
    exact ⟨_, _, c', q, hstands.holds hpoll, hend⟩
  | false =>
    rw [hshort] at hend
    exact ⟨{ reader with position := reader.position + record.length }, rfl, rfl, c', q, hstands.holds hpoll, hend⟩

/-- A reader that has ended a command is given the next of its list, and carries it out. -/
theorem Poised.finds (h : r.Poised cpu a next flags .concluded reader mem)
    (hunchained : flags.contains .dataChain = false) (hchain : flags.contains .commandChain = true)
    (hentry : Progress.entryAt mem next true = .given next' e) (hplain : e.Plain mem) :
    ∃ r', r.Waits r' ∧ r'.Finds cpu a next' e reader.data (Load.carryOut reader.data e ⟨mem, reader.position⟩) := by
  obtain ⟨c, p, hholds, hend⟩ := h
  obtain ⟨c', hscan, hchained⟩ : ∃ c', c.scan r.time mem = (none, c') ∧ _ :=
    hend.scan_chained hunchained hchain hentry hplain
  obtain ⟨hwaits, hstands, htime⟩ := hholds.advance hscan
  cases hchained with
  | carriedOut hcarried hdata hend' =>
    rw [hcarried]
    exact ⟨r.advance, hwaits, _, hdata, rfl, hstands.poised hend'⟩
  | refused hcarried hend' =>
    rw [hcarried]
    exact ⟨r.advance, hwaits, _, _, hstands.poised hend'⟩
  | begun hreading hraised =>
    -- The channels are looked at again at once, and the record is not due yet.
    have hearly : r.advance.time < r.time + ImageReader.recordTime := by
      have hpoll : Machine.nextPoll r.time c c' = r.time := if_pos (Channels.interruptPending_iff.mpr (.inl hraised))
      rw [htime, hpoll, Nat.max_self]
      exact Nat.lt_add_of_pos_right (by decide)
    obtain ⟨r', hwaits', hfinds⟩ := hstands.reading hreading hplain hearly
    exact ⟨r', hwaits.trans hwaits', hfinds⟩

/-! ### The whole list -/

/-- The next tick finds that the list has ended. -/
def Concludes (r : Run StandardDevice Char) (cpu : Cpu) (a : DeviceAddress) : LoadOutcome → Prop
  | .loaded mem => ∃ next flags reader, flags.contains .commandChain = false ∧
      r.Poised cpu a next flags .concluded reader mem
  | .failed status => (status = .exhausted ∨ status = .tooShort) ∧
      ∃ next reader mem, r.Poised cpu a next .none status reader mem

theorem Finds.concludes_or_goesOn {file : Array Byte} {limit : Nat} {outcome : LoadOutcome}
    {result : Except ChannelStatus Load} (h : r.Finds cpu a next e file result)
    (hleads : Load.LeadsTo file limit next e outcome result) :
    r.Concludes cpu a outcome ∨ ∃ (reader : ImageReader) (l : Load), reader.data = file ∧
      reader.position = l.position ∧ r.Poised cpu a next e.flags .concluded reader l.memory ∧
        e.flags.contains .commandChain = true ∧ l.scatter file limit next = some outcome := by
  cases result with
  | error status =>
    obtain ⟨hstatus, rfl⟩ := hleads
    obtain ⟨reader, mem, hpoised⟩ := h
    exact .inl ⟨hstatus, next, reader, mem, hpoised⟩
  | ok l =>
    obtain ⟨reader, hdata, hposition, hpoised⟩ := h
    rw [Load.LeadsTo] at hleads
    split at hleads
    · next hchain => exact .inr ⟨reader, l, hdata, hposition, hpoised, hchain, hleads⟩
    · next hlast =>
      subst hleads
      exact .inl ⟨next, e.flags, reader, eq_false_of_ne_true hlast, hpoised⟩

/-- The commands of a list are carried out one after the other, each after what the one before it has put into
memory. -/
theorem Finds.concludes {file : Array Byte} {limit : Nat} {outcome : LoadOutcome}
    {result : Except ChannelStatus Load} (h : r.Finds cpu a next e file result)
    (hunchained : e.flags.contains .dataChain = false) (hleads : Load.LeadsTo file limit next e outcome result) :
    ∃ r', r.Waits r' ∧ r'.Concludes cpu a outcome := by
  -- Before each command of the list the reader is poised for it, with memory and its place in the file as in the load.
  induction limit generalizing r next e result with
  | zero =>
    rcases h.concludes_or_goesOn hleads with hconcludes | ⟨_, _, -, -, -, -, hlist⟩
    · exact ⟨r, .refl r, hconcludes⟩
    · cases hlist
  | succ limit ih =>
    rcases h.concludes_or_goesOn hleads with hconcludes | ⟨reader, l, rfl, hposition, hpoised, hchain, hlist⟩
    · exact ⟨r, .refl r, hconcludes⟩
    · obtain ⟨next', e', hentry, hplain, hleads'⟩ := Load.scatter_succ hlist
      obtain ⟨r', hwaits, hfinds⟩ := hpoised.finds hunchained hchain hentry hplain
      rw [hposition] at hfinds
      obtain ⟨r'', hwaits', hconcludes⟩ := ih hfinds hplain.unchained hleads'
      exact ⟨r'', hwaits.trans hwaits', hconcludes⟩

/-! ### The end of a load -/

/-- How the next tick ends a load. If the list has ended well and its status doubleword can be loaded, the rest of the
tick is that of a tick of the loaded machine. -/
def EndsLoad (r : Run StandardDevice Char) (cpu : Cpu) (a : DeviceAddress) : LoadOutcome → Prop
  | .loaded mem => ∀ core, Exec.startAt 0 ⟨cpu, mem⟩ = .ok () core → ∃ m : Machine StandardDevice Char,
      Machine.poll r.time r.machine = .ok () m ∧ Machine.tick r.time r.machine = Machine.tick r.time m ∧
        m.hardware.core = core ∧ m.Loaded mem
  | .failed status => ∃ m, Machine.tick r.time r.machine = .error (.loadFailed (.channelProgram a status)) m ∧
      m.mode = .halted

theorem Poised.endsLoad_failed {status : ChannelStatus} (h : r.Poised cpu a next .none status reader mem)
    (hstatus : status = .exhausted ∨ status = .tooShort) : r.EndsLoad cpu a (.failed status) := by
  obtain ⟨c, p, hholds, hend⟩ := h
  obtain ⟨c', hscan⟩ : ∃ c', c.scan r.time mem = (some (.failed (.channelProgram a status)), c') := by
    rcases hstatus with rfl | rfl
    · exact hend.scan_failed (by decide) (by decide)
    · exact hend.scan_failed (by decide) (by decide)
  exact ⟨_, Machine.tick_of_poll_error hholds.pollDue (Machine.poll_eq hholds.polled hscan), rfl⟩

theorem Poised.endsLoad_loaded (h : r.Poised cpu a next flags .concluded reader mem)
    (hlast : flags.contains .commandChain = false) : r.EndsLoad cpu a (.loaded mem) := by
  intro core hstart
  obtain ⟨c, p, hholds, hend⟩ := h
  obtain ⟨c', hscan, hunloaded⟩ : ∃ c', c.scan r.time mem = (some (.complete a), c') ∧ c'.Unloaded :=
    hend.scan_last hlast
  have hidle : Machine.servicePoll r.time c = r.time + Machine.idlePollTime := by
    rw [Machine.servicePoll, Channels.nextService?, Schedule.next?_eq_none_iff.mpr hend.schedule]
  have hquiet : c'.interruptPending = false := Channels.interruptPending_eq_false hunloaded.raised hunloaded.queue
  have hpoll : Machine.poll r.time r.machine = .ok () ⟨r.machine.config, ⟨core, c'⟩, some r.time,
      r.time + Machine.idlePollTime, r.machine.executed⟩ := by
    rw [Machine.poll_eq hholds.polled hscan, hholds.cpu, hidle]
    refine (EStateM.bind_of_ok (Machine.endLoad_complete a hstart)).trans ?_
    exact Machine.pollIfPending_of_quiet hquiet
  obtain ⟨hmemory, hmode, hword1, hword2⟩ := Exec.startAt_eq_ok hstart
  refine ⟨_, hpoll, Machine.tick_of_polled hholds.pollDue hpoll ?_, rfl, hmemory, hmode, hword1, hword2,
    hunloaded⟩
  exact Nat.lt_add_of_pos_right (by decide)

theorem Poised.halted {status : ChannelStatus} (h : r.Poised cpu a next flags status reader mem) :
    r.stop = none ∧ r.machine.mode = .halted := by
  obtain ⟨c, p, hholds, -⟩ := h
  exact ⟨hholds.stop, hholds.mode⟩

theorem Concludes.endsLoad {outcome : LoadOutcome} (h : r.Concludes cpu a outcome) :
    (r.stop = none ∧ r.machine.mode = .halted) ∧ r.EndsLoad cpu a outcome := by
  cases outcome with
  | loaded mem =>
    obtain ⟨next, flags, reader, hlast, hpoised⟩ := h
    exact ⟨hpoised.halted, hpoised.endsLoad_loaded hlast⟩
  | failed status =>
    obtain ⟨hstatus, next, reader, mem, hpoised⟩ := h
    exact ⟨hpoised.halted, hpoised.endsLoad_failed hstatus⟩

end Run

/-! ### Loading a machine -/

namespace Machine
variable {m : Machine StandardDevice Char} {a : DeviceAddress} {reader : ImageReader} {p : ChannelProgram}
  {limit : Nat} {outcome : LoadOutcome}

theorem boot_of_ok {c : Channels StandardDevice Char} {now : Nat}
    (h : (m.channels.reset now).boot now (Load.begun m.memory).memory a = (.ok (), c)) : m.boot now a =
      (.ok (), ⟨m.config, ⟨⟨m.cpu.reset, (Load.begun m.memory).memory⟩, c⟩, none, now, m.executed⟩) := by
  obtain ⟨config, ⟨⟨cpu, memory⟩, channels⟩, instructionDue, pollDue, executed⟩ := m
  have hboot : (channels.reset now).boot now (memory.after (Memory.writePair 0 bootstrap.1 bootstrap.2)) a =
      (.ok (), c) := h
  rw [boot, reset]
  dsimp only
  rw [hboot]
  rfl

/-- A machine that is loaded from a reader of a file and ticks whenever it wants to makes of the file what its list
says, and is halted until then. -/
theorem boot_scatters (hreader : m.channels.get? a = some ⟨.imageReader reader, p⟩) (hdata : reader.data ≠ #[])
    (hlist : (Load.begun m.memory).scatter reader.data limit 0 = some outcome) (now : Nat) :
    ∃ booted r, m.boot now a = (.ok (), booted) ∧ (Run.begin booted now).Waits r ∧
      (r.stop = none ∧ r.machine.mode = .halted) ∧ r.EndsLoad m.cpu.reset a outcome := by
  obtain ⟨limit, rfl⟩ : ∃ k, limit = k + 1 := Nat.exists_eq_succ_of_ne_zero fun hzero => by
    subst hzero
    cases hlist
  obtain ⟨next, e, hentry, hplain, hleads⟩ := Load.scatter_succ hlist
  obtain ⟨hfirst, hcommand⟩ := Load.entryAt_begun hentry
  obtain ⟨c, q, hboot, hreading⟩ : ∃ c q, (m.channels.reset now).boot now (Load.begun m.memory).memory a =
      (.ok (), c) ∧ c.Reading a reader.rewind next e (now + ImageReader.recordTime) q :=
    Channels.boot_reset hreader hdata hfirst hplain hcommand
  let booted : Machine StandardDevice Char :=
    ⟨m.config, ⟨⟨m.cpu.reset, (Load.begun m.memory).memory⟩, c⟩, none, now, m.executed⟩
  have hstands : (Run.begin booted now).Stands m.cpu.reset (Load.begun m.memory).memory c :=
    ⟨rfl, rfl, rfl, rfl, rfl⟩
  have hearly : (Run.begin booted now).time < now + ImageReader.recordTime := by
    have htime : (Run.begin booted now).time = max now now := rfl
    rw [htime, Nat.max_self]
    exact Nat.lt_add_of_pos_right (by decide)
  obtain ⟨r, hwaits, hfinds⟩ := hstands.reading hreading hplain hearly
  obtain ⟨r', hwaits', hconcludes⟩ := hfinds.concludes hplain.unchained hleads
  exact ⟨booted, r', boot_of_ok hboot, hwaits.trans hwaits', hconcludes.endsLoad⟩

end Machine

/-! ### A machine that is loaded -/

namespace TwoRecords

/-- A file whose first record has a status doubleword and a read of four bytes, which lie in its second record. -/
def reader : ImageReader := .ofFile "boot" #[
  0x80#8, 0x00#8, 0x00#8, 0x18#8, 0x00#8, 0x00#8, 0x00#8, 0x00#8,
  0x02#8, 0x00#8, 0x00#8, 0x18#8, 0x00#8, 0x00#8, 0x00#8, 0x04#8,
  0x00#8, 0x00#8, 0x00#8, 0x00#8, 0x00#8, 0x00#8, 0x00#8, 0x00#8,
  0x00#8, 0x01#8, 0x00#8, 0x02#8]

def address : DeviceAddress := ⟨0x1000#15⟩

def machine : Machine StandardDevice Char :=
  ⟨.standard, ⟨⟨.initial .c3227 0, ⟨Array.replicate 8 0, by decide⟩⟩,
    Channels.empty.attach 0 address (.imageReader reader)⟩, none, 0, 0⟩

/-- Memory with both records, the second behind the first. -/
def memory : Memory :=
  ⟨#[0x80000018#32, 0x00000000#32, 0x02000018#32, 0x00000004#32, 0x00000000#32, 0x00000000#32, 0x00010002#32,
    0x00000000#32], by decide⟩

set_option maxRecDepth 4000 in
theorem boot_scatters_records :
    machine.channels.get? address = some ⟨.imageReader reader, .idle⟩ ∧ reader.data ≠ #[] ∧
      (Load.begun machine.memory).scatter reader.data 2 0 = some (.loaded memory) ∧
      (∃ core, Exec.startAt 0 ⟨machine.cpu.reset, memory⟩ = .ok () core) ∧
      ∃ booted r, machine.boot 0 address = (.ok (), booted) ∧ (Run.begin booted 0).Waits r ∧
        (r.stop = none ∧ r.machine.mode = .halted) ∧ r.EndsLoad machine.cpu.reset address (.loaded memory) := by
  have hreader : machine.channels.get? address = some ⟨.imageReader reader, .idle⟩ := rfl
  have hdata : reader.data ≠ #[] := by decide
  have hlist : (Load.begun machine.memory).scatter reader.data 2 0 = some (.loaded memory) := rfl
  exact ⟨hreader, hdata, hlist, ⟨_, rfl⟩, Machine.boot_scatters hreader hdata hlist 0⟩

set_option maxRecDepth 4000 in
/-- Without its second record the file is at its end too soon. -/
example : (Load.begun machine.memory).scatter (reader.data.take 24) 2 0 = some (.failed .exhausted) := rfl

end TwoRecords
end Concept32
