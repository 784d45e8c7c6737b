import Concept32.Proofs.Channels.Advancing
import Concept32.Proofs.Channels.Presenting
import Concept32.Proofs.Channels.Records

/-!
# Loading from a file

What the channels do while a machine is being loaded from a reader of a file, when no other device has anything to
present: a service puts a record into memory, and a scan gives the reader the next command of the list or tells how
the load has ended.
-/

namespace Concept32.Channels
open ChannelProgram
variable {δ ω : Type} {c c' c'' : Channels δ ω} {a : DeviceAddress} {now : Nat} {mem : Memory} {s s' : Subchannel δ}
  {next : Address} {e : Entry} {progress : Option LoadProgress}

/-! ### One device among quiet ones -/

/-- No other device has status to present. -/
def Calm (c : Channels δ ω) (a : DeviceAddress) : Prop :=
  ∀ b, b ≠ a → ∀ q, c.program? b = some q → q.status = .none ∧ q.pending = .none

/-- The machine is being loaded from a device, no other device has status to present, and none is queued. -/
structure Loads (c : Channels δ ω) (a : DeviceAddress) (s : Subchannel δ) : Prop where
  subchannel : c.get? a = some s
  calm : c.Calm a
  loading : c.loading = some a
  queue : ∀ n, (c.channel n).queue = []

/-- Only a device and its program have changed, apart from when services are due and what is signalled. -/
structure Turns (a : DeviceAddress) (s' : Subchannel δ) (c c' : Channels δ ω) : Prop where
  subchannel : c'.get? a = some s'
  others : ∀ b, b ≠ a → c'.get? b = c.get? b
  loading : c'.loading = c.loading
  queue : ∀ n, (c'.channel n).queue = (c.channel n).queue

theorem Calm.congr (h : c.Calm a) (hothers : ∀ b, b ≠ a → c'.get? b = c.get? b) : c'.Calm a := fun b hb q hq =>
  h b hb q (by rw [← hq, program?, program?, hothers b hb])

theorem Loads.turns (h : c.Loads a s) (hturns : Turns a s' c c') : c'.Loads a s' where
  subchannel := hturns.subchannel
  calm := h.calm.congr hturns.others
  loading := hturns.loading.trans h.loading
  queue n := (hturns.queue n).trans (h.queue n)

namespace Turns

theorem refl (hs : c.get? a = some s) : Turns a s c c := ⟨hs, fun _ _ => rfl, rfl, fun _ => rfl⟩

theorem program {f : ChannelProgram → ChannelProgram} (h : Turns a s c c') :
    Turns a { s with program := f s.program } c (c'.modifyProgram a f) where
  subchannel := get?_modifyProgram_self h.subchannel
  others b hb := by
    rw [get?_modifyProgram, if_neg hb]
    exact h.others b hb
  loading := h.loading
  queue := h.queue

theorem absorb {α : Type} {r : Reaction δ ω α} (h : Turns a s c c') :
    Turns a { s with device := r.device } c (c'.absorb a r) where
  subchannel := get?_absorb_self h.subchannel
  others b hb := ((Touches.absorb : Touches 0 a c' (c'.absorb a r)).others b hb).trans (h.others b hb)
  loading := h.loading
  queue := h.queue

theorem raise (h : Turns a s c c') : Turns a s c c'.raise := ⟨h.subchannel, h.others, h.loading, h.queue⟩

theorem lower (h : Turns a s c c') : Turns a s c { c' with raised := false } :=
  ⟨h.subchannel, h.others, h.loading, h.queue⟩

theorem schedule {due : Schedule DeviceAddress} (h : Turns a s c c') : Turns a s c { c' with schedule := due } :=
  ⟨h.subchannel, h.others, h.loading, h.queue⟩

end Turns

theorem Loads.lowered (h : c.Loads a s) : ({ c with raised := false } : Channels δ ω).Loads a s :=
  h.turns (Turns.refl h.subchannel).lower

section
variable [Peripheral δ ω]

theorem scanDevices_of_quiet {l : List DeviceAddress}
    (h : ∀ b ∈ l, ∀ q, c.program? b = some q → q.status = .none ∧ q.pending = .none) :
    scanDevices now mem l c = (none, c) := by
  induction l with
  | nil => rfl
  | cons b rest ih =>
    have hlook : c.scanDevice now mem b = (none, c) := by
      cases hp : c.program? b with
      | none => rw [scanDevice, hp]
      | some q =>
        obtain ⟨hstatus, hpending⟩ := h b List.mem_cons_self q hp
        exact scanDevice_of_quiet hp hstatus hpending
    rw [scanDevices, hlook]
    exact ih fun b hb => h b (List.mem_cons_of_mem _ hb)

/-- A scan comes to the device, and what it does there is all that it does. -/
theorem Loads.scan (h : c.Loads a s) (hraised : c.raised = true)
    (hlook : ({ c with raised := false } : Channels δ ω).scanDevice now mem a = (progress, c')) :
    c.scan now mem = (progress, c') := by
  -- The devices before it in the list are quiet, and so are those after it, which it has left as they were.
  obtain ⟨before, after, hsplit, hbefore⟩ :=
    List.eq_append_cons_of_mem (mem_addresses (by rw [h.subchannel]; rfl : (c.get? a).isSome))
  have hafter : a ∉ after := by
    have hnodup := c.nodup_addresses
    rw [hsplit] at hnodup
    exact (List.nodup_cons.mp (List.nodup_append.mp hnodup).2.1).1
  have hcalm : ({ c with raised := false } : Channels δ ω).Calm a := h.calm
  have hquiet : scanDevices now mem before { c with raised := false } = (none, { c with raised := false }) :=
    scanDevices_of_quiet fun b hb => hcalm b (ne_of_mem_of_not_mem hb hbefore)
  have hcalm' : c'.Calm a := hcalm.congr fun b hb => by
    have hget : (({ c with raised := false } : Channels δ ω).scanDevice now mem a).2.get? b = c.get? b :=
      get?_scanDevice hb.symm
    rw [hlook] at hget
    exact hget
  rw [Channels.scan, if_pos hraised, hsplit, scanDevices_append (by rw [hquiet]), hquiet, scanDevices, hlook]
  cases progress with
  | some progress => rfl
  | none => exact scanDevices_of_quiet fun b hb => hcalm' b (ne_of_mem_of_not_mem hb hafter)

theorem Loads.scan_busy (h : c.Loads a s) (hstatus : s.program.status = .none) (hpending : s.program.pending = .none) :
    c.scan now mem = (none, { c with raised := false }) := by
  cases hraised : c.raised with
  | true => exact h.scan hraised (scanDevice_of_quiet (congrArg _ h.subchannel) hstatus hpending)
  | false =>
    rw [Channels.scan, hraised, if_neg Bool.false_ne_true, ← hraised]

end

/-! ### A reader of a file -/

section
variable {c c' : Channels StandardDevice Char} {r r' : ImageReader} {p q : ChannelProgram} {allowed : Bool}
  {flags : CommandFlags}

/-- What has become of a command of the list that the reader has been given; before it there was `l`. -/
inductive Given (a : DeviceAddress) (now : Nat) (r : ImageReader) (l : Load) (next : Address) (e : Entry)
    (c : Channels StandardDevice Char) : Except ChannelStatus Unit × Channels StandardDevice Char → Prop
  /-- The reader has carried it out at once. -/
  | carriedOut {c' : Channels StandardDevice Char} {r' : ImageReader} {q : ChannelProgram}
    (hcommand : e.command ≠ ImageReader.readCommand)
    (hcarried : l.carryOut r.data e = .ok ⟨l.memory, r'.position⟩) (hdata : r'.data = r.data)
    (hturns : Turns a ⟨.imageReader r', q⟩ c c') (hended : q.HasEnded next e.flags .concluded)
    (hschedule : c'.schedule = c.schedule) : Given a now r l next e c (.ok (), c')
  /-- The reader will be serviced for it. -/
  | begun {c' : Channels StandardDevice Char} {q : ChannelProgram} (hcommand : e.command = ImageReader.readCommand)
    (hmore : r.position < r.data.size) (hturns : Turns a ⟨.imageReader r, q⟩ c c') (hreads : q.Reads next e)
    (hschedule : c'.schedule = c.schedule.put a (now + ImageReader.recordTime)) (hraised : c'.raised = c.raised) :
    Given a now r l next e c (.ok (), c')
  /-- The file is at its end. -/
  | refused {c' : Channels StandardDevice Char} {s : ChannelStatus} {q : ChannelProgram}
    (hexhausted : r.data.size ≤ r.position)
    (hcarried : l.carryOut r.data e = .error .exhausted) (hturns : Turns a ⟨.imageReader r, q⟩ c c')
    (hended : q.HasEnded next .none .exhausted) (hschedule : c'.schedule = c.schedule) :
    Given a now r l next e c (.error s, c')

/-- The program may go on with another doubleword. -/
structure Ready (p : ChannelProgram) : Prop where
  clean : p.status.hasError = false
  unmodified : p.status.contains .modifier = false
  asksNothing : p.status.contains .programInterrupt = false
  unchained : p.flags.contains .dataChain = false
  pending : p.pending = .none

theorem reactionTo_noOperation : reactionTo (StandardDevice.imageReader r) now ImageReader.noOperation =
    .only (.imageReader r) (.done .concluded) := rfl

theorem reactionTo_rewind : reactionTo (StandardDevice.imageReader r) now ImageReader.rewindCommand =
    .only (.imageReader r.rewind) (.done .concluded) := rfl

theorem reactionTo_read : reactionTo (StandardDevice.imageReader r) now ImageReader.readCommand =
    .only (.imageReader r) (if r.remaining = 0 then .done .exhausted else .accepted ImageReader.recordTime) := rfl

theorem addressed_of_plain {place : Address} (hplain : e.Plain mem) : c.addressed a e.command place = c := by
  refine if_neg ?_
  rcases hplain.command with hcommand | hcommand | ⟨hcommand, -⟩
  all_goals
    rw [hcommand]
    decide

/-- The program has taken its doubleword, and the reader has answered to its command. -/
theorem turns_answer {place : Address} (hs : c.get? a = some ⟨.imageReader r, p⟩) (response : CommandResponse) :
    Turns a ⟨.imageReader r', p.take place e⟩ c
      ((c.modifyProgram a fun _ => p.take place e).absorb a (.only (.imageReader r') response)) :=
  ((Turns.refl hs).program (f := fun _ => p.take place e)).absorb
    (r := Reaction.only (StandardDevice.imageReader r') response)

theorem given_concluded {place : Address} (hs : c.get? a = some ⟨.imageReader r, p⟩) (hpending : p.pending = .none)
    (hcommand : e.command ≠ ImageReader.readCommand)
    (hcarried : Load.carryOut r.data e ⟨mem, r.position⟩ = .ok ⟨mem, r'.position⟩) (hdata : r'.data = r.data) :
    Given a now r ⟨mem, r.position⟩ (place + 8) e c
      (((c.modifyProgram a fun _ => p.take place e).absorb a
        (.only (.imageReader r') (CommandResponse.done .concluded))).answered now a .none (.done .concluded)) := by
  have hturns : Turns a ⟨.imageReader r', p.take place e⟩ c _ := turns_answer hs (.done .concluded)
  have hstatus : (ChannelStatus.concluded.union .none).union .channelEnd = .concluded := by decide
  rw [answered_of_endsWell (by decide), hstatus]
  refine .carriedOut hcommand hcarried hdata hturns.raise.program ?_ rfl
  exact ⟨rfl, rfl, rfl, hpending⟩

theorem given_exhausted {place : Address} (hs : c.get? a = some ⟨.imageReader r, p⟩) (hpending : p.pending = .none)
    (hcommand : e.command = ImageReader.readCommand) (hend : r.data.size ≤ r.position) :
    Given a now r ⟨mem, r.position⟩ (place + 8) e c
      (((c.modifyProgram a fun _ => p.take place e).absorb a
        (.only (.imageReader r) (CommandResponse.done .exhausted))).answered now a .none (.done .exhausted)) := by
  have hturns : Turns a ⟨.imageReader r, p.take place e⟩ c _ := turns_answer hs (.done .exhausted)
  refine .refused hend (Load.carryOut_of_end hcommand hend) hturns.raise.program ?_ rfl
  exact ⟨rfl, rfl, rfl, hpending⟩

theorem given_begun {place : Address} (hs : c.get? a = some ⟨.imageReader r, p⟩) (hpending : p.pending = .none)
    (hcommand : e.command = ImageReader.readCommand) (hmore : r.position < r.data.size) :
    Given a now r ⟨mem, r.position⟩ (place + 8) e c
      (((c.modifyProgram a fun _ => p.take place e).absorb a
        (.only (.imageReader r) (CommandResponse.accepted ImageReader.recordTime))).answered now a .none
          (.accepted ImageReader.recordTime)) := by
  have hturns : Turns a ⟨.imageReader r, p.take place e⟩ c _ := turns_answer hs (.accepted ImageReader.recordTime)
  refine .begun hcommand hmore hturns.schedule.program ?_ rfl rfl
  exact ⟨rfl, rfl, rfl, rfl, congrArg some hcommand, rfl, hpending, rfl, rfl⟩

theorem given_continueProgram (hs : c.get? a = some ⟨.imageReader r, p⟩) (hready : Ready p)
    (hentry : Progress.entryAt mem p.next allowed = .given next e) (hplain : e.Plain mem) :
    Given a now r ⟨mem, r.position⟩ next e c (c.continueProgram now mem a allowed) := by
  have hmodified : p.modified = p := if_neg (by rw [hready.unmodified]; decide)
  obtain ⟨place, rfl, hcontinued⟩ := continueProgram_of_given now hs hready.clean hready.unchained
    (by rw [hmodified]; exact hentry)
  dsimp only at hcontinued
  have htaken : (p.take place e).status = p.status := if_neg (by rw [hplain.quiet]; decide)
  rw [hcontinued, hmodified, issue_eq (get?_modifyProgram_self hs)]
  dsimp only
  rw [htaken, hready.asksNothing, if_neg Bool.false_ne_true, addressed_of_plain hplain]
  rcases hplain.command with hcommand | hcommand | ⟨hcommand, hcount, -⟩
  · rw [hcommand, reactionTo_noOperation]
    exact given_concluded hs hready.pending (by rw [hcommand]; decide) (Load.carryOut_noOperation hcommand) rfl
  · rw [hcommand, reactionTo_rewind]
    exact given_concluded hs hready.pending (by rw [hcommand]; decide) (Load.carryOut_rewind hcommand) rfl
  · rw [hcommand, reactionTo_read]
    by_cases hend : r.remaining = 0
    · rw [if_pos hend]
      exact given_exhausted hs hready.pending hcommand (Nat.le_of_sub_eq_zero hend)
    · rw [if_neg hend]
      exact given_begun hs hready.pending hcommand (by rw [ImageReader.remaining] at hend; omega)

/-! ### Stages of a load -/

/-- The reader will be serviced for a read at a time. -/
structure Reading (c : Channels StandardDevice Char) (a : DeviceAddress) (r : ImageReader) (next : Address) (e : Entry)
    (due : Nat) (p : ChannelProgram) : Prop where
  loads : c.Loads a ⟨.imageReader r, p⟩
  reads : p.Reads next e
  command : e.command = ImageReader.readCommand
  more : r.position < r.data.size
  schedule : c.schedule.entries = [(a, due)]

/-- The command of the reader has ended, and a scan will see that. -/
structure AtEnd (c : Channels StandardDevice Char) (a : DeviceAddress) (r : ImageReader) (next : Address)
    (flags : CommandFlags) (status : ChannelStatus) (p : ChannelProgram) : Prop where
  loads : c.Loads a ⟨.imageReader r, p⟩
  ended : p.HasEnded next flags status
  schedule : c.schedule.entries = []
  raised : c.raised = true

section
variable {due : Nat} {status : ChannelStatus}

theorem Reading.lowered (h : c.Reading a r next e due p) :
    ({ c with raised := false } : Channels StandardDevice Char).Reading a r next e due p :=
  ⟨h.loads.lowered, h.reads, h.command, h.more, h.schedule⟩

theorem Reading.poll_early (h : c.Reading a r next e due p) (hlt : now < due) : c.poll now mem = (c, mem) :=
  poll_of_noneDue (Schedule.noneDue_of_single h.schedule hlt)

theorem AtEnd.poll (h : c.AtEnd a r next flags status p) : c.poll now mem = (c, mem) :=
  poll_of_noneDue (Schedule.noneDue_of_nil h.schedule)

theorem AtEnd.program? (h : c.AtEnd a r next flags status p) : c.program? a = some p :=
  congrArg _ h.loads.subchannel

/-- A service in which the device queues no status and does not ask for another. -/
theorem turns_serviceDevice {s : Subchannel StandardDevice} {device : StandardDevice} {mem' : Memory} {raised : Bool}
    {output : Array Char} (hs : c.get? a = some s)
    (hrun : Connection.run (Peripheral.service s.device now) ⟨a, ⟨s.program, mem⟩, c.channel a.channel, c.raised⟩
      c.output = ((device, none), ⟨a, ⟨p, mem'⟩, c.channel a.channel, raised⟩, output)) :
    ∃ c', c.serviceDevice now mem a = (c', mem') ∧ Turns a ⟨device, p⟩ c c' ∧ c'.schedule = c.schedule ∧
      c'.raised = raised := by
  rw [Channels.serviceDevice, hs]
  dsimp only
  rw [hrun]
  refine ⟨_, rfl, ?_, rfl, rfl⟩
  exact {
    subchannel := by
      rw [get?]
      dsimp only
      rw [Table.get?_modify, if_pos rfl, show c.subchannels.get? a.bits = some s from hs]
      rfl
    others := fun b hb => by
      rw [get?]
      dsimp only
      rw [Table.get?_modify, if_neg (bits_ne hb)]
      rfl
    loading := rfl
    queue := fun n => by
      refine (congrArg RealChannel.queue (channel_setChannel c a.channel n (c.channel a.channel))).trans ?_
      split
      · next heq => rw [heq]
      · rfl }

theorem Reading.serviceDevice (now : Nat) (h : c.Reading a r next e due p) (hplain : e.Plain mem) :
    let record := recordOf r.data r.position e.count.toNat
    ∃ c' q, ({ c with schedule := c.schedule.remove a } : Channels StandardDevice Char).serviceDevice now mem a =
        (c', mem.storeBytes e.dataAddress.toNat record) ∧
      c'.AtEnd a { r with position := r.position + record.length } next (if e.isShort record then .none else e.flags)
        (if e.isShort record then .tooShort else .concluded) q := by
  intro record
  obtain ⟨q, hrun, hended⟩ := ImageReader.run_service h.reads hplain h.command h.more a (c.channel a.channel)
    c.raised c.output
  obtain ⟨c', hserviced, hturns, hschedule, hraised⟩ :=
    turns_serviceDevice (c := { c with schedule := c.schedule.remove a }) h.loads.subchannel hrun
  have hloads : ({ c with schedule := c.schedule.remove a } : Channels StandardDevice Char).Loads a ⟨.imageReader r, p⟩ :=
    h.loads.turns (Turns.refl h.loads.subchannel).schedule
  refine ⟨c', q, hserviced, hloads.turns hturns, hended, ?_, hraised⟩
  rw [hschedule]
  exact Schedule.entries_remove_of_single h.schedule

/-- A poll at the time of the service puts the next record into memory. -/
theorem Reading.poll (h : c.Reading a r next e due p) (hplain : e.Plain mem) (hle : due ≤ now) :
    let record := recordOf r.data r.position e.count.toNat
    ∃ c' q, c.poll now mem = (c', mem.storeBytes e.dataAddress.toNat record) ∧
      c'.AtEnd a { r with position := r.position + record.length } next (if e.isShort record then .none else e.flags)
        (if e.isShort record then .tooShort else .concluded) q := by
  intro record
  obtain ⟨c', q, hservice, hend⟩ := h.serviceDevice now hplain
  refine ⟨c', q, ?_, hend⟩
  rw [Channels.poll, show serviceLimit = 0x3FFFFFFFFFFFFFFF + 1 from rfl, pollUpTo,
    Schedule.popDue?_of_single h.schedule hle]
  dsimp only
  rw [hservice]
  exact pollUpTo_of_noneDue (Schedule.noneDue_of_nil hend.schedule) _

/-! ### Scans -/

/-- What a scan makes of a list that goes on, at a memory. -/
inductive Chained (a : DeviceAddress) (now : Nat) (mem : Memory) (r : ImageReader) (next : Address) (e : Entry)
    (c : Channels StandardDevice Char) : Prop
  | carriedOut {r' : ImageReader} {q : ChannelProgram}
    (hcarried : Load.carryOut r.data e ⟨mem, r.position⟩ = .ok ⟨mem, r'.position⟩) (hdata : r'.data = r.data)
    (hend : c.AtEnd a r' next e.flags .concluded q)
  | begun {q : ChannelProgram} (hreading : c.Reading a r next e (now + ImageReader.recordTime) q)
    (hraised : c.raised = true)
  | refused {q : ChannelProgram} (hcarried : Load.carryOut r.data e ⟨mem, r.position⟩ = .error .exhausted)
    (hend : c.AtEnd a r next .none .exhausted q)

/-- A scan gives the reader the next command of its list. -/
theorem AtEnd.scan_chained {next' : Address} (h : c.AtEnd a r next flags .concluded p)
    (hunchained : flags.contains .dataChain = false) (hchain : flags.contains .commandChain = true)
    (hentry : Progress.entryAt mem next true = .given next' e) (hplain : e.Plain mem) :
    ∃ c', c.scan now mem = (none, c') ∧ Chained a now mem r next' e c' := by
  have hquiet : ({ c with raised := false } : Channels StandardDevice Char).Loads a ⟨.imageReader r, p⟩ :=
    h.loads.lowered
  have hready : Ready p := by
    refine ⟨?_, ?_, ?_, ?_, h.ended.pending⟩
    · rw [h.ended.status]
      decide
    · rw [h.ended.status]
      decide
    · rw [h.ended.status]
      decide
    · rw [h.ended.flags]
      exact hunchained
  have hgiven : Given a now r ⟨mem, r.position⟩ next' e { c with raised := false }
      (Channels.continueProgram { c with raised := false } now mem a true) :=
    given_continueProgram hquiet.subchannel hready (by rw [h.ended.next]; exact hentry) hplain
  have hlook : ({ c with raised := false } : Channels StandardDevice Char).scanDevice now mem a = _ :=
    scanDevice_of_chained (congrArg _ hquiet.subchannel) (by rw [h.ended.status]; decide)
      (by rw [h.ended.status]; decide) (by rw [h.ended.flags]; exact hchain)
  generalize ({ c with raised := false } : Channels StandardDevice Char).continueProgram now mem a true = continued
    at hgiven hlook
  cases hgiven with
  | carriedOut _ hcarried hdata hturns hended hschedule =>
    exact ⟨_, h.loads.scan h.raised hlook, .carriedOut hcarried hdata
      ⟨hquiet.turns hturns.raise, hended, (congrArg Schedule.entries hschedule).trans h.schedule, rfl⟩⟩
  | begun hcommand hmore hturns hreads hschedule hraised =>
    exact ⟨_, h.loads.scan h.raised hlook, .begun
      ⟨hquiet.turns hturns.raise, hreads, hcommand, hmore,
        (congrArg Schedule.entries hschedule).trans (Schedule.entries_put_of_nil h.schedule)⟩ rfl⟩
  | refused _ hcarried hturns hended hschedule =>
    exact ⟨_, h.loads.scan h.raised hlook, .refused hcarried
      ⟨hquiet.turns hturns.program.raise, ⟨hended.next, rfl, hended.status, hended.pending⟩,
        (congrArg Schedule.entries hschedule).trans h.schedule, rfl⟩⟩

/-- How the channels are left by a load that has ended well: no device has status to present, and none is queued. -/
structure Unloaded (c : Channels StandardDevice Char) : Prop where
  calm : ∀ b q, c.program? b = some q → q.status = .none ∧ q.pending = .none
  loading : c.loading = none
  queue : ∀ n, (c.channel n).queue = []
  raised : c.raised = false

/-- A scan ends the load at the end of its list. -/
theorem AtEnd.scan_last (h : c.AtEnd a r next flags .concluded p) (hlast : flags.contains .commandChain = false) :
    ∃ c', c.scan now mem = (some (.complete a), c') ∧ c'.Unloaded := by
  have hlook : ({ c with raised := false } : Channels StandardDevice Char).scanDevice now mem a =
      (some (.complete a), ({ c with raised := false, loading := none } : Channels StandardDevice Char).modifyProgram a
        fun p => { p with status := .none, pending := .none }) := by
    rw [scanDevice,
      show ({ c with raised := false } : Channels StandardDevice Char).program? a = some p from h.program?]
    dsimp only
    rw [h.ended.status, h.ended.flags, hlast, if_pos (by decide), if_neg Bool.false_ne_true, if_pos h.loads.loading,
      if_neg (by decide)]
  have hturns := (Turns.refl (c := { c with raised := false, loading := none }) h.loads.subchannel).program
    (f := fun p => { p with status := .none, pending := .none })
  refine ⟨_, h.loads.scan h.raised hlook, fun b q hq => ?_, rfl, h.loads.queue, rfl⟩
  by_cases hb : b = a
  · subst hb
    cases hq.symm.trans (congrArg (Option.map Subchannel.program) hturns.subchannel)
    exact ⟨rfl, rfl⟩
  · refine h.loads.calm b hb q (hq.symm.trans ?_).symm
    exact congrArg (Option.map Subchannel.program) (hturns.others b hb)

/-- A scan ends the load when a command of it has failed. -/
theorem AtEnd.scan_failed (h : c.AtEnd a r next .none status p) (hend : status.contains .channelEnd = true)
    (herror : status.hasError = true) :
    ∃ c', c.scan now mem = (some (.failed (.channelProgram a status)), c') := by
  have hlook : ({ c with raised := false } : Channels StandardDevice Char).scanDevice now mem a =
      (some (.failed (.channelProgram a status)), { c with raised := false, loading := none }) := by
    rw [scanDevice,
      show ({ c with raised := false } : Channels StandardDevice Char).program? a = some p from h.program?]
    dsimp only
    rw [h.ended.status, h.ended.flags, if_pos hend, if_neg (by decide), if_pos h.loads.loading, if_pos herror]
  exact ⟨_, h.loads.scan h.raised hlook⟩

end

end
end Concept32.Channels
