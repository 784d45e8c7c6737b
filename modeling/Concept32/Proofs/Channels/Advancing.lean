import Concept32.Proofs.Channels.Chaining

/-!
# Taking a command list further

A start gives a device the first command of its list. After that a poll lets the device end the command that it
carries out, and a scan gives it the next one, or queues the status of the list when it has ended or is wrong.
-/

namespace Concept32.Channels
open ChannelProgram
variable {δ ω : Type} [Peripheral δ ω] {c c' : Channels δ ω} {a : DeviceAddress} {now : Nat} {mem : Memory}
  {s s' : Subchannel δ} {idle busy : δ → Prop} {kind : Byte → Prop} {received : δ → List Byte}
  {first next next' : Address} {e e' : Entry} {log : List Byte} {before : List StatusDoubleword} {progress : Progress}

/-! ### A poll -/

/-- A service in which the device ends its command, and that it does not ask to be followed by another. -/
theorem serviceDevice_settles (mem : Memory) {Q : δ × Option Nat → Prop} (hs : c.get? a = some s)
    (hservice : (Peripheral.service s.device now).EndsCommand fun r => idle r.1 ∧ r.2 = none)
    (hkeeps : (Peripheral.service s.device now).Ends Q) (hdata : s.program.flags.contains .dataChain = false) :
    ∃ s', (c.serviceDevice now mem a).1.get? a = some s' ∧ idle s'.device ∧ Q (s'.device, none) ∧
      (c.serviceDevice now mem a).1.schedule = c.schedule ∧ (c.serviceDevice now mem a).1.waiting a = c.waiting a ∧
      (c.serviceDevice now mem a).1.loading = c.loading ∧ (c.serviceDevice now mem a).1.raised = true ∧
      (s'.program.status.hasError = false → Transfer.Concludes s.program s'.program) := by
  have hsettles := Connection.settles_run (c := ⟨a, ⟨s.program, mem⟩, c.channel a.channel, c.raised⟩) c.output
    hservice hdata
  have hvalue := Connection.run_ends hkeeps ⟨a, ⟨s.program, mem⟩, c.channel a.channel, c.raised⟩ c.output
  rw [serviceDevice, hs]
  dsimp only
  generalize Connection.run _ _ _ = done at hsettles hvalue ⊢
  obtain ⟨⟨device, again⟩, ⟨address, ⟨program, mem'⟩, channel, raised⟩, output⟩ := done
  obtain ⟨⟨hidle, hlast⟩, hchannel, hraised, hconcludes⟩ := hsettles
  obtain rfl : again = none := hlast
  refine ⟨⟨device, program⟩, ?_, hidle, hvalue, rfl, ?_, rfl, hraised, hconcludes⟩
  · have hget : c.subchannels.get? a.bits = some s := hs
    show Table.get? _ a.bits = _
    rw [Table.get?_modify, if_pos rfl, hget]
    rfl
  · exact waiting_setChannel (c := c) fun _ => congrArg (fun r => r.queue.filter (·.isOf a)) hchannel

theorem Stands.poll_of_later {due : Nat} (h : Stands idle busy received before log (.given next e) c a s)
    (hends : Peripheral.EndsCommands idle busy kind) (hlogs : Peripheral.Logs received)
    (hall : (c.poll now mem).1.schedule.NoneDue now) (htime : c.schedule.time? a = some due) (hlate : due ≤ now)
    (hdata : e.flags.contains .dataChain = false)
    (hclean : ∀ p, (c.poll now mem).1.program? a = some p → p.status.hasError = false) :
    ∃ s', Stands idle busy received before log (.given next e) (c.poll now mem).1 a s' ∧
      (c.poll now mem).1.raised = true ∧ (c.poll now mem).1.schedule.time? a = none := by
  cases h.stageAt htime with
  | given hnext hflags hcarries =>
  cases hcarries with
  | later hbusy =>
  -- The poll services other devices before this one and after it, and they spare it.
  have hdata' : s.program.flags.contains .dataChain = false := hflags ▸ hdata
  have hservice := hends.service s.device now hbusy
  obtain ⟨c₁, mem₁, hbefore, hafter⟩ := pollUpTo_of_due hall htime hlate fun c' mem' hget htime' => by
    obtain ⟨-, -, -, -, hschedule, -⟩ := serviceDevice_settles mem' (hget.trans h.subchannel) hservice
      (hlogs.service s.device now) hdata'
    rw [hschedule]
    exact htime'
  obtain ⟨s', hget, hidle, hreceived, hschedule, hwaiting, hloading, hraised, hconcludes⟩ :=
    serviceDevice_settles mem₁ (hbefore.subchannel.trans h.subchannel) hservice (hlogs.service s.device now) hdata'
  have hclean' : s'.program.status.hasError = false := hclean s'.program (hafter.program?.trans (congrArg _ hget))
  have htime' : (c₁.serviceDevice now mem₁ a).1.schedule.time? a = none := by
    rw [hschedule, hbefore.time, Schedule.time?_remove, if_pos rfl]
  obtain ⟨hstays, -, hchannelEnd, hdeviceEnd⟩ := hconcludes hclean'
  have hended : Carries idle busy s' none := .ended hidle ⟨hchannelEnd, hdeviceEnd, hclean'⟩
  have hstands : Stands idle busy received before log (.given next e) (c₁.serviceDevice now mem₁ a).1 a s' := {
    subchannel := hget
    received := hreceived.trans h.received
    pending := hstays.pending.trans h.pending
    loading := hloading.trans (hbefore.loading.trans h.loading)
    queued := (hwaiting.trans hbefore.waiting) ▸ h.queued
    stage := .given (hstays.next.trans hnext) (hstays.flags.trans hflags) (htime'.symm ▸ hended) }
  exact ⟨s', hstands.spares hafter, hafter.raised hraised, hafter.time.trans htime'⟩

/-- A poll that is late enough for the service that a device asked for lets it end its command. -/
theorem Stands.poll (h : Stands idle busy received before log progress c a s) (halert : Alert progress c a)
    (hends : Peripheral.EndsCommands idle busy kind) (hlogs : Peripheral.Logs received)
    (hall : (c.poll now mem).1.schedule.NoneDue now) (hlate : ∀ due, c.schedule.time? a = some due → due ≤ now)
    (hdata : ∀ next e, progress = .given next e → e.flags.contains .dataChain = false)
    (hclean : ∀ next e, progress = .given next e →
      ∀ p, (c.poll now mem).1.program? a = some p → p.status.hasError = false) :
    ∃ s', Stands idle busy received before log progress (c.poll now mem).1 a s' ∧ Alert progress (c.poll now mem).1 a ∧
      (c.poll now mem).1.schedule.time? a = none := by
  cases htime : c.schedule.time? a with
  | none =>
    have hspares : Spares a c (c.poll now mem).1 := spares_poll fun due hdue => by
      rw [htime] at hdue
      cases hdue
    exact ⟨s, h.spares hspares, halert.spares hspares, hspares.time.trans htime⟩
  | some due =>
    cases h.stageAt htime with
    | @given _ next e _ _ _ =>
      obtain ⟨s', hstands, hraised, hnone⟩ :=
        h.poll_of_later hends hlogs hall htime (hlate due htime) (hdata next e rfl) (hclean next e rfl)
      exact ⟨s', hstands, fun _ => hraised, hnone⟩

/-! ### A scan -/

theorem scanDevice_of_chained {p : ChannelProgram} (hp : c.program? a = some p)
    (hend : p.status.contains .channelEnd = true) (hdevice : p.status.contains .deviceEnd = true)
    (hchain : p.flags.contains .commandChain = true) :
    c.scanDevice now mem a = match c.continueProgram now mem a true with
      | (.error _, c) => (none, (c.modifyProgram a ChannelProgram.abandon).raise)
      | (.ok _, c) => (none, c.raise) := by
  rw [scanDevice, hp]
  dsimp only
  generalize c.continueProgram now mem a true = continued
  obtain ⟨_ | _, _⟩ := continued <;> simp only [if_pos hend, if_pos hchain, if_pos hdevice]

theorem scanDevice_of_last {p : ChannelProgram} (hp : c.program? a = some p)
    (hend : p.status.contains .channelEnd = true) (hchain : p.flags.contains .commandChain = false)
    (hloading : c.loading = none) : c.scanDevice now mem a = (none, c.storeStatus a) := by
  rw [scanDevice, hp]
  dsimp only
  rw [if_pos hend, hchain, hloading, if_neg Bool.false_ne_true, if_neg (by simp)]

theorem scanDevice_of_quiet {p : ChannelProgram} (hp : c.program? a = some p) (hstatus : p.status = .none)
    (hpending : p.pending = .none) : c.scanDevice now mem a = (none, c) := by
  rw [scanDevice, hp]
  dsimp only
  rw [hstatus, hpending, if_neg (by decide)]
  exact if_neg Bool.false_ne_true

/-- The chain goes on with another command. -/
theorem Stands.scanDevice_given (h : Stands idle busy received before log (.given next e) c a s)
    (htime : c.schedule.time? a = none) (hends : Peripheral.EndsCommands idle busy kind)
    (hlogs : Peripheral.Logs received) (hdata : e.flags.contains .dataChain = false)
    (hchain : e.flags.contains .commandChain = true)
    (hentry : Progress.entryAt mem s.program.modified.next true = .given next' e') (hkind : kind e'.command) :
    (c.scanDevice now mem a).1 = none ∧ ∃ s',
      Stands idle busy received before (log ++ [e'.command]) (.given next' e') (c.scanDevice now mem a).2 a s' ∧
        Alert (.given next' e') (c.scanDevice now mem a).2 a := by
  obtain ⟨-, hflags, hidle, hended⟩ := h.ended htime
  obtain ⟨hok, place, s', hnext', hgave⟩ := gave_continueProgram now hends hlogs h.subchannel hidle htime
    hended.clean (hflags ▸ hdata) hentry hkind
  rw [scanDevice_of_chained h.program? hended.channelEnd hended.deviceEnd (hflags ▸ hchain)]
  generalize c.continueProgram now mem a true = continued at hok hgave ⊢
  obtain ⟨result, c'⟩ := continued
  obtain rfl : result = .ok () := hok
  have hstands : Stands idle busy received before (log ++ [e'.command]) (.given next' e') c' a s' := {
    subchannel := hgave.subchannel
    received := by rw [hgave.received, h.received]
    pending := hgave.stays.pending.trans (pending_modified.trans h.pending)
    loading := hgave.loading.trans h.loading
    queued := hgave.waiting.trans h.queued
    stage := .given (hgave.stays.next.trans hnext') hgave.stays.flags hgave.carries }
  exact ⟨rfl, s', hstands.spares .raise, fun _ => rfl⟩

/-- The chain cannot go on: the program is told so, and its status is left for the next scan. -/
theorem Stands.scanDevice_broken (now : Nat) (h : Stands idle busy received before log (.given next e) c a s)
    (htime : c.schedule.time? a = none) (hdata : e.flags.contains .dataChain = false)
    (hchain : e.flags.contains .commandChain = true)
    (hentry : Progress.entryAt mem s.program.modified.next true = .broken next') :
    (c.scanDevice now mem a).1 = none ∧ ∃ s',
      Stands idle busy received before log (.broken next') (c.scanDevice now mem a).2 a s' ∧
        Alert (.broken next') (c.scanDevice now mem a).2 a := by
  obtain ⟨-, hflags, -, hended⟩ := h.ended htime
  obtain ⟨q, hnext', hpending, hcheck, hend, hcontinued⟩ := continueProgram_of_broken now h.subchannel
    hended.clean (hflags ▸ hdata) hentry
  rw [scanDevice_of_chained h.program? hended.channelEnd hended.deviceEnd (hflags ▸ hchain), hcontinued]
  have hget : (c.modifyProgram a fun _ => q).raise.get? a = some { s with program := q } :=
    get?_modifyProgram_self (f := fun _ => q) h.subchannel
  have hbroken : Stage idle busy { s with program := q.abandon } none (.broken next') :=
    .broken hnext' rfl (hend hended.channelEnd) hcheck
  refine ⟨rfl, { s with program := q.abandon }, ?_, rfl⟩
  exact {
    subchannel := get?_modifyProgram_self hget
    received := h.received
    pending := hpending.trans h.pending
    loading := h.loading
    queued := h.queued
    stage := htime.symm ▸ hbroken }

/-- The status of a list is queued when its last command has ended. -/
theorem Stands.scanDevice_last (now : Nat) (mem : Memory)
    (h : Stands idle busy received before log (.given next e) c a s) (htime : c.schedule.time? a = none)
    (hroom : c.HasRoom a) (hlast : e.flags.contains .commandChain = false) :
    (c.scanDevice now mem a).1 = none ∧ ∃ s',
      Stands idle busy received before log (.ended next) (c.scanDevice now mem a).2 a s' := by
  obtain ⟨hnext, hflags, -, hended⟩ := h.ended htime
  rw [scanDevice_of_last h.program? hended.channelEnd (hflags ▸ hlast) h.loading]
  refine ⟨rfl, _, h.storeStatus ⟨s.program.status, s.program.count, ?_, hended⟩ hroom ?_⟩
  · rw [show c.waiting a = before from h.queued, hnext]
  · rw [htime]
    exact .ended rfl

/-- The status of a list that is wrong is queued. -/
theorem Stands.scanDevice_stopped (now : Nat) (mem : Memory)
    (h : Stands idle busy received before log (.broken next) c a s) (htime : c.schedule.time? a = none)
    (hroom : c.HasRoom a) :
    (c.scanDevice now mem a).1 = none ∧ ∃ s',
      Stands idle busy received before log (.stopped next) (c.scanDevice now mem a).2 a s' := by
  cases h.stageAt htime with
  | broken hnext hflags hend hcheck =>
    have hlast : s.program.flags.contains .commandChain = false := by
      rw [hflags]
      decide
    rw [scanDevice_of_last h.program? hend hlast h.loading]
    refine ⟨rfl, _, h.storeStatus ⟨s.program.status, s.program.count, ?_, hcheck⟩ hroom ?_⟩
    · rw [show c.waiting a = before from h.queued, hnext]
    · rw [htime]
      exact .stopped rfl

/-- A list that has ended is left alone. -/
theorem Stands.scanDevice_over (h : Stands idle busy received before log progress c a s)
    (hstatus : s.program.status = .none) : c.scanDevice now mem a = (none, c) :=
  scanDevice_of_quiet h.program? hstatus h.pending

/-- A look at the device of a list takes it one doubleword further. -/
theorem Stands.scanDevice (now : Nat) (h : Stands idle busy received before log progress c a s)
    (htime : c.schedule.time? a = none) (hends : Peripheral.EndsCommands idle busy kind)
    (hlogs : Peripheral.Logs received) (hroom : c.HasRoom a)
    (hdata : ∀ next e, progress = .given next e → e.flags.contains .dataChain = false)
    (hkind : ∀ next e, progress.advance mem (s.program.status.contains .modifier) = .given next e → kind e.command) :
    (c.scanDevice now mem a).1 = none ∧ ∃ s', Stands idle busy received before
      (log ++ (progress.advance mem (s.program.status.contains .modifier)).command?.toList)
      (progress.advance mem (s.program.status.contains .modifier)) (c.scanDevice now mem a).2 a s' ∧
      Alert (progress.advance mem (s.program.status.contains .modifier)) (c.scanDevice now mem a).2 a := by
  cases progress with
  | given next e =>
    obtain ⟨hnext, -⟩ := h.ended htime
    rw [Progress.advance, ← hnext, ← next_modified] at hkind ⊢
    cases hchain : e.flags.contains .commandChain with
    | false =>
      obtain ⟨hnone, s', hstands⟩ := h.scanDevice_last now mem htime hroom hchain
      rw [if_neg Bool.false_ne_true, hnext]
      exact ⟨hnone, s', (List.append_nil log).symm ▸ hstands, trivial⟩
    | true =>
      rw [if_pos rfl]
      rw [hchain, if_pos rfl] at hkind
      obtain ⟨next', e', hentry⟩ | ⟨next', hentry⟩ :=
        Progress.entryAt_cases mem s.program.modified.next true
      · rw [hentry]
        exact h.scanDevice_given htime hends hlogs (hdata next e rfl) hchain hentry (hkind next' e' hentry)
      · obtain ⟨hnone, s', hstands, halert⟩ :=
          h.scanDevice_broken now htime (hdata next e rfl) hchain hentry
        rw [hentry]
        exact ⟨hnone, s', (List.append_nil log).symm ▸ hstands, halert⟩
  | broken next =>
    obtain ⟨hnone, s', hstands⟩ := h.scanDevice_stopped now mem htime hroom
    exact ⟨hnone, s', (List.append_nil log).symm ▸ hstands, trivial⟩
  | ended next =>
    cases h.stageAt htime with
    | ended hstatus =>
      rw [h.scanDevice_over hstatus]
      exact ⟨rfl, s, (List.append_nil log).symm ▸ h, trivial⟩
  | stopped next =>
    cases h.stageAt htime with
    | stopped hstatus =>
      rw [h.scanDevice_over hstatus]
      exact ⟨rfl, s, (List.append_nil log).symm ▸ h, trivial⟩

/-- A scan takes a list one doubleword further, if its device is not in the middle of a command. -/
theorem Stands.scan (h : Stands idle busy received before log progress c a s) (halert : Alert progress c a)
    (htime : c.schedule.time? a = none) (hends : Peripheral.EndsCommands idle busy kind)
    (hlogs : Peripheral.Logs received) (hroom : (c.turn now mem a).HasRoom a)
    (hdata : ∀ next e, progress = .given next e → e.flags.contains .dataChain = false)
    (hkind : ∀ next e, progress.advance mem (s.program.status.contains .modifier) = .given next e → kind e.command) :
    ∃ s', Stands idle busy received before
      (log ++ (progress.advance mem (s.program.status.contains .modifier)).command?.toList)
      (progress.advance mem (s.program.status.contains .modifier)) (c.scan now mem).2 a s' ∧
      Alert (progress.advance mem (s.program.status.contains .modifier)) (c.scan now mem).2 a := by
  cases hraised : c.raised with
  | true =>
    have hspares := (spares_before now mem a h.loading).2
    have hstands : Stands idle busy received before log progress { c with raised := false } a s :=
      ⟨h.subchannel, h.received, h.pending, h.loading, h.queued, h.stage⟩
    obtain ⟨hnone, s', hstands', halert'⟩ :=
      (hstands.spares hspares).scanDevice now (hspares.time.trans htime) hends hlogs hroom hdata hkind
    have hafter := scan_turn hraised h.loading (by rw [h.subchannel]; rfl) hnone hstands'.loading
    exact ⟨s', hstands'.spares hafter, halert'.spares hafter⟩
  | false =>
    -- Without the signal nothing is looked at, and that happens only when the list is over.
    have hscan : c.scan now mem = (none, c) := by
      rw [Channels.scan, hraised]
      rfl
    rw [hscan]
    cases progress with
    | given next e =>
      rw [halert htime] at hraised
      cases hraised
    | broken next =>
      rw [show c.raised = true from halert] at hraised
      cases hraised
    | ended next => exact ⟨s, (List.append_nil log).symm ▸ h, trivial⟩
    | stopped next => exact ⟨s, (List.append_nil log).symm ▸ h, trivial⟩

/-! ### A start -/

omit [Peripheral δ ω] in
/-- Nothing of a program before is left in one that is set up. -/
theorem started_new (a : DeviceAddress) (first : Address) :
    (started a first).status.hasError = false ∧ (started a first).flags.contains .dataChain = false ∧
      (started a first).modified = started a first :=
  ⟨show ChannelStatus.none.hasError = false by decide, show CommandFlags.none.contains .dataChain = false by decide,
    if_neg (show ¬ChannelStatus.none.contains .modifier = true by decide)⟩

theorem launch_of_ok {c' : Channels δ ω} (h : c.continueProgram now mem a false = (.ok (), c'))
    (hquiet : ∀ p, c'.program? a = some p → p.status.contains .programInterrupt = false) :
    (c.launch now mem a).2 = c' := by
  rw [launch, h]
  dsimp only
  have hasked : (c'.program? a).any (fun p => p.status.contains .programInterrupt) = false := by
    cases hp : c'.program? a with
    | none => rfl
    | some p => exact hquiet p hp
  rw [hasked]
  cases (c'.program? a).bind ChannelProgram.command <;> rfl

/-- A list that begins with a doubleword that is right. -/
theorem launch_of_given {c₀ : Channels δ ω} {device : δ} (hends : Peripheral.EndsCommands idle busy kind)
    (hlogs : Peripheral.Logs received) (hs : c₀.get? a = some ⟨device, started a first⟩) (hidle : idle device)
    (htime : c₀.schedule.time? a = none) (hloading : c₀.loading = none)
    (hentry : Progress.entryAt mem first false = .given next e) (hkind : kind e.command)
    (hquiet : e.flags.contains .programInterrupt = false) :
    ∃ s', Stands idle busy received (c₀.waiting a) (received device ++ [e.command]) (.given next e)
      (c₀.launch now mem a).2 a s' ∧ Alert (.given next e) (c₀.launch now mem a).2 a := by
  obtain ⟨hclean, hdata, hmodified⟩ := started_new a first
  obtain ⟨hok, place, s', hnext, hgave⟩ := gave_continueProgram now hends hlogs hs
    hidle htime hclean hdata (by rw [hmodified]; exact hentry) hkind
  dsimp only at hgave
  obtain ⟨c', hcontinued⟩ : ∃ c', c₀.continueProgram now mem a false = (.ok (), c') := ⟨_, Prod.ext hok rfl⟩
  rw [hcontinued, hmodified] at hgave
  have hnothing : s'.program.status.contains .programInterrupt = false := hgave.quiet (by
    unfold take
    dsimp only
    rw [hquiet]
    exact show ChannelStatus.none.contains .programInterrupt = false by decide)
  rw [launch_of_ok hcontinued fun p hp => by
    rw [program?, hgave.subchannel] at hp
    cases hp
    exact hnothing]
  refine ⟨s', ?_, hgave.raised⟩
  exact {
    subchannel := hgave.subchannel
    received := hgave.received
    pending := hgave.stays.pending
    loading := hgave.loading.trans hloading
    queued := hgave.waiting
    stage := .given (hgave.stays.next.trans hnext) hgave.stays.flags hgave.carries }

/-- A list that is wrong from the beginning. -/
theorem launch_of_broken {c₀ : Channels δ ω} {device : δ} (now : Nat) (idle busy : δ → Prop) (received : δ → List Byte)
    (hs : c₀.get? a = some ⟨device, started a first⟩) (htime : c₀.schedule.time? a = none)
    (hloading : c₀.loading = none) (hroom : c₀.HasRoom a)
    (hentry : Progress.entryAt mem first false = .broken next) :
    ∃ s', Stands idle busy received (c₀.waiting a) (received device) (.stopped next) (c₀.launch now mem a).2 a s' := by
  obtain ⟨hclean, hdata, hmodified⟩ := started_new a first
  obtain ⟨q, hnext, -, hcheck, -, hcontinued⟩ := continueProgram_of_broken now
    hs hclean hdata (by rw [hmodified]; exact hentry)
  have hget : (c₀.modifyProgram a fun _ => q).raise.get? a = some ⟨device, q⟩ :=
    get?_modifyProgram_self (f := fun _ => q) hs
  have hget' := get?_modifyProgram_self (f := fun p : ChannelProgram => { p.abandon with pending := .none }) hget
  rw [launch, hcontinued]
  refine ⟨_, {
    subchannel := get?_storeStatus hget'
    received := rfl
    pending := rfl
    loading := storeStatus_keeps.2.trans hloading
    queued := ⟨q.status, q.count, ?_, hcheck⟩
    stage := ?_ }⟩
  · rw [storeStatus_of_room (congrArg _ hget') hroom, ← hnext]
    rfl
  · have hschedule : ∀ f : ChannelProgram → ChannelProgram,
        ((c₀.modifyProgram a fun _ => q).raise.modifyProgram a f).schedule = c₀.schedule := fun _ => rfl
    rw [storeStatus_keeps.1, hschedule, htime]
    exact .stopped rfl

/-- A list begins with its first doubleword, and is reported at once when that is wrong. -/
theorem stands_startIo (hends : Peripheral.EndsCommands idle busy kind) (hlogs : Peripheral.Logs received)
    (hs : c.get? a = some s) (hfree : Free s) (hwilling : Willing s now) (hidle : idle s.device)
    (htime : c.schedule.time? a = none) (hloading : c.loading = none) (hroom : c.HasRoom a)
    {mems : Nat → Memory} {modifiers : Nat → Bool} (hmems : mems 0 = c.echoed a first mem)
    (hfirst : ∀ next e, Progress.walk mems modifiers first 0 = .given next e →
      kind e.command ∧ e.flags.contains .programInterrupt = false) :
    ∃ s', Stands idle busy received (c.waiting a)
      (received s.device ++ (Progress.walk mems modifiers first 0).command?.toList)
      (Progress.walk mems modifiers first 0) (c.startIo now mem a first).2.1 a s' ∧
      Alert (Progress.walk mems modifiers first 0) (c.startIo now mem a first).2.1 a := by
  have hget : (c.prepared now a first s.device).get? a =
      some ⟨(Peripheral.startIo s.device now).device, started a first⟩ :=
    get?_modifyProgram_self (f := fun _ => started a first) (get?_absorb_self hs)
  have hidle' := hends.startIo s.device now hidle
  rw [startIo_of_willing hs hfree hwilling, ← hlogs.startIo s.device now]
  unfold Progress.walk at hfirst ⊢
  rw [hmems] at hfirst ⊢
  dsimp only [Prod.map_snd]
  obtain ⟨next, e, hentry⟩ | ⟨next, hentry⟩ :=
    Progress.entryAt_cases (c.echoed a first mem) first false
  · rw [hentry] at hfirst ⊢
    obtain ⟨hkind, hquiet⟩ := hfirst next e rfl
    exact launch_of_given hends hlogs hget hidle' htime hloading hentry hkind hquiet
  · rw [hentry]
    obtain ⟨s', hstands⟩ := launch_of_broken now idle busy received hget htime
      hloading hroom hentry
    exact ⟨s', (List.append_nil (received _)).symm ▸ hstands, trivial⟩

end Concept32.Channels
