import Concept32.Proofs.Channels.CommandList
import Concept32.Proofs.Channels.Ending
import Concept32.Proofs.Channels.Neighbours
import Concept32.Proofs.Channels.Starting

/-!
# Going through a command list

How far the channels have come with a list, and what a poll and a scan make of that: a poll lets the device end its
command, and a scan then gives it the next one, or queues the status of the list when it has ended or is wrong.
-/

namespace Concept32

/-- Devices that end every command of a kind, at once or in one service, and never in another way. In the states `idle`
no command is in progress, in the states `busy` one waits for its service. -/
structure Peripheral.EndsCommands {δ ω : Type} [Peripheral δ ω] (idle busy : δ → Prop) (kind : Byte → Prop) : Prop where
  startIo : ∀ d now, idle d → idle (Peripheral.startIo d now).device
  answers : ∀ d now command, idle d → kind command →
    match (Channels.reactionTo d now command : Reaction δ ω CommandResponse).answer with
    | .done status => status.EndsWell ∧ idle (Channels.reactionTo d now command).device
    | .accepted _ => busy (Channels.reactionTo d now command).device
  service : ∀ d now, busy d → (Peripheral.service d now).EndsCommand fun r => idle r.1 ∧ r.2 = none

/-- The states of the devices tell which commands they have been given. -/
structure Peripheral.Logs {δ ω : Type} [Peripheral δ ω] (received : δ → List Byte) : Prop where
  startIo : ∀ d now, received (Peripheral.startIo d now).device = received d
  startCommand : ∀ d now command, received (Peripheral.startCommand d now command).device = received d ++ [command]
  service : ∀ d now, (Peripheral.service d now).Ends fun r => received r.1 = received d

namespace Channels
open ChannelProgram
variable {δ ω : Type} {c c' : Channels δ ω} {a : DeviceAddress} {now : Nat} {mem : Memory} {s s' : Subchannel δ}
  {idle busy : δ → Prop} {kind : Byte → Prop} {received : δ → List Byte} {command : Byte} {next : Address} {e : Entry}
  {log : List Byte} {before after : List StatusDoubleword} {progress : Progress}

/-- The channel of a device has room for another status doubleword. -/
def HasRoom (c : Channels δ ω) (a : DeviceAddress) : Prop :=
  (c.channel a.channel).queue.length < RealChannel.queueLimit

theorem waiting_queueStatus {status : ChannelStatus} {count : Half} (hroom : c.HasRoom a) :
    (c.queueStatus a (.of a next status count)).waiting a = c.waiting a ++ [.of a next status count] := by
  have hself : (StatusDoubleword.of a next status count).isOf a = true := StatusDoubleword.isOf_of.mpr rfl
  unfold waiting queueStatus
  rw [channel_setChannel, if_pos rfl, RealChannel.push, if_pos (show _ < _ from hroom)]
  simp [hself]

/-! ### How far a list has come -/

/-- The command of a program has ended well on the channel and on the device. -/
structure Ended (status : ChannelStatus) : Prop where
  channelEnd : status.contains .channelEnd = true
  deviceEnd : status.contains .deviceEnd = true
  clean : status.hasError = false

/-- A device carries out a command: it will be serviced for it at a time, or it has ended it already. -/
inductive Carries (idle busy : δ → Prop) (s : Subchannel δ) : (time : Option Nat) → Prop
  | later {due : Nat} (hbusy : busy s.device) : Carries idle busy s (some due)
  | ended (hidle : idle s.device) (hstatus : Ended s.program.status) : Carries idle busy s none

/-- What the program and the device have of a list, and when the device wants service for it. -/
inductive Stage (idle busy : δ → Prop) (s : Subchannel δ) : (time : Option Nat) → Progress → Prop
  | given {time : Option Nat} {next : Address} {e : Entry} (hnext : s.program.next = next)
      (hflags : s.program.flags = e.flags) (hcarries : Carries idle busy s time) :
      Stage idle busy s time (.given next e)
  | broken {next : Address} (hnext : s.program.next = next) (hflags : s.program.flags = .none)
      (hend : s.program.status.contains .channelEnd = true) (hcheck : s.program.status.contains .programCheck = true) :
      Stage idle busy s none (.broken next)
  | ended {next : Address} (hstatus : s.program.status = .none) : Stage idle busy s none (.ended next)
  | stopped {next : Address} (hstatus : s.program.status = .none) : Stage idle busy s none (.stopped next)

/-- What a list has had queued: nothing until it has ended or was stopped, and then one doubleword that tells where and
how. -/
def Queued (a : DeviceAddress) (before after : List StatusDoubleword) : Progress → Prop
  | .given _ _ => after = before
  | .broken _ => after = before
  | .ended next => ∃ status count, after = before ++ [.of a next status count] ∧ Ended status
  | .stopped next => ∃ status count, after = before ++ [.of a next status count] ∧ status.contains .programCheck = true

/-- The channels have come so far with the list of a device: it has been given the commands of `log`, and of its status
there waited `before` when it was started. -/
structure Stands (idle busy : δ → Prop) (received : δ → List Byte) (before : List StatusDoubleword) (log : List Byte)
    (progress : Progress) (c : Channels δ ω) (a : DeviceAddress) (s : Subchannel δ) : Prop where
  subchannel : c.get? a = some s
  received : received s.device = log
  pending : s.program.pending = .none
  loading : c.loading = none
  queued : Queued a before (c.waiting a) progress
  stage : Stage idle busy s (c.schedule.time? a) progress

/-- A list that goes on without a service of its device will be looked at. -/
def Alert (progress : Progress) (c : Channels δ ω) (a : DeviceAddress) : Prop :=
  match progress with
  | .given _ _ => c.schedule.time? a = none → c.raised = true
  | .broken _ => c.raised = true
  | _ => True

theorem Stands.spares (h : Stands idle busy received before log progress c a s) (hspares : Spares a c c') :
    Stands idle busy received before log progress c' a s where
  subchannel := hspares.subchannel.trans h.subchannel
  received := h.received
  pending := h.pending
  loading := hspares.loading.trans h.loading
  queued := hspares.waiting ▸ h.queued
  stage := hspares.time ▸ h.stage

theorem Alert.spares (h : Alert progress c a) (hspares : Spares a c c') : Alert progress c' a := by
  cases progress with
  | given next e => exact fun htime => hspares.raised (h (hspares.time.symm.trans htime))
  | broken next => exact hspares.raised h
  | ended next => exact h
  | stopped next => exact h

theorem Stands.program? (h : Stands idle busy received before log progress c a s) : c.program? a = some s.program := by
  rw [Channels.program?, h.subchannel]
  rfl

theorem Stands.stageAt {time : Option Nat} (h : Stands idle busy received before log progress c a s)
    (htime : c.schedule.time? a = time) : Stage idle busy s time progress :=
  htime ▸ h.stage

/-- A device that is not serviced any more has ended its command. -/
theorem Stands.ended (h : Stands idle busy received before log (.given next e) c a s)
    (htime : c.schedule.time? a = none) :
    s.program.next = next ∧ s.program.flags = e.flags ∧ idle s.device ∧ Ended s.program.status := by
  cases h.stageAt htime with
  | given hnext hflags hcarries =>
    cases hcarries with
    | ended hidle hstatus => exact ⟨hnext, hflags, hidle, hstatus⟩

/-! ### Status is queued -/

/-- The status of a program that has ended is queued, where there is room for it. -/
theorem storeStatus_of_room {p : ChannelProgram} (hp : c.program? a = some p) (hroom : c.HasRoom a) :
    (c.storeStatus a).waiting a = c.waiting a ++ [.of a p.next p.status p.count] := by
  rw [storeStatus, hp]
  exact waiting_queueStatus hroom

theorem get?_storeStatus (hs : c.get? a = some s) :
    (c.storeStatus a).get? a = some { s with program := stored s.program } := by
  have hp : c.program? a = some s.program := by rw [program?, hs]; rfl
  rw [storeStatus, hp]
  dsimp only
  exact get?_modifyProgram_self (c := c.queueStatus a _) (f := stored) hs

theorem storeStatus_keeps : (c.storeStatus a).schedule = c.schedule ∧ (c.storeStatus a).loading = c.loading := by
  rw [storeStatus]
  split <;> exact ⟨rfl, rfl⟩

/-- What is left of a list when its status has been queued. -/
theorem Stands.storeStatus {progress' : Progress} (h : Stands idle busy received before log progress c a s)
    (hqueued : Queued a before (c.waiting a ++ [.of a s.program.next s.program.status s.program.count]) progress')
    (hroom : c.HasRoom a)
    (hstage : Stage idle busy { s with program := stored s.program } (c.schedule.time? a) progress') :
    Stands idle busy received before log progress' (c.storeStatus a) a { s with program := stored s.program } where
  subchannel := get?_storeStatus h.subchannel
  received := h.received
  pending := h.pending
  loading := storeStatus_keeps.2.trans h.loading
  queued := by
    rw [storeStatus_of_room h.program? hroom]
    exact hqueued
  stage := by
    rw [storeStatus_keeps.1]
    exact hstage

/-! ### A command is given -/

/-- What a program keeps of its status when its command is given. -/
def carriedOf (p : ChannelProgram) : ChannelStatus :=
  if p.status.contains .programInterrupt then .programInterrupt else .none

theorem ended_answer {status : ChannelStatus} {p : ChannelProgram} (h : status.EndsWell) :
    Ended ((status.union (carriedOf p)).union .channelEnd) := by
  have hcarried : (carriedOf p).hasError = false := by
    unfold carriedOf
    split <;> rfl
  refine ⟨ChannelStatus.contains_union, ?_, ?_⟩
  · exact ChannelStatus.contains_union_of_left (ChannelStatus.contains_union_of_left h.deviceEnd)
  · rw [ChannelStatus.hasError_union, ChannelStatus.hasError_union, h.clean, hcarried]
    rfl

theorem answered_of_endsWell {carried status : ChannelStatus} (h : status.EndsWell) :
    c.answered now a carried (.done status) = (.ok (), c.raise.modifyProgram a fun p =>
      { p with status := (status.union carried).union .channelEnd, phase := .newCommand, command := none }) := by
  unfold answered
  dsimp only
  rw [h.goesOn, h.ends]
  rfl

/-- A command was given once, and the list stands at it. -/
structure Gave (idle busy : δ → Prop) (received : δ → List Byte) (command : Byte) (c : Channels δ ω) (s : Subchannel δ)
    (c' : Channels δ ω) (a : DeviceAddress) (s' : Subchannel δ) : Prop where
  subchannel : c'.get? a = some s'
  received : received s'.device = received s.device ++ [command]
  stays : s.program.Stays s'.program
  waiting : c'.waiting a = c.waiting a
  loading : c'.loading = c.loading
  carries : Carries idle busy s' (c'.schedule.time? a)
  raised : c'.schedule.time? a = none → c'.raised = true
  quiet : s.program.status.contains .programInterrupt = false → s'.program.status.contains .programInterrupt = false

variable [Peripheral δ ω]

/-- A command that the device ends well is not refused before it reaches the device. -/
theorem received_reactionTo {d : δ} (now : Nat) (hlogs : Peripheral.Logs received)
    (hends : Peripheral.EndsCommands idle busy kind) (hidle : idle d) (hkind : kind command) :
    received (reactionTo d now command).device = received d ++ [command] := by
  have hanswer := hends.answers d now command hidle hkind
  unfold reactionTo at hanswer ⊢
  split
  · next hrefused =>
    rw [if_pos hrefused] at hanswer
    exact absurd hanswer.1 (by decide)
  · exact hlogs.startCommand d now command

theorem gave_issue (now : Nat) (hends : Peripheral.EndsCommands idle busy kind) (hlogs : Peripheral.Logs received)
    (hs : c.get? a = some s) (hidle : idle s.device) (hkind : kind command) (htime : c.schedule.time? a = none) :
    (c.issue now a command).1 = .ok () ∧ ∃ s', Gave idle busy received command c s (c.issue now a command).2 a s' := by
  have hanswer := hends.answers s.device now command hidle hkind
  have hreceived := received_reactionTo now hlogs hends hidle hkind
  have haddressed : Spares a c (c.addressed a command s.program.dataAddress) := spares_addressed
  have hdevice := get?_absorb_self (r := reactionTo s.device now command) (haddressed.subchannel.trans hs)
  have hissue : c.issue now a command = ((c.addressed a command s.program.dataAddress).absorb a
      (reactionTo s.device now command)).answered now a (carriedOf s.program) _ := issue_eq hs
  rw [hissue]
  generalize reactionTo s.device now command = r at hreceived hanswer hdevice
  generalize hgiven : (c.addressed a command s.program.dataAddress).absorb a r = c₁ at hdevice
  have htime₁ : c₁.schedule.time? a = none := by rw [← hgiven]; exact haddressed.time.trans htime
  have hwaiting : c₁.waiting a = c.waiting a := by rw [← hgiven]; exact haddressed.waiting
  have hloading : c₁.loading = c.loading := by rw [← hgiven]; exact haddressed.loading
  have hcarried : s.program.status.contains .programInterrupt = false → carriedOf s.program = .none := fun hno => by
    rw [carriedOf, hno]
    rfl
  cases hr : r.answer with
  | accepted delay =>
    rw [hr] at hanswer
    have hlater : (c₁.schedule.put a (now + delay)).time? a = some (now + delay) := by
      rw [Schedule.time?_put, if_pos rfl]
    refine ⟨rfl, _, {
      subchannel := get?_modifyProgram_self hdevice
      received := hreceived
      stays := ⟨rfl, rfl, rfl⟩
      waiting := hwaiting
      loading := hloading
      carries := (congrArg _ hlater).mpr (.later hanswer)
      raised := fun hnone => ?_
      quiet := fun hno => ?_ }⟩
    · cases hlater.symm.trans hnone
    · dsimp only
      rw [hcarried hno]
      rfl
  | done status =>
    rw [hr] at hanswer
    obtain ⟨hwell, hidle'⟩ := hanswer
    rw [answered_of_endsWell hwell]
    refine ⟨rfl, _, {
      subchannel := get?_modifyProgram_self hdevice
      received := hreceived
      stays := ⟨rfl, rfl, rfl⟩
      waiting := hwaiting
      loading := hloading
      carries := (congrArg _ htime₁).mpr (.ended hidle' (ended_answer hwell))
      raised := fun _ => rfl
      quiet := fun hno => ?_ }⟩
    dsimp only
    rw [hcarried hno, ChannelStatus.union_none]
    exact hwell.asksNothing

/-- A doubleword that is right gives its command to the device. -/
theorem continueProgram_of_given (now : Nat) {allowed : Bool} (hs : c.get? a = some s)
    (herror : s.program.status.hasError = false) (hchain : s.program.flags.contains .dataChain = false)
    (hentry : Progress.entryAt mem s.program.modified.next allowed = .given next e) :
    ∃ place, place + 8 = next ∧ c.continueProgram now mem a allowed =
      (c.modifyProgram a fun _ => s.program.modified.take place e).issue now a e.command := by
  obtain ⟨place, hplace, hfetch⟩ := fetch_of_given herror hchain hentry
  have hprogram : c.program? a = some s.program := by rw [program?, hs]; rfl
  refine ⟨place, hplace, ?_⟩
  unfold continueProgram
  rw [hprogram]
  dsimp only
  rw [hfetch]

/-- The list goes on at a doubleword that is right. -/
theorem gave_continueProgram (now : Nat) {allowed : Bool} (hends : Peripheral.EndsCommands idle busy kind)
    (hlogs : Peripheral.Logs received) (hs : c.get? a = some s) (hidle : idle s.device)
    (htime : c.schedule.time? a = none)
    (herror : s.program.status.hasError = false) (hchain : s.program.flags.contains .dataChain = false)
    (hentry : Progress.entryAt mem s.program.modified.next allowed = .given next e) (hkind : kind e.command) :
    (c.continueProgram now mem a allowed).1 = .ok () ∧ ∃ place s', place + 8 = next ∧
      Gave idle busy received e.command c { s with program := s.program.modified.take place e }
        (c.continueProgram now mem a allowed).2 a s' := by
  obtain ⟨place, hplace, hissue⟩ := continueProgram_of_given now hs herror hchain hentry
  have hget := get?_modifyProgram_self (f := fun _ => s.program.modified.take place e) hs
  obtain ⟨hok, s', hgave⟩ := gave_issue now hends hlogs hget hidle hkind htime
  rw [hissue]
  exact ⟨hok, place, s', hplace, { hgave with waiting := hgave.waiting, loading := hgave.loading }⟩

theorem continueProgram_of_broken (now : Nat) {allowed : Bool} (hs : c.get? a = some s)
    (herror : s.program.status.hasError = false) (hchain : s.program.flags.contains .dataChain = false)
    (hentry : Progress.entryAt mem s.program.modified.next allowed = .broken next) :
    ∃ q : ChannelProgram, q.next = next ∧ q.pending = s.program.pending ∧ q.status.contains .programCheck = true ∧
      (s.program.status.contains .channelEnd = true → q.status.contains .channelEnd = true) ∧
      c.continueProgram now mem a allowed = (.error q.status, (c.modifyProgram a fun _ => q).raise) := by
  obtain ⟨q, hfetch, hnext, hpending, hend⟩ := fetch_of_broken herror hchain hentry
  have hprogram : c.program? a = some s.program := by rw [program?, hs]; rfl
  refine ⟨q.addStatus .programCheck, hnext, hpending, ChannelStatus.contains_union,
    fun h => ChannelStatus.contains_union_of_left (hend h), ?_⟩
  unfold continueProgram
  rw [hprogram]
  dsimp only
  rw [hfetch]
  rfl

end Channels
end Concept32
