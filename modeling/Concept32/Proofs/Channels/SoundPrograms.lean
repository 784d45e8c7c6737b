import Concept32.Proofs.Channels.CommandList
import Concept32.Proofs.Channels.Ending
import Concept32.Proofs.Channels.Operations
import Concept32.Proofs.Channels.Presenting
import Concept32.Proofs.Channels.Resetting
import Concept32.Proofs.Channels.Starting

/-!
# Sound programs

A program without a command in progress is sound when no data are chained to it and a command is chained only to one
that has ended. A service keeps every program sound, and so does every instruction but for a command that its device
ends at once in the middle of its data, and for status that is taken from a chain.
-/

namespace Concept32
open EStateM

namespace ChannelProgram
variable {mem : Memory} {p q : ChannelProgram} {limit : Nat} {transferAllowed : Bool}

/-! ### Sound programs -/

/-- Without a command in progress no data are chained, and a command is chained only to one that has ended. -/
structure Sound (p : ChannelProgram) : Prop where
  data : p.command = none → p.flags.contains .dataChain = false
  chain : p.command = none → p.flags.contains .commandChain = true → p.status.contains .channelEnd = true

/-- The program is busy without a command, and has no status that a scan could go on from. -/
structure Stuck (p : ChannelProgram) : Prop where
  command : p.command = none
  busy : p.isBusy = true
  channelEnd : p.status.contains .channelEnd = false

namespace Sound

theorem of_command (h : p.command.isSome = true) : p.Sound where
  data hnone := by
    rw [hnone] at h
    cases h
  chain hnone := by
    rw [hnone] at h
    cases h

theorem of_flags (h : p.flags = .none) : p.Sound where
  data _ := by
    rw [h]
    rfl
  chain _ hchain := by
    rw [h] at hchain
    cases hchain

theorem command_of_chained (h : p.Sound) (hchain : p.flags.contains .dataChain = true) : p.command.isSome = true := by
  cases hcommand : p.command with
  | none => cases (h.data hcommand).symm.trans hchain
  | some command => rfl

/-- A program that has lost neither its command nor its flags, and nothing of its status. -/
theorem keep (h : p.Sound) (hcommand : q.command = p.command) (hflags : q.flags = p.flags)
    (hend : p.status.contains .channelEnd = true → q.status.contains .channelEnd = true) : q.Sound where
  data hnone := by
    rw [hflags]
    exact h.data (hcommand.symm.trans hnone)
  chain hnone hchain := by
    rw [hflags] at hchain
    exact hend (h.chain (hcommand.symm.trans hnone) hchain)

theorem remains (h : p.Sound) (hremains : p.Remains q) : q.Sound :=
  h.keep hremains.command hremains.flags (hremains.status _)

/-- A sound program that is busy has a command in progress, or another to go on to. -/
theorem of_busy (h : p.Sound) (hbusy : p.isBusy = true) :
    p.command.isSome = true ∨ (p.status.contains .channelEnd = true ∧ p.flags.contains .commandChain = true) := by
  unfold isBusy CommandFlags.chaining at hbusy
  cases hcommand : p.command with
  | some command => exact .inl rfl
  | none =>
    rw [hcommand, h.data hcommand] at hbusy
    have hchain : p.flags.contains .commandChain = true := by simpa using hbusy
    exact .inr ⟨h.chain hcommand hchain, hchain⟩

end Sound

/-! ### Going through a list -/

/-- The state in which a step ends. -/
def reached {α : Type} : Result ChannelStatus ChannelProgram α → ChannelProgram
  | .ok _ q => q
  | .error _ q => q

theorem Sound.chainData (h : p.Sound) : (reached (chainData mem limit p)).Sound := by
  induction limit generalizing p with
  | zero =>
    rw [ChannelProgram.chainData]
    split
    · exact h
    split
    · exact h
    · exact h.remains .addStatus
  | succ limit ih =>
    rw [ChannelProgram.chainData]
    split
    · exact h
    split
    · exact h
    · next hchain =>
      rw [Bool.not_eq_true', Bool.not_eq_false] at hchain
      -- The data are of a command in progress, and it stays in progress.
      have hbusy : p.command.isSome = true := h.command_of_chained hchain
      have hfetches := fetches mem true p
      generalize fetch mem true p = fetched at hfetches
      cases hfetches with
      | stopped _ _ hcommand _ =>
        refine .of_command ?_
        rw [reached, hcommand hchain]
        exact hbusy
      | continued _ hcommand _ _ =>
        refine ih (.of_command ?_)
        rw [hcommand]
        exact hbusy
      | given hnone _ _ => cases hnone.symm.trans hchain

/-- Passing over the rest of a list leaves no data chained, unless it finds an error. -/
theorem skipChain_ends (mem : Memory) (limit : Nat) (hcommand : p.command = none)
    (hend : p.status.contains .channelEnd = true) :
    (p.skipChain mem limit).command = none ∧ (p.skipChain mem limit).status.contains .channelEnd = true ∧
      ((p.skipChain mem limit).flags.contains .dataChain = false ∨ (p.skipChain mem limit).status.hasError = true) := by
  induction limit generalizing p with
  | zero =>
    rw [skipChain]
    split
    · next hchain => exact ⟨hcommand, hend, .inl (by simpa using hchain)⟩
    · exact ⟨hcommand, ChannelStatus.contains_union_of_left hend, .inr ChannelStatus.hasError_union_programCheck⟩
  | succ limit ih =>
    rw [skipChain]
    split
    · next hchain => exact ⟨hcommand, hend, .inl (by simpa using hchain)⟩
    · next hchain =>
      rw [Bool.not_eq_true', Bool.not_eq_false] at hchain
      have hfetches := fetches mem true p
      generalize fetch mem true p = fetched at hfetches
      cases hfetches with
      | stopped herror hend' hcommand' _ => exact ⟨(hcommand' hchain).trans hcommand, hend' hend, .inr herror⟩
      | continued _ hcommand' hend' _ =>
        dsimp only
        split
        · exact ih (hcommand'.trans hcommand) (hend' hend)
        · exact ⟨hcommand'.trans hcommand, ChannelStatus.contains_union_of_left (hend' hend),
            .inr ChannelStatus.hasError_union_length⟩
      | given hnone _ _ => cases hnone.symm.trans hchain

end ChannelProgram

/-! ### Programs while devices are serviced -/

namespace Transfer
open ChannelProgram
variable {mem : Memory} {p : ChannelProgram} {s : ChannelStatus} {t : Transfer}

/-- A program that was sound is sound. -/
def KeepsSound (p q : ChannelProgram) : Prop := p.Sound → q.Sound

instance : Carries KeepsSound where
  trans h h' := h' ∘ h
  remains h hp := hp.remains h
  chainData t hp := by
    have hreached : (reached (ChannelProgram.chainData t.memory ChannelProgram.dataChainLimit t.program)).Sound :=
      hp.chainData
    unfold Transfer.chainData Step.run
    dsimp only
    generalize ChannelProgram.chainData t.memory ChannelProgram.dataChainLimit t.program = moved at hreached
    cases moved with
    | ok more q => exact hreached
    | error s q => exact hreached

/-- A program whose command has ended is sound: its list is not continued, or it has another command to go on to. -/
theorem sound_ended : (ended mem s p).Sound := by
  have hskipped : ∀ q : ChannelProgram, q.command = none → q.status.contains .channelEnd = true →
      ({ q.skipChain mem dataChainLimit with
        flags := if (q.skipChain mem dataChainLimit).status.hasError then .none
          else (q.skipChain mem dataChainLimit).flags
        phase := .newCommand } : ChannelProgram).Sound := by
    intro q hcommand hend
    obtain ⟨-, hend', hchain⟩ := skipChain_ends mem dataChainLimit hcommand hend
    refine ⟨fun _ => ?_, fun _ _ => hend'⟩
    dsimp only
    split
    · rfl
    · next herror => exact hchain.resolve_right herror
  unfold ended
  refine hskipped _ ?_ ?_
  · split
    · split
      · rfl
      · rfl
    · split
      · rfl
      · rfl
  · have hend : (((p.addStatus .channelEnd).addStatus s).status).contains .channelEnd = true :=
      ChannelStatus.contains_union_of_left ChannelStatus.contains_union
    split
    · split
      · exact ChannelStatus.contains_union_of_left hend
      · exact hend
    · split
      · exact ChannelStatus.contains_union_of_left hend
      · exact hend

theorem sound_endCommand (h : t.program.Sound) : ((endCommand s).run t).2.program.Sound := by
  have hflush : KeepsSound t.program (flush.run t).2.program := Relates.flush t
  cases hstep : flush t with
  | error e t' =>
    have hend : endCommand s t = .ok () t' := by rw [endCommand, hstep]
    rw [run_of_error hstep] at hflush
    rw [run_of_ok hend]
    exact hflush h
  | ok u t' =>
    have hend : endCommand s t = .ok () ⟨ended t'.memory s t'.program, t'.memory⟩ := by rw [endCommand, hstep]
    rw [run_of_ok hend]
    exact sound_ended

theorem sound_receive {a : DeviceAddress} (h : p.Sound) : (p.receive a s).Sound := by
  unfold receive
  split
  · exact h.remains .addStatus
  · exact h.keep rfl rfl id

theorem sound : Connection.Keeps fun t => t.program.Sound where
  readByte t := Relates.readByte (R := KeepsSound) t
  writeByte _ t := Relates.writeByte (R := KeepsSound) t
  isComplete t := Relates.isComplete (R := KeepsSound) t
  endCommand _ _ := sound_endCommand
  receive _ _ _ := sound_receive

end Transfer

namespace Channels
open ChannelProgram
variable {δ ω : Type} {c c' : Channels δ ω} {a b : DeviceAddress} {now : Nat} {mem : Memory} {p : ChannelProgram}
  {l : List DeviceAddress}

/-- Every program is sound. -/
def AllSound (c : Channels δ ω) : Prop := ∀ a p, c.program? a = some p → p.Sound

theorem allSound_of_same (h : c.AllSound) (hsame : ∀ a, c'.program? a = c.program? a) : c'.AllSound := fun a p hp =>
  h a p ((hsame a).symm.trans hp)

/-- A change at one address keeps every program sound if that one is. -/
theorem allSound_iff_of_others (h : c.AllSound) (hothers : ∀ b, b ≠ a → c'.get? b = c.get? b) :
    c'.AllSound ↔ ∀ p, c'.program? a = some p → p.Sound := by
  refine ⟨fun h' => h' a, fun ha b p hp => ?_⟩
  by_cases hb : b = a
  · rw [hb] at hp
    exact ha p hp
  · rw [program?, hothers b hb] at hp
    exact h b p hp

theorem allSound_modifyProgram {f : ChannelProgram → ChannelProgram} (h : c.AllSound)
    (hf : ∀ p, p.Sound → (f p).Sound) : (c.modifyProgram a f).AllSound := by
  refine (allSound_iff_of_others h fun b hb => by rw [get?_modifyProgram, if_neg hb]).mpr fun p hp => ?_
  rw [program?_modifyProgram_self] at hp
  obtain ⟨q, hq, rfl⟩ := Option.map_eq_some_iff.mp hp
  exact hf q (h a q hq)

theorem allSound_absorb {α : Type} {r : Reaction δ ω α} (h : c.AllSound) : (c.absorb a r).AllSound := by
  refine allSound_of_same h fun b => ?_
  by_cases hb : b = a
  · rw [hb]
    cases hs : c.get? a with
    | none => rw [program?, program?, get?, absorb, Table.get?_modify, if_pos rfl, ← get?, hs]; rfl
    | some s => rw [program?_absorb hs, program?, hs]; rfl
  · rw [program?, (Touches.absorb : Touches 0 a c (c.absorb a r)).others b hb]
    rfl

theorem sound_stored (h : p.Sound) (hchain : p.command = none → p.flags.contains .commandChain = false) :
    (stored p).Sound where
  data := h.data
  chain hnone hchain' := by cases (hchain hnone).symm.trans hchain'

/-- Stored status is taken from a program, which then must not wait for it. -/
theorem allSound_storeStatus (h : c.AllSound) : (c.storeStatus a).AllSound ↔
    ∀ p, c.program? a = some p → p.command = none → p.flags.contains .commandChain = false := by
  refine (allSound_iff_of_others h (Touches.storeStatus : Touches 0 a c _).others).trans ?_
  cases hp : c.program? a with
  | none =>
    rw [storeStatus, hp]
    simp [hp]
  | some p =>
    rw [program?_storeStatus hp]
    refine ⟨fun hstored q hq hnone => ?_, fun hchain q hq => ?_⟩
    · cases hq
      by_contra hchain
      rw [Bool.not_eq_false] at hchain
      have hnot : ChannelStatus.none.contains .channelEnd = true := (hstored _ rfl).chain hnone hchain
      exact absurd hnot (by decide)
    · cases hq
      exact sound_stored (h a p hp) (hchain p rfl)

variable [Peripheral δ ω]

/-! ### Services -/

theorem allSound_serviceDevice (h : c.AllSound) : (c.serviceDevice now mem a).1.AllSound := by
  cases hs : c.get? a with
  | none =>
    rw [serviceDevice, hs]
    exact h
  | some s =>
    have hsound : s.program.Sound := h a s.program (by rw [program?, hs]; rfl)
    obtain ⟨t, ht, hprogram, -⟩ := serviceDevice_self now mem hs
    refine (allSound_iff_of_others h fun b hb => (spares_serviceDevice now mem hb.symm).subchannel).mpr fun p hp => ?_
    obtain rfl := Option.some.inj (hprogram.symm.trans hp)
    rw [ht]
    exact Transfer.sound.run (Peripheral.service s.device now) hsound

theorem allSound_pollUpTo {limit : Nat} (h : c.AllSound) : (pollUpTo now limit c mem).1.AllSound := by
  induction limit generalizing c mem with
  | zero => exact h
  | succ limit ih =>
    rw [pollUpTo]
    cases c.schedule.popDue? now with
    | none => exact h
    | some due => exact ih (allSound_serviceDevice (allSound_of_same h fun _ => rfl))

/-! ### Commands that end at once -/

/-- The program at an address as it is after its next command, when the device ends that at once and well. -/
def endsAtOnce? (c : Channels δ ω) (now : Nat) (mem : Memory) (a : DeviceAddress) (transferAllowed : Bool) :
    Option ChannelProgram :=
  (c.get? a).bind fun s =>
    match s.program.fetch mem transferAllowed with
    | .ok (some command) q =>
      match (reactionTo s.device now command : Reaction δ ω CommandResponse).answer with
      | .done status =>
        if !status.endsChain && status.intersects (ChannelStatus.channelEnd.union .deviceEnd) then
          let carried : ChannelStatus := if q.status.contains .programInterrupt then .programInterrupt else .none
          some { q with
            status := (status.union carried).union .channelEnd
            phase := .newCommand
            command := none }
        else none
      | .accepted _ => none
    | _ => none

/-- How a program goes on: it fails, has a command in progress, or its command has ended at once. -/
inductive Continues (p : ChannelProgram) : Except ChannelStatus Unit → ChannelProgram → Option ChannelProgram → Prop
  | failed {e : ChannelStatus} {q : ChannelProgram} : Continues p (.error e) q none
  | busy {q : ChannelProgram} (hcommand : p.Sound → q.command.isSome = true) : Continues p (.ok ()) q none
  | ended {q : ChannelProgram} (hcommand : q.command = none) (hend : q.status.contains .channelEnd = true) :
    Continues p (.ok ()) q (some q)

theorem continues (now : Nat) (mem : Memory) (allowed : Bool) (hp : c.program? a = some p) :
    ∃ q, (c.continueProgram now mem a allowed).2.program? a = some q ∧
      Continues p (c.continueProgram now mem a allowed).1 q (c.endsAtOnce? now mem a allowed) := by
  obtain ⟨s, hs, rfl⟩ := Option.map_eq_some_iff.mp hp
  rw [continueProgram, hp, endsAtOnce?, hs]
  dsimp only [Option.bind_some]
  have hchanged : ∀ q, (c.modifyProgram a fun _ => q).program? a = some q := fun q => by
    rw [program?_modifyProgram_self, hp]
    rfl
  have hfetches := fetches mem allowed s.program
  generalize s.program.fetch mem allowed = fetched at hfetches
  cases hfetches with
  | stopped _ _ _ _ => exact ⟨_, hchanged _, .failed⟩
  | continued hchain hcommand _ _ =>
    refine ⟨_, hchanged _, .busy fun hsound => ?_⟩
    rw [hcommand]
    exact hsound.command_of_chained hchain
  | @given command q _ hcommand _ =>
    dsimp only
    have hget := get?_modifyProgram_self (f := fun _ => q) hs
    have hanswered : ∀ (c' : Channels δ ω) (f : ChannelProgram → ChannelProgram), c'.program? a = some q →
        (c'.modifyProgram a f).program? a = some (f q) := fun c' f hq => by
      rw [program?_modifyProgram_self, hq]
      rfl
    rw [issue_eq hget]
    have habsorbed : (((c.modifyProgram a fun _ => q).addressed a command q.dataAddress).absorb a
        (reactionTo s.device now command : Reaction δ ω CommandResponse)).program? a = some q := by
      refine program?_absorb (s := { s with program := q }) ?_
      unfold addressed
      split
      · exact hget
      · exact hget
    dsimp only
    generalize ((c.modifyProgram a fun _ => q).addressed a command q.dataAddress).absorb a
      (reactionTo s.device now command : Reaction δ ω CommandResponse) = c' at habsorbed
    have hbusy : q.command.isSome = true := by
      rw [hcommand]
      rfl
    cases (reactionTo s.device now command : Reaction δ ω CommandResponse).answer with
    | accepted delay => exact ⟨_, hanswered _ _ habsorbed, .busy fun _ => hbusy⟩
    | done status =>
      dsimp only [answered]
      cases status.endsChain with
      | true => exact ⟨_, hanswered _ _ habsorbed, .failed⟩
      | false =>
        cases status.intersects (ChannelStatus.channelEnd.union .deviceEnd) with
        | true => exact ⟨_, hanswered _ _ habsorbed, .ended rfl ChannelStatus.contains_union⟩
        | false => exact ⟨_, hanswered _ _ habsorbed, .busy fun _ => hbusy⟩

/-! ### Scans -/

/-- When a look gives the program at an address its next command, that is not ended at once in the middle of its
data. -/
def LooksWell (c : Channels δ ω) (now : Nat) (mem : Memory) (a : DeviceAddress) : Prop :=
  ∀ p ∈ c.program? a, p.status.contains .channelEnd = true → p.flags.contains .commandChain = true →
    p.status.contains .deviceEnd = true → ∀ q ∈ c.endsAtOnce? now mem a true, q.flags.contains .dataChain = false

instance : Decidable (c.LooksWell now mem a) :=
  inferInstanceAs (Decidable (∀ p ∈ c.program? a, p.status.contains .channelEnd = true →
    p.flags.contains .commandChain = true → p.status.contains .deviceEnd = true →
      ∀ q ∈ c.endsAtOnce? now mem a true, q.flags.contains .dataChain = false))

theorem looksWell_congr (h : c'.get? a = c.get? a) : c'.LooksWell now mem a ↔ c.LooksWell now mem a := by
  unfold LooksWell program? endsAtOnce?
  rw [h]

/-- A program that another command was given to is sound, unless that ended at once in the middle of its data. -/
theorem Continues.sound_iff {r : Except ChannelStatus Unit} {q : ChannelProgram} {atOnce : Option ChannelProgram}
    (h : Continues p r q atOnce) (hp : p.Sound) (hr : r = .ok ()) :
    q.Sound ↔ ∀ q' ∈ atOnce, q'.flags.contains .dataChain = false := by
  cases h with
  | failed => cases hr
  | busy hcommand => exact iff_of_true (.of_command (hcommand hp)) fun _ h => by cases h
  | ended hcommand hend =>
    refine ⟨fun hq q' hq' => ?_, fun hdata => ⟨fun _ => hdata q rfl, fun _ _ => hend⟩⟩
    obtain rfl := Option.some.inj hq'
    exact hq.data hcommand

/-- A look that gives a program its next command. -/
theorem sound_scanDevice_of_given (hp : c.program? a = some p) (hsound : p.Sound)
    (hend : p.status.contains .channelEnd = true) (hchain : p.flags.contains .commandChain = true)
    (hdevice : p.status.contains .deviceEnd = true) :
    (∀ q, (c.scanDevice now mem a).2.program? a = some q → q.Sound) ↔
      ∀ q ∈ c.endsAtOnce? now mem a true, q.flags.contains .dataChain = false := by
  obtain ⟨q, hq, hcontinues⟩ := continues now mem true hp
  rw [scanDevice, hp]
  dsimp only
  rw [hend, hchain, hdevice]
  simp only [if_true]
  generalize c.continueProgram now mem a true = begun at hq hcontinues ⊢
  generalize c.endsAtOnce? now mem a true = atOnce at hcontinues ⊢
  obtain ⟨r, c'⟩ := begun
  cases r with
  | ok u =>
    refine Iff.trans ⟨fun hall => hall q hq, fun hqsound q' hq' => ?_⟩ (hcontinues.sound_iff hsound rfl)
    cases hq.symm.trans hq'
    exact hqsound
  | error e =>
    cases hcontinues with
    | failed =>
      refine iff_of_true (fun q' hq' => ?_) fun _ h => by cases h
      rw [program?_raise, program?_modifyProgram_self, hq] at hq'
      cases hq'
      exact .of_flags rfl

/-- A look at a program that is not given a command. -/
theorem sound_scanDevice_of_quiet (hp : c.program? a = some p) (hsound : p.Sound)
    (hquiet : ¬(p.status.contains .channelEnd = true ∧ p.flags.contains .commandChain = true ∧
      p.status.contains .deviceEnd = true)) :
    ∀ q, (c.scanDevice now mem a).2.program? a = some q → q.Sound := by
  have hone : ∀ {c' : Channels δ ω} {q : ChannelProgram}, c'.program? a = some q → q.Sound →
      ∀ q', c'.program? a = some q' → q'.Sound := by
    intro c' q hq hqsound q' hq'
    cases hq.symm.trans hq'
    exact hqsound
  rw [scanDevice, hp]
  dsimp only
  cases hend : p.status.contains .channelEnd with
  | false =>
    simp only [Bool.false_eq_true, if_false]
    split
    · refine hone (q := { p with pending := .none }) ?_ (hsound.keep rfl rfl id)
      rw [program?_modifyProgram_self, program?_queueStatus, hp]
      rfl
    · exact hone hp hsound
  | true =>
    cases hchain : p.flags.contains .commandChain with
    | true =>
      cases hdevice : p.status.contains .deviceEnd with
      | false => exact hone hp hsound
      | true => exact absurd ⟨hend, hchain, hdevice⟩ hquiet
    | false =>
      simp only [if_true, if_false, Bool.false_eq_true]
      have hunchained : ∀ {q : ChannelProgram}, q.command = p.command → q.flags = p.flags → q.Sound := fun hc hf =>
        ⟨fun hnone => by rw [hf]; exact hsound.data (hc.symm.trans hnone), fun _ hchain' => by
          rw [hf] at hchain'
          cases hchain.symm.trans hchain'⟩
      split
      · split
        · exact hone hp hsound
        · refine hone (q := { p with status := .none, pending := .none }) ?_ (hunchained rfl rfl)
          rw [program?_modifyProgram_self]
          exact congrArg _ hp
      · exact hone (program?_storeStatus hp) (hunchained rfl rfl)

theorem allSound_scanDevice (h : c.AllSound) :
    (c.scanDevice now mem a).2.AllSound ↔ (c.endsLoad a = false → c.LooksWell now mem a) := by
  refine (allSound_iff_of_others h fun b hb => get?_scanDevice hb.symm).trans ?_
  unfold LooksWell
  cases hp : c.program? a with
  | none =>
    rw [scanDevice, hp]
    exact iff_of_true (fun p hp' => by cases hp.symm.trans hp') fun _ p hp' => by cases hp'
  | some p =>
    have hsound : p.Sound := h a p hp
    by_cases hgiven : p.status.contains .channelEnd = true ∧ p.flags.contains .commandChain = true ∧
        p.status.contains .deviceEnd = true
    · obtain ⟨hend, hchain, hdevice⟩ := hgiven
      have hgoes : c.endsLoad a = false := by simp [endsLoad, hp, hchain]
      refine (sound_scanDevice_of_given hp hsound hend hchain hdevice).trans ?_
      exact ⟨fun hall _ _ _ _ _ _ => hall, fun hall => hall hgoes p rfl hend hchain hdevice⟩
    · refine iff_of_true (sound_scanDevice_of_quiet hp hsound hgiven) fun _ q hq hend hchain hdevice => ?_
      obtain rfl := Option.some.inj hq
      exact absurd ⟨hend, hchain, hdevice⟩ hgiven

theorem allSound_scanDevices (hl : l.Nodup) (h : c.AllSound) :
    (scanDevices now mem l c).2.AllSound ↔ ∀ a ∈ c.looked l, c.LooksWell now mem a := by
  induction l generalizing c with
  | nil => exact iff_of_true h (List.forall_mem_nil _)
  | cons b rest ih =>
    obtain ⟨hb, hrest⟩ := List.nodup_cons.mp hl
    have hfirst : (c.scanDevice now mem b).2.AllSound ↔ (c.endsLoad b = false → c.LooksWell now mem b) :=
      allSound_scanDevice h
    rw [scanDevices]
    cases hends : c.endsLoad b with
    | true =>
      obtain ⟨p, -, hprogress, -⟩ := (ends_scanDevice now mem hends).progress
      rw [looked_cons_of_ends hends]
      rw [hends] at hfirst
      generalize c.scanDevice now mem b = done at hprogress hfirst
      obtain ⟨progress, c'⟩ := done
      obtain rfl : progress = _ := hprogress
      exact iff_of_true (hfirst.mpr fun hgoes => by cases hgoes) (List.forall_mem_nil _)
    | false =>
      obtain ⟨hnone, hlook⟩ := looks_scanDevice now mem hends
      have hfirst' := hfirst.trans ⟨fun hwell => hwell hends, fun hwell _ => hwell⟩
      rw [looked_cons_of_goes hends, List.forall_mem_cons]
      generalize c.scanDevice now mem b = done at hnone hlook hfirst'
      obtain ⟨progress, c₁⟩ := done
      obtain rfl : progress = none := hnone
      have hsame : ∀ a ∈ c.looked rest, (c₁.LooksWell now mem a ↔ c.LooksWell now mem a) := fun a ha =>
        looksWell_congr (hlook.others a fun heq => hb (heq ▸ looked_subset ha))
      dsimp only
      by_cases hsound : c₁.AllSound
      · rw [ih hrest hsound, hlook.looked hb]
        exact ⟨fun hall => ⟨hfirst'.mp hsound, fun a ha => (hsame a ha).mp (hall a ha)⟩,
          fun hall a ha => (hsame a ha).mpr (hall.2 a ha)⟩
      · -- What the first look has left stays, since the others do not come back to its device.
        refine iff_of_false (fun hall => hsound ?_) fun hall => hsound (hfirst'.mpr hall.1)
        refine (allSound_iff_of_others h hlook.others).mpr fun p hp => hall b p ?_
        have hscanned : Scanned rest c₁ (scanDevices now mem rest c₁) := scanned_scanDevices now mem hrest
        have hkept := hscanned.beyond b (fun hmem => hb (looked_subset hmem)) fun hmem => absurd hmem hb
        rw [program?, hkept]
        exact hp

theorem allSound_scan (h : c.AllSound) : (c.scan now mem).2.AllSound ↔
    (c.raised = true → ∀ a ∈ c.looked c.addresses, c.LooksWell now mem a) := by
  rw [scan]
  cases hraised : c.raised with
  | false => exact iff_of_true h fun hraised => by cases hraised
  | true =>
    rw [if_pos rfl]
    refine (allSound_scanDevices (c := { c with raised := false }) c.nodup_addresses h).trans ?_
    exact ⟨fun hall _ => hall, fun hall => hall rfl⟩

/-! ### Starts -/

/-- The status is taken from a program after its first command. -/
theorem Continues.sound_taken_iff {q r : ChannelProgram} {atOnce : Option ChannelProgram}
    (h : Continues p (.ok ()) q atOnce) (hp : p.Sound) (hasked : q.status.contains .programInterrupt = true)
    (hcommand : r.command = q.command) (hflags : r.flags = q.flags) (hstatus : r.status = .none) :
    r.Sound ↔ ∀ q' ∈ atOnce, q'.flags.contains .dataChain = false ∧
      (q'.status.contains .programInterrupt = true → q'.flags.contains .commandChain = false) := by
  cases h with
  | busy hbusy =>
    refine iff_of_true (.of_command ?_) fun _ h => by cases h
    rw [hcommand]
    exact hbusy hp
  | ended hnone hend =>
    have hnone' : r.command = none := hcommand.trans hnone
    constructor
    · intro hsound q' hq'
      obtain rfl := Option.some.inj hq'
      rw [← hflags]
      refine ⟨hsound.data hnone', fun _ => ?_⟩
      by_contra hchain
      rw [Bool.not_eq_false] at hchain
      have hwaits := hsound.chain hnone' hchain
      rw [hstatus] at hwaits
      exact absurd hwaits (by decide)
    · intro hall
      obtain ⟨hdata, hchain⟩ := hall q rfl
      rw [← hflags] at hdata hchain
      exact ⟨fun _ => hdata, fun _ hchain' => by cases (hchain hasked).symm.trans hchain'⟩

/-- The status is left to a program after its first command. -/
theorem Continues.sound_left_iff {q : ChannelProgram} {atOnce : Option ChannelProgram}
    (h : Continues p (.ok ()) q atOnce) (hp : p.Sound) (hasked : q.status.contains .programInterrupt = false) :
    q.Sound ↔ ∀ q' ∈ atOnce, q'.flags.contains .dataChain = false ∧
      (q'.status.contains .programInterrupt = true → q'.flags.contains .commandChain = false) := by
  refine (h.sound_iff hp rfl).trans (forall_congr' fun q' => forall_congr' fun hq' => ?_)
  refine ⟨fun hdata => ⟨hdata, fun hasked' => ?_⟩, And.left⟩
  cases h with
  | busy hbusy => cases hq'
  | ended hnone hend =>
    obtain rfl := Option.some.inj hq'
    cases hasked.symm.trans hasked'

theorem allSound_launch (h : c.AllSound) (hp : c.program? a = some p) :
    (c.launch now mem a).2.AllSound ↔ ∀ q ∈ c.endsAtOnce? now mem a false,
      q.flags.contains .dataChain = false ∧
        (q.status.contains .programInterrupt = true → q.flags.contains .commandChain = false) := by
  obtain ⟨q, hq, hcontinues⟩ := continues now mem false hp
  have hothers : ∀ b, b ≠ a → (c.continueProgram now mem a false).2.get? b = c.get? b := fun b hb =>
    (spares_continueProgram hb.symm).subchannel
  have hsound : p.Sound := h a p hp
  rw [launch]
  generalize c.continueProgram now mem a false = begun at hothers hq hcontinues ⊢
  generalize c.endsAtOnce? now mem a false = atOnce at hcontinues ⊢
  obtain ⟨r, c'⟩ := begun
  -- The start leaves the other devices alone, so it comes to the program that it leaves here.
  have hleft : ∀ {c'' : Channels δ ω} {q' : ChannelProgram}, Touches 0 a c' c'' → c''.program? a = some q' →
      (c''.AllSound ↔ q'.Sound) := by
    intro c'' q' htouches hq'
    refine (allSound_iff_of_others h fun b hb => (htouches.others b hb).trans (hothers b hb)).trans ?_
    rw [hq']
    exact ⟨fun hall => hall q' rfl, fun hqsound _ hp' => Option.some.inj hp' ▸ hqsound⟩
  have hmodified : ∀ f : ChannelProgram → ChannelProgram, (c'.modifyProgram a f).program? a = some (f q) := fun f => by
    rw [program?_modifyProgram_self, hq]
    rfl
  cases r with
  | error e =>
    cases hcontinues with
    | failed =>
      refine (hleft (Touches.modifyProgram.trans .storeStatus) (program?_storeStatus (hmodified _))).trans ?_
      exact iff_of_true (.of_flags rfl) fun _ h => by cases h
  | ok u =>
    dsimp only
    rw [hq, Option.any_some]
    cases hasked : q.status.contains .programInterrupt with
    | true =>
      rw [if_pos rfl]
      refine (hleft (Touches.modifyProgram.trans .storeStatus) (program?_storeStatus (hmodified _))).trans ?_
      exact hcontinues.sound_taken_iff hsound hasked rfl rfl rfl
    | false =>
      rw [if_neg Bool.false_ne_true]
      rw [← hcontinues.sound_left_iff hsound hasked]
      split
      · exact hleft .refl hq
      · exact hleft .refl hq

/-- The first command of a program that is started is not ended at once in the middle of its data, and not when its
status is stored with another command to go on to. -/
def StartsWell (c : Channels δ ω) (now : Nat) (mem : Memory) (a : DeviceAddress) (first : Address) : Prop :=
  ∀ s ∈ c.get? a, Free s → Willing s now →
    ∀ q ∈ (c.prepared now a first s.device).endsAtOnce? now (c.echoed a first mem) a false,
      q.flags.contains .dataChain = false ∧
        (q.status.contains .programInterrupt = true → q.flags.contains .commandChain = false)

instance {first : Address} : Decidable (c.StartsWell now mem a first) :=
  have : ∀ s : Subchannel δ, Decidable (Free s) := fun _ => inferInstanceAs (Decidable (_ ∧ _))
  have : ∀ s : Subchannel δ, Decidable (Willing s now) := fun _ => inferInstanceAs (Decidable (_ = true))
  inferInstanceAs (Decidable (∀ s ∈ c.get? a, Free s → Willing s now →
    ∀ q ∈ (c.prepared now a first s.device).endsAtOnce? now (c.echoed a first mem) a false,
      q.flags.contains .dataChain = false ∧
        (q.status.contains .programInterrupt = true → q.flags.contains .commandChain = false)))

theorem sound_started {first : Address} : (started a first).Sound := .of_flags rfl

theorem allSound_startIo {first : Address} (h : c.AllSound) :
    (c.startIo now mem a first).2.1.AllSound ↔ c.StartsWell now mem a first := by
  unfold StartsWell
  cases hs : c.get? a with
  | none =>
    rw [startIo, hs]
    exact iff_of_true h fun s hs => by cases hs
  | some s =>
    by_cases hfree : Free s
    · by_cases hwilling : Willing s now
      · have hprepared : (c.prepared now a first s.device).AllSound :=
          allSound_modifyProgram (allSound_absorb h) fun _ _ => sound_started
        have hprogram : (c.prepared now a first s.device).program? a = some (started a first) := by
          rw [prepared, program?_modifyProgram_self, program?_absorb hs]
          rfl
        rw [startIo_of_willing hs hfree hwilling]
        refine (allSound_launch hprepared hprogram).trans ?_
        refine ⟨fun hall s' hs' _ _ => ?_, fun hall => hall s rfl hfree hwilling⟩
        obtain rfl := Option.some.inj hs'
        exact hall
      · rw [startIo_of_not_willing hs hfree hwilling]
        refine iff_of_true ?_ fun s' hs' _ hwilling' => absurd (Option.some.inj hs' ▸ hwilling') hwilling
        -- A program that is free has nothing that could be taken from it.
        have hstill : s.program.command = none ∧ s.program.flags.contains .commandChain = false := by
          have hidle := hfree.2
          unfold ChannelProgram.isBusy CommandFlags.chaining at hidle
          simp only [Bool.or_eq_false_iff, Option.isSome_eq_false_iff, Option.isNone_iff_eq_none] at hidle
          exact ⟨hidle.1, hidle.2.2⟩
        refine (allSound_iff_of_others (allSound_absorb h) (Touches.modifyProgram : Touches 0 a _ _).others).mpr
          fun p hp => ?_
        rw [program?_modifyProgram_self, program?_absorb hs] at hp
        obtain rfl := Option.some.inj hp
        have hsound : s.program.Sound := h a s.program (by rw [program?, hs]; rfl)
        exact ⟨hsound.data, fun _ hchain => by cases hstill.2.symm.trans hchain⟩
    · obtain ⟨condition, -, heq⟩ := startIo_of_not_free now hs hfree
      rw [heq]
      exact iff_of_true h fun s' hs' hfree' => absurd (Option.some.inj hs' ▸ hfree') hfree

/-- The program at address zero as it is put up on the device from which the machine is loaded. -/
def loadable (c : Channels δ ω) (a : DeviceAddress) : Channels δ ω :=
  (c.setChannel a.channel .idle).modifyProgram a fun _ => started a 0

/-- The first command of the program that loads the machine is not ended at once in the middle of its data. -/
def LoadsWell (c : Channels δ ω) (now : Nat) (mem : Memory) (a : DeviceAddress) : Prop :=
  c.isAttached a = true → ∀ q ∈ (c.loadable a).endsAtOnce? now mem a false, q.flags.contains .dataChain = false

instance : Decidable (c.LoadsWell now mem a) :=
  inferInstanceAs (Decidable (c.isAttached a = true →
    ∀ q ∈ (c.loadable a).endsAtOnce? now mem a false, q.flags.contains .dataChain = false))

theorem allSound_boot (h : c.AllSound) : (c.boot now mem a).2.AllSound ↔ c.LoadsWell now mem a := by
  unfold LoadsWell
  cases hattached : c.isAttached a with
  | false =>
    rw [boot, hattached]
    refine iff_of_true ?_ fun hattached => by cases hattached
    split
    · exact h
    · exact h
  | true =>
    have hthere : c.contains a = true := by
      rw [isAttached, Option.any_eq_true] at hattached
      obtain ⟨s, hs, -⟩ := hattached
      rw [contains, hs]
      rfl
    obtain ⟨s, hs⟩ := Option.isSome_iff_exists.mp hthere
    have hloadable : (c.loadable a).AllSound :=
      allSound_modifyProgram (allSound_of_same h fun _ => rfl) fun _ _ => sound_started
    have hprogram : (c.loadable a).program? a = some (started a 0) := by
      rw [loadable, program?_modifyProgram_self]
      exact congrArg (fun s => (Option.map Subchannel.program s).map _) hs
    obtain ⟨q, hq, hcontinues⟩ := continues now mem false hprogram
    have hothers : ∀ b, b ≠ a → ((c.loadable a).continueProgram now mem a false).2.get? b = (c.loadable a).get? b :=
      fun b hb => (spares_continueProgram hb.symm).subchannel
    rw [boot, hthere, hattached, ← loadable]
    simp only [Bool.not_true, Bool.false_eq_true, if_false, true_implies]
    generalize (c.loadable a).continueProgram now mem a false = begun at hothers hq hcontinues ⊢
    generalize (c.loadable a).endsAtOnce? now mem a false = atOnce at hcontinues ⊢
    obtain ⟨r, c'⟩ := begun
    cases r with
    | error e =>
      cases hcontinues with
      | failed =>
        refine iff_of_true ((allSound_iff_of_others (a := a) hloadable fun b hb => ?_).mpr fun p hp => ?_)
          fun _ h => by cases h
        · exact ((Touches.modifyProgram : Touches 0 a c' _).others b hb).trans (hothers b hb)
        · rw [program?_modifyProgram_self, hq] at hp
          obtain rfl := Option.some.inj hp
          exact .of_flags rfl
    | ok u =>
      refine Iff.trans ?_ (hcontinues.sound_iff sound_started rfl)
      have hloading : ({ c' with loading := some a } : Channels δ ω).AllSound ↔ ∀ p, c'.program? a = some p → p.Sound :=
        allSound_iff_of_others hloadable hothers
      refine hloading.trans ?_
      exact ⟨fun hall => hall q hq, fun hqsound p hp => Option.some.inj (hq.symm.trans hp) ▸ hqsound⟩

/-! ### Other instructions -/

section
omit [Peripheral δ ω]

theorem chaining_unchained (f : CommandFlags) :
    f.unchained.contains .dataChain = false ∧ f.unchained.contains .commandChain = false := by
  have hcleared : ∀ flag : Half, ~~~CommandFlags.dataChain.bits &&& (~~~CommandFlags.commandChain.bits &&& flag) = 0 →
      f.unchained.bits &&& flag = 0 := fun flag hzero => by
    show f.bits &&& ~~~CommandFlags.dataChain.bits &&& ~~~CommandFlags.commandChain.bits &&& flag = 0
    rw [BitVec.and_assoc, BitVec.and_assoc, hzero]
    exact BitVec.and_zero
  unfold CommandFlags.contains
  rw [hcleared _ (by decide), hcleared _ (by decide)]
  decide

theorem sound_halt : p.halt.Sound where
  data _ := (chaining_unchained p.flags).1
  chain _ hchain := by cases (chaining_unchained p.flags).2.symm.trans hchain

theorem allSound_receive {status : ChannelStatus} (h : c.AllSound) : (c.receive a status).AllSound := by
  rw [receive]
  split
  · exact allSound_of_same (allSound_modifyProgram h fun _ => Transfer.sound_receive) fun _ => rfl
  · exact h

theorem allSound_postStatus {n : Byte} (h : c.AllSound) : (c.postStatus mem n).2.1.AllSound := by
  rw [postStatus]
  split
  · exact h
  · exact allSound_of_same h fun _ => rfl

theorem allSound_resetChannel {n : Byte} (h : c.AllSound) : (c.resetChannel n).2.AllSound := by
  have hfold : ∀ (l : List DeviceAddress) {t : Table 15 (Subchannel δ)}, (∀ k s, t.get? k = some s → s.program.Sound) →
      ∀ k s, (l.foldl (fun t a => t.modify a.bits fun s => { s with program := .idle }) t).get? k = some s →
        s.program.Sound := by
    intro l
    induction l with
    | nil => exact id
    | cons b rest ih =>
      refine fun ht => ih fun k s hs => ?_
      rw [Table.get?_modify] at hs
      split at hs
      · obtain ⟨s', -, rfl⟩ := Option.map_eq_some_iff.mp hs
        exact .of_flags rfl
      · exact ht k s hs
  rw [resetChannel]
  split
  · exact h
  · intro b p hp
    obtain ⟨s, hs, rfl⟩ := Option.map_eq_some_iff.mp hp
    exact hfold _ (fun k s hs => h ⟨k⟩ s.program (congrArg (Option.map Subchannel.program) hs)) b.bits s hs

end

theorem allSound_resetDevice (h : c.AllSound) : (c.resetDevice now a).AllSound := by
  rw [resetDevice]
  split
  · exact h
  · exact allSound_absorb h

theorem allSound_reset : (c.reset now).AllSound := by
  intro b p hp
  rw [program?, get?_reset, Option.map_map, Option.map_eq_some_iff] at hp
  obtain ⟨s, -, rfl⟩ := hp
  exact .of_flags rfl

theorem allSound_attach {device : δ} (h : c.AllSound) : (c.attach now a device).AllSound := by
  refine (allSound_iff_of_others (a := a) h fun b hb => ?_).mpr fun p hp => ?_
  · rw [attach, get?, Table.get?_set, if_neg (bits_ne hb)]
    rfl
  · rw [attach, program?, get?, Table.get?_set, if_pos rfl] at hp
    cases hp
    exact .of_flags rfl

theorem allSound_testIo {icb : Word} (h : c.AllSound) : (c.testIo now mem a icb).2.1.AllSound := by
  rw [testIo]
  split
  · exact h
  · next s hs =>
    dsimp only
    split
    · exact h
    split
    · exact h
    split
    · exact allSound_absorb h
    · have hpost : ((c.absorb a (Peripheral.testIo s.device now)).postStatus mem a.channel).2.1.AllSound :=
        allSound_postStatus (allSound_absorb h)
      split
      · next heq =>
        rw [heq] at hpost
        exact hpost
      · next heq =>
        rw [heq] at hpost
        exact hpost

theorem allSound_stopIo (h : c.AllSound) : (c.stopIo a).2.AllSound := by
  rw [stopIo]
  split
  · exact h
  split
  · exact allSound_modifyProgram h fun _ _ => sound_halt
  · exact h

theorem allSound_haltIo (h : c.AllSound) : (c.haltIo now a).2.AllSound := by
  rw [haltIo]
  split
  · exact h
  · dsimp only
    split
    · exact h
    split
    · exact allSound_modifyProgram (allSound_absorb h) fun _ _ => sound_halt
    · exact allSound_absorb h

theorem allSound_commandDevice {command : Half} (h : c.AllSound) : (c.commandDevice now a command).2.AllSound := by
  rw [commandDevice]
  split
  · exact h
  · exact allSound_absorb h

theorem allSound_testDevice {command : Half} (h : c.AllSound) : (c.testDevice now a command).2.AllSound := by
  rw [testDevice]
  split
  · exact h
  · exact allSound_absorb h

end Channels

end Concept32
