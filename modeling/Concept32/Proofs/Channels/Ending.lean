import Concept32.Proofs.Channels.Moving
import Concept32.Proofs.Devices

/-!
# Devices that end their command

A device that moves data and then ends its command, once and well, leaves the list of its program where it was. Until
the end the moves of data change neither the place in the list nor the flags of the doubleword.
-/

namespace Concept32
open EStateM

/-- The device has ended a command without anything wrong, and may ask for one to be passed over. -/
def ChannelStatus.EndsWell (s : ChannelStatus) : Prop :=
  s ∈ [deviceEnd, channelEnd.union deviceEnd, deviceEnd.union modifier, (channelEnd.union deviceEnd).union modifier]

instance (s : ChannelStatus) : Decidable s.EndsWell := inferInstanceAs (Decidable (_ ∈ _))

/-- What the bits of the four statuses say. -/
theorem ChannelStatus.EndsWell.bits {s : ChannelStatus} (h : s.EndsWell) :
    s.contains .deviceEnd = true ∧ s.hasError = false ∧ s.endsChain = false ∧
      s.intersects (channelEnd.union deviceEnd) = true ∧ (s.union channelEnd).contains .programInterrupt = false := by
  have hall : ∀ s ∈ [deviceEnd, channelEnd.union deviceEnd, deviceEnd.union modifier,
      (channelEnd.union deviceEnd).union modifier],
      s.contains .deviceEnd = true ∧ s.hasError = false ∧ s.endsChain = false ∧
        s.intersects (channelEnd.union deviceEnd) = true ∧ (s.union channelEnd).contains .programInterrupt = false := by
    decide
  exact hall s h

namespace ChannelStatus.EndsWell
variable {s : ChannelStatus}

theorem deviceEnd (h : s.EndsWell) : s.contains .deviceEnd = true := h.bits.1

theorem clean (h : s.EndsWell) : s.hasError = false := h.bits.2.1

theorem goesOn (h : s.EndsWell) : s.endsChain = false := h.bits.2.2.1

theorem ends (h : s.EndsWell) : s.intersects (channelEnd.union .deviceEnd) = true := h.bits.2.2.2.1

theorem asksNothing (h : s.EndsWell) : (s.union channelEnd).contains .programInterrupt = false := h.bits.2.2.2.2

end ChannelStatus.EndsWell

namespace Service
variable {ω α : Type}

/-- The service is done, with a value that has a property, without another call that changes anything. -/
def Rests (P : α → Prop) : Service ω α → Prop
  | .done value => P value
  | .output _ rest => rest.Rests P
  | .inspect next => ∀ v, (next v).Rests P
  | _ => False

/-- The service moves data, whatever the channel answers, and then ends its command once and well. -/
def EndsCommand (P : α → Prop) : Service ω α → Prop
  | .done _ => False
  | .output _ rest => rest.EndsCommand P
  | .inspect next => ∀ v, (next v).EndsCommand P
  | .readByte next => ∀ r, (next r).EndsCommand P
  | .writeByte _ next => ∀ r, (next r).EndsCommand P
  | .isComplete next => ∀ r, (next r).EndsCommand P
  | .endCommand s rest => s.EndsWell ∧ rest.Rests P
  | .attention _ _ => False
  | .wake _ _ => False

end Service

/-! ### Moving data -/

/-- Where the program is in its list, and what its doubleword and the device said otherwise, are as they were. -/
structure ChannelProgram.Stays (p q : ChannelProgram) : Prop where
  next : q.next = p.next
  flags : q.flags = p.flags
  pending : q.pending = p.pending

namespace ChannelProgram.Stays
variable {p q r : ChannelProgram}

theorem refl : Stays p p := ⟨rfl, rfl, rfl⟩

theorem trans (h : Stays p q) (h' : Stays q r) : Stays p r :=
  ⟨h'.next.trans h.next, h'.flags.trans h.flags, h'.pending.trans h.pending⟩

theorem unchained (h : Stays p q) (hchain : p.flags.contains .dataChain = false) :
    q.flags.contains .dataChain = false := by
  rw [h.flags]
  exact hchain

end ChannelProgram.Stays

namespace Transfer
variable {ε α β : Type} {t : Transfer}

/-- However the step ends, without data chaining the program stays where it is in its list. -/
def Steady (x : Step ε α) : Prop :=
  ∀ t : Transfer, t.program.flags.contains .dataChain = false → t.program.Stays (x.run t).2.program

/-- Without data chaining the program stays where it is in its list. -/
def StaysUnchained (p q : ChannelProgram) : Prop := p.flags.contains .dataChain = false → p.Stays q

instance : Carries StaysUnchained where
  trans h h' hchain := (h hchain).trans (h' ((h hchain).unchained hchain))
  remains h _ := ⟨h.next, h.flags, h.pending⟩
  chainData t hchain := by
    rw [run_of_ok (chainData_of_not_chained hchain)]
    exact .refl

namespace Steady

theorem flush : Steady flush := Relates.flush (R := StaysUnchained)

theorem readByte : Steady readByte := Relates.readByte (R := StaysUnchained)

theorem writeByte {b : Byte} : Steady (writeByte b) := Relates.writeByte (R := StaysUnchained)

theorem isComplete : Steady isComplete := Relates.isComplete (R := StaysUnchained)

end Steady

/-! ### Ending the command -/

/-- The command has ended well: the program is where it was in its list, and the device has said so. -/
structure Concludes (p q : ChannelProgram) : Prop where
  stays : p.Stays q
  command : q.command = none
  channelEnd : q.status.contains .channelEnd = true
  deviceEnd : q.status.contains .deviceEnd = true

/-- Memory that fails the transfer leaves the program in error. -/
theorem hasError_of_flush {e : ChannelStatus} {t' : Transfer} (h : flush t = .error e t') :
    t'.program.status.hasError = true := by
  cases hword : t.program.staged with
  | none =>
    rw [flush_none hword] at h
    cases h
  | some word =>
    cases hdirty : word.dirty with
    | false =>
      rw [flush_clean hword hdirty] at h
      cases h
    | true =>
      cases hstore : Memory.writeWord (word.address.setWidth 32) word.value t.memory with
      | ok u m =>
        rw [flush_dirty hword hdirty hstore] at h
        cases h
      | error e m =>
        have hfail : flush t = (failMemory : Step ChannelStatus Unit) ⟨t.program, m⟩ := by
          rw [flush, bind_of_ok (current_eq_ok t), hword]
          dsimp only
          rw [if_pos hdirty]
          refine (bind_of_ok (a := false) (t := ⟨t.program, m⟩) ?_).trans rfl
          rw [hstore]
        rw [hfail] at h
        cases h
        exact ChannelStatus.hasError_union_programCheck

/-- Without an error the number of bytes was right. -/
theorem endStatus_of_clean {p : ChannelProgram} {s : ChannelStatus} (h : (endStatus s p).hasError = false) :
    endStatus s p = (p.status.union .channelEnd).union s := by
  unfold endStatus at h ⊢
  split at h
  · rw [ChannelStatus.hasError_union_length] at h
    cases h
  · next hlength => rw [if_neg hlength]

theorem concludes_endCommand {s : ChannelStatus} (hchain : t.program.flags.contains .dataChain = false)
    (hs : s.EndsWell) (hclean : ((endCommand s).run t).2.program.status.hasError = false) :
    Concludes t.program ((endCommand s).run t).2.program := by
  have hflush := Steady.flush t hchain
  cases hstep : flush t with
  | error e t' =>
    have hend : endCommand s t = .ok () t' := by
      unfold endCommand
      rw [hstep]
    rw [run_of_ok hend, hasError_of_flush hstep] at hclean
    cases hclean
  | ok u t' =>
    rw [run_of_ok hstep] at hflush
    have hchain' : t'.program.flags.contains .dataChain = false := hflush.unchained hchain
    have hend : endCommand s t = .ok () ⟨ended t'.memory s t'.program, t'.memory⟩ := by
      unfold endCommand
      rw [hstep]
    rw [run_of_ok hend, ended_of_not_chained hchain'] at hclean ⊢
    dsimp only at hclean ⊢
    rw [hclean, hs.goesOn, endStatus_of_clean hclean]
    exact {
      stays := ⟨hflush.next, hflush.flags, hflush.pending⟩
      command := rfl
      channelEnd := ChannelStatus.contains_union_of_left ChannelStatus.contains_union
      deviceEnd := ChannelStatus.contains_union_of_right hs.deviceEnd }

end Transfer

namespace Connection
variable {ω α : Type} {P : α → Prop} {c : Connection} {output : Array ω}

/-- A service that rests changes nothing. -/
theorem run_of_rests {service : Service ω α} (output : Array ω) (h : service.Rests P) :
    P (c.run service output).1 ∧ (c.run service output).2.1 = c := by
  induction service generalizing output with
  | done value => exact ⟨h, rfl⟩
  | output item rest ih => exact ih _ h
  | inspect next ih => exact ih c.view _ (h _)
  | readByte next ih => exact h.elim
  | writeByte b next ih => exact h.elim
  | isComplete next ih => exact h.elim
  | endCommand s rest ih => exact h.elim
  | attention s rest ih => exact h.elim
  | wake s rest ih => exact h.elim

/-- A service has ended its command: it has raised the signal and queued nothing, and the command has ended well unless
the program is in error. -/
structure Settles (P : α → Prop) (c : Connection) (done : α × Connection × Array ω) : Prop where
  value : P done.1
  channel : done.2.1.channel = c.channel
  raised : done.2.1.raised = true
  concludes : done.2.1.transfer.program.status.hasError = false →
    Transfer.Concludes c.transfer.program done.2.1.transfer.program

/-- Data may have moved before. -/
theorem Settles.after {c' : Connection} {done : α × Connection × Array ω} (h : Settles P c' done)
    (hchannel : c'.channel = c.channel) (hstays : c.transfer.program.Stays c'.transfer.program) : Settles P c done where
  value := h.value
  channel := h.channel.trans hchannel
  raised := h.raised
  concludes hclean :=
    have hend := h.concludes hclean
    ⟨hstays.trans hend.stays, hend.command, hend.channelEnd, hend.deviceEnd⟩

theorem channel_transferStep {β : Type} {x : Transfer.Step TransferEnd β} :
    (transferStep x c).2.channel = c.channel := by
  obtain ⟨address, transfer, channel, raised⟩ := c
  unfold transferStep
  dsimp only
  cases x transfer <;> rfl

theorem channel_isComplete : c.isComplete.2.channel = c.channel := by
  obtain ⟨address, transfer, channel, raised⟩ := c
  unfold isComplete
  dsimp only
  cases Transfer.isComplete transfer with
  | ok complete t => rfl
  | error e t => exact e.elim

theorem endCommand_fields {s : ChannelStatus} :
    (c.endCommand s).channel = c.channel ∧ (c.endCommand s).raised = true := by
  obtain ⟨address, transfer, channel, raised⟩ := c
  unfold endCommand
  dsimp only
  cases Transfer.endCommand s transfer with
  | ok u t => exact ⟨rfl, rfl⟩
  | error e t => exact e.elim

theorem settles_run {service : Service ω α} (output : Array ω) (h : service.EndsCommand P)
    (hchain : c.transfer.program.flags.contains .dataChain = false) : Settles P c (c.run service output) := by
  -- After a step that stays where it is the doubleword is not chained either.
  have hstep : ∀ {β : Type} {x : Transfer.Step TransferEnd β} {c : Connection}, Transfer.Steady x →
      c.transfer.program.flags.contains .dataChain = false →
      c.transfer.program.Stays (transferStep x c).2.transfer.program := fun hx hc => by
    rw [transfer_transferStep]
    exact hx _ hc
  induction service generalizing c output with
  | done value => exact h.elim
  | output item rest ih => exact ih _ h hchain
  | inspect next ih => exact ih c.view _ (h _) hchain
  | readByte next ih =>
    have hstays : c.transfer.program.Stays c.readByte.2.transfer.program := hstep .readByte hchain
    exact (ih _ _ (h _) (hstays.unchained hchain)).after channel_transferStep hstays
  | writeByte b next ih =>
    have hstays : c.transfer.program.Stays (c.writeByte b).2.transfer.program := hstep .writeByte hchain
    exact (ih _ _ (h _) (hstays.unchained hchain)).after channel_transferStep hstays
  | isComplete next ih =>
    have hstays : c.transfer.program.Stays c.isComplete.2.transfer.program := by
      rw [transfer_isComplete]
      exact Transfer.Steady.isComplete _ hchain
    exact (ih _ _ (h _) (hstays.unchained hchain)).after channel_isComplete hstays
  | endCommand s rest ih =>
    obtain ⟨hs, hrest⟩ := h
    obtain ⟨hvalue, hsame⟩ := run_of_rests (c := c.endCommand s) output hrest
    obtain ⟨hchannel, hraised⟩ := endCommand_fields (c := c) (s := s)
    refine ⟨hvalue, (congrArg _ hsame).trans hchannel, (congrArg _ hsame).trans hraised, fun hclean => ?_⟩
    have hprogram : (c.run (.endCommand s rest) output).2.1.transfer = ((Transfer.endCommand s).run c.transfer).2 :=
      (congrArg Connection.transfer hsame).trans transfer_endCommand
    rw [hprogram] at hclean ⊢
    exact Transfer.concludes_endCommand hchain hs hclean
  | attention s rest ih => exact h.elim
  | wake s rest ih => exact h.elim

end Connection
end Concept32
