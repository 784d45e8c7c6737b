import Concept32.Channel.Connection
import Concept32.Proofs.Channels.Staging
import Concept32.Proofs.Channels.Status

/-!
# What a service keeps

A property of the transfer that every call of a device keeps is kept by all that the device does while it is
serviced. A transfer that has no data left moves nothing, whatever the device does.
-/

namespace Concept32
namespace Connection
open Transfer

/-- Every call of a device keeps a property of the connection. -/
structure Kept (P : Connection → Prop) : Prop where
  readByte : ∀ c, P c → P c.readByte.2
  writeByte : ∀ b c, P c → P (c.writeByte b).2
  isComplete : ∀ c, P c → P c.isComplete.2
  endCommand : ∀ s c, P c → P (c.endCommand s)
  attention : ∀ s c, P c → P (c.attention s)
  wake : ∀ s c, P c → P (c.wake s)

/-- What every call keeps is kept while a device is serviced. -/
theorem Kept.run {ω α : Type} {P : Connection → Prop} (h : Kept P) (service : Service ω α) {c : Connection}
    (output : Array ω) (hc : P c) : P (Connection.run service c output).2.1 := by
  induction service generalizing c output with
  | done value => exact hc
  | output item rest ih => exact ih _ hc
  | inspect next ih => exact ih c.view _ hc
  | readByte next ih => exact ih _ _ (h.readByte c hc)
  | writeByte b next ih => exact ih _ _ (h.writeByte b c hc)
  | isComplete next ih => exact ih _ _ (h.isComplete c hc)
  | endCommand s rest ih => exact ih _ (h.endCommand s c hc)
  | attention s rest ih => exact ih _ (h.attention s c hc)
  | wake s rest ih => exact ih _ (h.wake s c hc)

/-- Every call of a device keeps a property of the transfer. -/
structure Keeps (P : Transfer → Prop) : Prop where
  readByte : ∀ t, P t → P (Transfer.readByte.run t).2
  writeByte : ∀ b t, P t → P ((Transfer.writeByte b).run t).2
  isComplete : ∀ t, P t → P (Transfer.isComplete.run t).2
  endCommand : ∀ s t, P t → P ((Transfer.endCommand s).run t).2
  receive : ∀ t device s, P t → P ⟨t.program.receive device s, t.memory⟩

variable {ω α : Type} {P : Transfer → Prop} {c : Connection} {output : Array ω}

theorem transfer_transferStep {α : Type} {x : Step TransferEnd α} :
    (transferStep x c).2.transfer = (x.run c.transfer).2 := by
  obtain ⟨address, transfer, channel, raised⟩ := c
  unfold transferStep Step.run
  dsimp only
  cases x transfer <;> rfl

theorem transfer_isComplete : c.isComplete.2.transfer = (Transfer.isComplete.run c.transfer).2 := by
  obtain ⟨address, transfer, channel, raised⟩ := c
  unfold isComplete Step.run
  dsimp only
  cases Transfer.isComplete transfer with
  | ok a t => rfl
  | error e t => exact e.elim

theorem transfer_endCommand {s : ChannelStatus} :
    (c.endCommand s).transfer = ((Transfer.endCommand s).run c.transfer).2 := by
  obtain ⟨address, transfer, channel, raised⟩ := c
  unfold endCommand Step.run
  dsimp only
  cases Transfer.endCommand s transfer with
  | ok a t => rfl
  | error e t => exact e.elim

theorem Keeps.kept (h : Keeps P) : Kept fun c => P c.transfer where
  readByte _ hc := transfer_transferStep.symm ▸ h.readByte _ hc
  writeByte b _ hc := transfer_transferStep.symm ▸ h.writeByte b _ hc
  isComplete _ hc := transfer_isComplete.symm ▸ h.isComplete _ hc
  endCommand s _ hc := transfer_endCommand.symm ▸ h.endCommand s _ hc
  attention _ _ hc := h.receive _ _ _ hc
  wake _ _ hc := hc

theorem Keeps.run (h : Keeps P) (service : Service ω α) (hc : P c.transfer) :
    P (Connection.run service c output).2.1.transfer :=
  h.kept.run service output hc

end Connection

namespace Transfer
variable {t : Transfer} {mem : Memory}

/-- The transfer has no data left and no doubleword that continues them, and nothing to write back; its memory is
`mem`. -/
structure Spent (mem : Memory) (t : Transfer) : Prop where
  memory : t.memory = mem
  count : t.program.count = 0
  chain : t.program.flags.contains .dataChain = false
  staged : t.program.staged = none

/-- A change that a spent transfer survives. -/
theorem Spent.modify {f : ChannelProgram → ChannelProgram} (h : Spent mem t)
    (hcount : (f t.program).count = t.program.count)
    (hflags : (f t.program).flags = t.program.flags) (hstaged : (f t.program).staged = t.program.staged) :
    Spent mem ⟨f t.program, t.memory⟩ :=
  ⟨h.memory, hcount.trans h.count, by rw [hflags]; exact h.chain, hstaged.trans h.staged⟩

/-- Without data chaining there are data for as long as the doubleword has some left. -/
theorem chainData_of_not_chained (h : t.program.flags.contains .dataChain = false) :
    Transfer.chainData t = .ok (decide (t.program.count ≠ 0)) t := by
  have hchain : t.program.chainData t.memory ChannelProgram.dataChainLimit =
      .ok (decide (t.program.count ≠ 0)) t.program := by
    unfold ChannelProgram.chainData
    rw [h]
    split
    · next hcount => rw [decide_eq_true hcount]
    · next hcount => rw [decide_eq_false hcount]; rfl
  unfold Transfer.chainData
  dsimp only
  rw [hchain]

/-- What follows when the list has no more data. -/
theorem Spent.exhausted {α : Type} (h : Spent mem t) (x : Step TransferEnd α) :
    withData x t = .error .exhausted ⟨finish t.program, t.memory⟩ :=
  withData_of_none ((chainData_of_not_chained h.chain).trans (by rw [h.count]; rfl))

theorem run_of_error {ε α : Type} {x : Step ε α} {e : ε} {t' : Transfer} (h : x t = .error e t') :
    x.run t = (.error e, t') := by
  unfold Step.run
  rw [h]

theorem run_of_ok {ε α : Type} {x : Step ε α} {answer : α} {t' : Transfer} (h : x t = .ok answer t') :
    x.run t = (.ok answer, t') := by
  unfold Step.run
  rw [h]

theorem spent_readByte (h : Spent mem t) : Spent mem (readByte.run t).2 := by
  by_cases herror : t.program.status.hasError
  · have hread : readByte t = .error (.error t.program.status) t := congrFun (if_pos herror) t
    rw [run_of_error hread]
    exact h
  by_cases hended : t.program.phase = .ended
  · have hread : readByte t = .error .exhausted t := (congrFun (if_neg herror) t).trans (congrFun (if_pos hended) t)
    rw [run_of_error hread]
    exact h
  · have hread : readByte t = .error .exhausted ⟨finish t.program, t.memory⟩ :=
      (congrFun (if_neg herror) t).trans ((congrFun (if_neg hended) t).trans (h.exhausted _))
    rw [run_of_error hread]
    exact h.modify rfl rfl rfl

theorem spent_writeByte {b : Byte} (h : Spent mem t) : Spent mem ((writeByte b).run t).2 := by
  by_cases herror : t.program.status.hasError
  · have hwrite : writeByte b t = .error (.error t.program.status) t := congrFun (if_pos herror) t
    rw [run_of_error hwrite]
    exact h
  by_cases hended : t.program.phase = .ended
  · have hrefuse : writeByte b t = (do
        if !(← current).flags.contains .suppressLength then modifyProgram fun p => p.addStatus .length
        throw TransferEnd.exhausted) t :=
      (congrFun (if_neg herror) t).trans (congrFun (if_pos hended) t)
    cases hsuppress : t.program.flags.contains .suppressLength with
    | true =>
      rw [run_of_error (hrefuse.trans (congrFun (if_neg (by rw [hsuppress]; decide)) t))]
      exact h
    | false =>
      have hwrite : writeByte b t = .error .exhausted ⟨t.program.addStatus .length, t.memory⟩ :=
        hrefuse.trans (congrFun (if_pos (by rw [hsuppress]; rfl)) t)
      rw [run_of_error hwrite]
      exact h.modify (f := fun p => p.addStatus .length) rfl rfl rfl
  · have hwrite : writeByte b t = .error .exhausted ⟨finish t.program, t.memory⟩ :=
      (congrFun (if_neg herror) t).trans <| (congrFun (if_neg hended) t).trans <|
        (congrFun (if_pos h.count) t).trans <|
          (EStateM.bind_of_ok (orStop_of_ok (flush_none h.staged))).trans (h.exhausted _)
    rw [run_of_error hwrite]
    exact h.modify rfl rfl rfl

theorem spent_isComplete (h : Spent mem t) : Spent mem (isComplete.run t).2 := by
  by_cases hended : t.program.phase = .ended
  · rw [run_of_ok (show isComplete t = .ok true t from if_pos hended)]
    exact h
  · have hcomplete : isComplete t = .ok true ⟨finish t.program, t.memory⟩ := by
      unfold isComplete
      rw [if_neg hended, if_neg (fun hne => hne h.count), flush_none h.staged]
      dsimp only
      rw [h.chain]
      rfl
    rw [run_of_ok hcomplete]
    exact h.modify rfl rfl rfl

/-- The status of a command that ends with a device status, when no data chaining follows. -/
def endStatus (s : ChannelStatus) (p : ChannelProgram) : ChannelStatus :=
  if p.count ≠ 0 && !p.flags.contains .suppressLength then ((p.status.union .channelEnd).union s).union .length
  else (p.status.union .channelEnd).union s

theorem skipChain_of_not_chained {p : ChannelProgram} {limit : Nat} (h : p.flags.contains .dataChain = false) :
    p.skipChain mem limit = p := by
  unfold ChannelProgram.skipChain
  rw [h]
  rfl

theorem ended_of_not_chained {p : ChannelProgram} {s : ChannelStatus} (h : p.flags.contains .dataChain = false) :
    ended mem s p =
      { p with
        flags := if (endStatus s p).hasError || s.endsChain then .none else p.flags
        command := none
        status := endStatus s p
        staged := none
        phase := .newCommand } := by
  have hnone : CommandFlags.none.contains .dataChain = false := by decide
  unfold ended endStatus
  dsimp only [ChannelProgram.addStatus]
  by_cases hshort : (p.count ≠ 0 && !p.flags.contains .suppressLength) = true
  · rw [if_pos hshort, if_pos hshort, ChannelStatus.hasError_union_length]
    cases s.endsChain with
    | true =>
      rw [if_pos rfl, skipChain_of_not_chained hnone]
      dsimp only
      rw [ChannelStatus.hasError_union_length]
      rfl
    | false =>
      rw [if_neg Bool.false_ne_true, skipChain_of_not_chained hnone]
      dsimp only
      rw [ChannelStatus.hasError_union_length]
      rfl
  · rw [if_neg hshort, if_neg hshort]
    cases s.endsChain with
    | true =>
      rw [if_pos rfl, skipChain_of_not_chained hnone]
      dsimp only
      cases ((p.status.union .channelEnd).union s).hasError <;> rfl
    | false =>
      rw [if_neg Bool.false_ne_true, skipChain_of_not_chained (by exact h)]
      dsimp only
      cases ((p.status.union .channelEnd).union s).hasError <;> rfl

theorem spent_endCommand {s : ChannelStatus} (h : Spent mem t) : Spent mem ((endCommand s).run t).2 := by
  have hend : endCommand s t = .ok () ⟨ended t.memory s t.program, t.memory⟩ := by
    unfold endCommand
    rw [flush_none h.staged]
  rw [run_of_ok hend, ended_of_not_chained h.chain]
  refine ⟨h.memory, h.count, ?_, rfl⟩
  dsimp only
  split
  · decide
  · exact h.chain

theorem spent : Connection.Keeps (Spent mem) where
  readByte _ := spent_readByte
  writeByte _ _ := spent_writeByte
  isComplete _ := spent_isComplete
  endCommand _ _ := spent_endCommand
  receive _ device s h := h.modify (f := fun p => p.receive device s)
    (by unfold ChannelProgram.receive; split <;> rfl) (by unfold ChannelProgram.receive; split <;> rfl)
    (by unfold ChannelProgram.receive; split <;> rfl)

end Transfer
end Concept32
