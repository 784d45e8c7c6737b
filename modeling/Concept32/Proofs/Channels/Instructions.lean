import Concept32.Channel.Instructions
import Concept32.Proofs.Channels.Scanning

/-!
# Instructions and the loading of a machine

An instruction for a channel or a device neither begins nor ends the loading of the machine.
-/

namespace Concept32.Channels
variable {δ ω : Type} {c : Channels δ ω} {a : DeviceAddress} {now : Nat} {mem : Memory}

theorem loading_storeStatus : (c.storeStatus a).loading = c.loading := by
  rw [storeStatus]
  split <;> rfl

theorem loading_postStatus {n : Byte} : (c.postStatus mem n).2.1.loading = c.loading := by
  rw [postStatus]
  split <;> rfl

theorem loading_resetChannel {n : Byte} : (c.resetChannel n).2.loading = c.loading := by
  rw [resetChannel]
  split <;> rfl

variable [Peripheral δ ω]

theorem loading_resetDevice : (c.resetDevice now a).loading = c.loading := by
  rw [resetDevice]
  split <;> rfl

theorem loading_continueProgram {allowed : Bool} :
    (c.continueProgram now mem a allowed).2.loading = c.loading :=
  touches_continueProgram.2.loading

theorem loading_startIo {first : Address} :
    (c.startIo now mem a first).2.1.loading = c.loading := by
  rw [startIo]
  split
  · rfl
  · dsimp only
    split
    · rfl
    split
    · rfl
    split
    · rfl
    generalize (if RealChannel.statusAddress _ = 0 then mem else Memory.after _ mem) = mem
    split
    · exact loading_storeStatus.trans loading_continueProgram
    · split
      · exact loading_storeStatus.trans loading_continueProgram
      · split
        · exact loading_continueProgram
        · split <;> exact loading_continueProgram

theorem loading_testIo {icb : Word} : (c.testIo now mem a icb).2.1.loading = c.loading := by
  rw [testIo]
  split
  · rfl
  · next s hs =>
    dsimp only
    split
    · rfl
    · split
      · rfl
      · split
        · rfl
        · have hpost : ((c.absorb a (Peripheral.testIo s.device now)).postStatus mem a.channel).2.1.loading = c.loading :=
            loading_postStatus
          split <;> next heq => rw [heq] at hpost; exact hpost

theorem loading_stopIo : (c.stopIo a).2.loading = c.loading := by
  rw [stopIo]
  repeat' split
  all_goals rfl

theorem loading_haltIo : (c.haltIo now a).2.loading = c.loading := by
  rw [haltIo]
  repeat' split
  all_goals rfl

theorem loading_commandDevice {command : Half} : (c.commandDevice now a command).2.loading = c.loading := by
  rw [commandDevice]
  split <;> rfl

theorem loading_testDevice {command : Half} : (c.testDevice now a command).2.loading = c.loading := by
  rw [testDevice]
  split <;> rfl

end Concept32.Channels
