import Concept32.Channel.Instructions
import Concept32.Device.ImageReader
import Concept32.Proofs.Channels.Issuing

/-!
# Starting a program over an earlier one

What an instruction that starts a program does with the status of the program before: a refusal by the channel
keeps it, and a start loses whatever of it is not in the queue yet.
-/

namespace Concept32
namespace Channels
variable {δ ω : Type} {c c' : Channels δ ω} {a : DeviceAddress} {now : Nat} {mem : Memory} {first : Address}
  {s : Subchannel δ} {f g : ChannelProgram → ChannelProgram}

/-! ### The parts of a start -/

/-- Memory when the list is fetched: the place of status, once it is set, tells where the list begins. -/
def echoed (c : Channels δ ω) (a : DeviceAddress) (first : Address) (mem : Memory) : Memory :=
  if (c.channel a.channel).statusAddress = 0 then mem
  else
    let word1 := (StatusDoubleword.of a first .none 0).word1
    mem.after (Memory.writePair ((c.channel a.channel).statusAddress.setWidth 32) word1 0)

variable [Peripheral δ ω]

/-- Fetch the first doubleword of a program that has been set up. -/
def launch (c : Channels δ ω) (now : Nat) (mem : Memory) (a : DeviceAddress) : IoCondition × Channels δ ω :=
  match c.continueProgram now mem a false with
  | (.error _, c) => (.acceptedNoEcho, (c.modifyProgram a fun p => { p.abandon with pending := .none }).storeStatus a)
  | (.ok _, c) =>
    if (c.program? a).any fun p => p.status.contains .programInterrupt then
      (.acceptedNoEcho, (c.modifyProgram a fun p => { p with pending := .none }).storeStatus a)
    else
      match (c.program? a).bind ChannelProgram.command with
      | none => (.acceptedNoEcho, c)
      | some command => (if command = ChannelCommand.setStatusAddress then .acceptedNoEcho else .accepted, c)

/-- The channels with a program set up at `first` on a device that has been asked whether it is ready. -/
def prepared (c : Channels δ ω) (now : Nat) (a : DeviceAddress) (first : Address) (device : δ) : Channels δ ω :=
  (c.absorb a (Peripheral.startIo device now)).modifyProgram a fun _ => started a first

/-- Nothing keeps the channel from starting a program on the device. -/
def Free (s : Subchannel δ) : Prop := Peripheral.attached s.device = true ∧ s.program.isBusy = false

/-- The device is ready for a program. -/
def Willing (s : Subchannel δ) (now : Nat) : Prop := (Peripheral.startIo s.device now).answer.isEmpty = true

theorem startIo_of_not_free (now : Nat) (hs : c.get? a = some s) (h : ¬Free s) :
    ∃ condition, (condition = .inoperative ∨ condition = .channelBusy) ∧
      ∀ mem first, c.startIo now mem a first = (condition, c, mem) := by
  unfold startIo
  rw [hs]
  dsimp only
  cases hattached : Peripheral.attached s.device with
  | false => exact ⟨_, .inl rfl, fun _ _ => rfl⟩
  | true =>
    cases hbusy : s.program.isBusy with
    | false => exact absurd ⟨hattached, hbusy⟩ h
    | true => exact ⟨_, .inr rfl, fun _ _ => rfl⟩

theorem startIo_of_not_willing (hs : c.get? a = some s) (hfree : Free s) (h : ¬Willing s now) :
    c.startIo now mem a first =
      (.subchannelBusy,
        (c.absorb a (Peripheral.startIo s.device now)).modifyProgram a fun p => { p with status := .none }, mem) := by
  have hanswer : (Peripheral.startIo s.device now).answer.isEmpty = false := by
    simpa [Willing] using h
  unfold startIo
  rw [hs]
  dsimp only
  rw [hfree.1, hfree.2, hanswer]
  rfl

theorem startIo_of_willing (hs : c.get? a = some s) (hfree : Free s) (h : Willing s now) :
    c.startIo now mem a first =
      ((c.prepared now a first s.device).launch now (c.echoed a first mem) a).map id fun c' =>
        (c', c.echoed a first mem) := by
  unfold startIo
  rw [hs]
  dsimp only
  rw [hfree.1, hfree.2, show (Peripheral.startIo s.device now).answer.isEmpty = true from h]
  simp only [Bool.not_true, Bool.false_eq_true, if_false]
  generalize hm : (if RealChannel.statusAddress _ = 0 then mem else Memory.after _ mem) = m
  obtain rfl : c.echoed a first mem = m := hm
  unfold launch prepared
  generalize ((c.absorb a (Peripheral.startIo s.device now)).modifyProgram a fun _ => started a first).continueProgram
    now (c.echoed a first mem) a false = begun
  obtain ⟨begun, c'⟩ := begun
  cases begun with
  | error e => rfl
  | ok u =>
    dsimp only
    split
    · rfl
    · cases (c'.program? a).bind ChannelProgram.command with
      | none => rfl
      | some command =>
        dsimp only
        split <;> rfl

/-! ### What a start loses -/

theorem free_modifyProgram (hf : (f s.program).isBusy = s.program.isBusy) :
    Free { s with program := f s.program } ↔ Free s := by
  unfold Free
  rw [hf]

/-- A program that is started owes nothing to the one before. -/
theorem startIo_modifyProgram (hs : c.get? a = some s) (hf : (f s.program).isBusy = s.program.isBusy) (hfree : Free s)
    (hwilling : Willing s now) : (c.modifyProgram a f).startIo now mem a first = c.startIo now mem a first := by
  have hprepared : (c.modifyProgram a f).prepared now a first s.device = c.prepared now a first s.device := by
    unfold prepared
    rw [absorb_modifyProgram, modifyProgram_const]
  rw [startIo_of_willing hs hfree hwilling,
    startIo_of_willing (get?_modifyProgram_self hs) ((free_modifyProgram hf).mpr hfree) hwilling]
  show Prod.map _ _ (((c.modifyProgram a f).prepared now a first s.device).launch _ _ _) = _
  rw [hprepared]
  rfl

/-- A start that the channel refuses changes nothing. -/
theorem startIo_refused (now : Nat) (mem : Memory) (first : Address) (hs : c.get? a = some s) (h : ¬Free s) :
    (c.startIo now mem a first).2 = (c, mem) := by
  obtain ⟨condition, -, heq⟩ := startIo_of_not_free now hs h
  rw [heq]

/-- What `clear` takes from the program at an address is lost when a program is started there: the outcome is what it
would be without it. -/
def Loses (c : Channels δ ω) (now : Nat) (mem : Memory) (a : DeviceAddress) (first : Address)
    (clear : ChannelProgram → ChannelProgram) : Prop :=
  c.startIo now mem a first = (c.modifyProgram a clear).startIo now mem a first

/-- What a start keeps is in the channels as before, so it is not lost. -/
theorem free_of_loses (hs : c.get? a = some s) (hbusy : (f s.program).isBusy = s.program.isBusy)
    (hf : f s.program ≠ s.program) (h : c.Loses now mem a first f) : Free s := by
  by_cases hfree : Free s
  · exact hfree
  exfalso
  have hcleared := startIo_refused now mem first (get?_modifyProgram_self (f := f) hs)
    fun hfree' => hfree ((free_modifyProgram hbusy).mp hfree')
  have hkept := startIo_refused now mem first hs hfree
  rw [Loses] at h
  rw [← h, hkept] at hcleared
  have hget := congrArg (fun r => r.1.get? a) hcleared
  dsimp only at hget
  rw [get?_modifyProgram_self hs, hs] at hget
  exact hf (congrArg Subchannel.program (Option.some.inj hget)).symm

end Channels

namespace ChannelProgram

/-- The program without the status of its command. -/
def withoutStatus (p : ChannelProgram) : ChannelProgram := { p with status := .none }

/-- The program without the status that came unasked. -/
def withoutPending (p : ChannelProgram) : ChannelProgram := { p with pending := .none }

end ChannelProgram

namespace Channels
open ChannelProgram
variable {δ ω : Type} [Peripheral δ ω] {c : Channels δ ω} {a : DeviceAddress} {now : Nat} {mem : Memory}
  {first : Address} {s : Subchannel δ}

theorem program?_of_not_willing (hs : c.get? a = some s) (hfree : Free s) (h : ¬Willing s now) :
    (c.startIo now mem a first).2.1.program? a = some s.program.withoutStatus := by
  rw [startIo_of_not_willing hs hfree h, program?_modifyProgram_self, program?, get?, absorb, Table.get?_modify,
    if_pos rfl]
  rw [get?] at hs
  rw [hs]
  rfl

/-- Status that is not in the queue yet is lost by a start exactly when the channel lets the start through: the status
of a command in any case, and status that came unasked when the device is ready. -/
theorem startIo_loses_iff (hs : c.get? a = some s) :
    (s.program.status.contains .channelEnd = true → (c.Loses now mem a first withoutStatus ↔ Free s)) ∧
    (s.program.pending.isEmpty = false → (c.Loses now mem a first withoutPending ↔ Free s ∧ Willing s now)) ∧
    (¬Free s → (c.startIo now mem a first).2 = (c, mem)) ∧
    (Free s → ¬Willing s now →
      (c.startIo now mem a first).2.1.program? a = some s.program.withoutStatus ∧
        (c.startIo now mem a first).2.1.real = c.real) := by
  refine ⟨fun hend => ⟨fun h => free_of_loses hs rfl (fun heq => ?_) h, fun hfree => ?_⟩,
    fun hpending => ⟨fun h => ?_, fun ⟨hfree, hwilling⟩ => (startIo_modifyProgram hs rfl hfree hwilling).symm⟩,
    startIo_refused now mem first hs, fun hfree hwilling => ⟨program?_of_not_willing hs hfree hwilling, ?_⟩⟩
  · have hstatus : ChannelStatus.none = s.program.status := congrArg ChannelProgram.status heq
    rw [← hstatus] at hend
    exact absurd hend (by decide)
  · by_cases hwilling : Willing s now
    · exact (startIo_modifyProgram hs rfl hfree hwilling).symm
    · have hclear : (c.modifyProgram a withoutStatus).startIo now mem a first = _ := startIo_of_not_willing
        (get?_modifyProgram_self (f := withoutStatus) hs) hfree hwilling
      rw [Loses, hclear, startIo_of_not_willing hs hfree hwilling, absorb_modifyProgram, modifyProgram_modifyProgram]
      rfl
  · have hpresent : s.program.withoutPending ≠ s.program := fun heq => by
      have hnone : ChannelStatus.none = s.program.pending := congrArg ChannelProgram.pending heq
      rw [← hnone] at hpending
      exact absurd hpending (by decide)
    have hfree := free_of_loses hs rfl hpresent h
    by_cases hwilling : Willing s now
    · exact ⟨hfree, hwilling⟩
    exfalso
    rw [Loses] at h
    have hprogram := congrArg (fun r => r.2.1.program? a) h
    rw [program?_of_not_willing hs hfree hwilling,
      program?_of_not_willing (get?_modifyProgram_self hs) hfree hwilling] at hprogram
    have hpending' : s.program.pending = .none := congrArg ChannelProgram.pending (Option.some.inj hprogram)
    exact hpresent (congrArg (fun x => { s.program with pending := x }) hpending'.symm)
  · rw [startIo_of_not_willing hs hfree hwilling]
    rfl

end Channels

/-! ### A chain whose end is lost -/

namespace ImageReader
open Channels ChannelProgram

def address : DeviceAddress := ⟨0x1000#15⟩

/-- A list of two commands, the second of which the reader ends at once, and at 16 another list. -/
def lists : Memory := ⟨#[0x02000000, 0x40000000, 0x03000000, 0x00000000, 0x02000000, 0x00000000], by decide⟩

def unused : Channels ImageReader Char := Channels.empty.attach 0 address (.ofFile "" #[0x11, 0x22, 0x33, 0x44])

/-- The reader has ended its first command, and a scan has given it the second. -/
def chained : Channels ImageReader Char :=
  let (_, c, mem) := unused.startIo 0 lists address 0
  let (c, mem) := c.poll recordTime mem
  (c.scan recordTime mem).2

/-- The program of the chain after its end. -/
def chainedProgram : ChannelProgram :=
  { started address 0 with
    next := 16
    status := ChannelStatus.channelEnd.union .deviceEnd }

theorem get?_chained :
    (chained.get? address).map Subchannel.program = some chainedProgram ∧
      ((chained.get? address).map fun s => Peripheral.attached s.device) = some true := by
  decide +kernel

/-- The chain has ended and its status is not in the queue yet. A start in the same tick is accepted, and the status
is then neither in the program nor in the queue. -/
theorem not_delivered_chained :
    (chained.program? address).map ChannelProgram.status = some (ChannelStatus.channelEnd.union .deviceEnd) ∧
    (chained.startIo recordTime lists address 16).1 = .accepted ∧
    ((chained.startIo recordTime lists address 16).2.1.program? address).map ChannelProgram.status = some .none ∧
    ((chained.startIo recordTime lists address 16).2.1.channel address.channel).queue = [] := by
  decide +kernel

/-- The end of the chain is lost. -/
theorem loses_chained : ∃ s, chained.get? address = some s ∧ s.program.status.contains .channelEnd = true ∧ Free s ∧
    chained.Loses recordTime lists address 16 withoutStatus := by
  obtain ⟨hprogram, hattached⟩ := get?_chained
  obtain ⟨s, hs, hp⟩ := Option.map_eq_some_iff.mp hprogram
  rw [hs] at hattached
  have hend : s.program.status.contains .channelEnd = true := by
    rw [hp]
    decide
  have hfree : Free s := ⟨Option.some.inj hattached, by rw [hp]; decide⟩
  exact ⟨s, hs, hend, hfree, ((startIo_loses_iff hs).1 hend).mpr hfree⟩

end ImageReader
end Concept32
