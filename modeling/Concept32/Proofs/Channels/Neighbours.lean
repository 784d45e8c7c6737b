import Concept32.Proofs.Channels.Issuing
import Concept32.Proofs.Channels.Polling
import Concept32.Proofs.Channels.Servicing

/-!
# What devices leave of one another

A service or a look at one device spares every other: its device and program, the time at which it wants service,
and the status of its own that waits on the channel. A poll services a device that is due once, among services of
others, and a scan comes to a device once, among looks at others.
-/

namespace Concept32

/-! ### Whose status it is -/

theorem DeviceAddress.eq_of_parts {a b : DeviceAddress} (hchannel : a.channel = b.channel)
    (hsubaddress : a.subaddress = b.subaddress) : a = b := by
  obtain ⟨a⟩ := a
  obtain ⟨b⟩ := b
  have hhigh := congrArg BitVec.toNat hchannel
  have hlow := congrArg BitVec.toNat hsubaddress
  simp only [channel, subaddress, BitVec.toNat_setWidth, BitVec.toNat_ushiftRight, Nat.shiftRight_eq_div_pow]
    at hhigh hlow
  have ha := a.isLt
  have hb := b.isLt
  have hbits : a.toNat = b.toNat := by omega
  rw [BitVec.eq_of_toNat_eq hbits]

namespace StatusDoubleword
variable {a b : DeviceAddress} {next : Address} {status : ChannelStatus} {count : Half}

/-- The doubleword has the subaddress of a device. -/
def isOf (s : StatusDoubleword) (a : DeviceAddress) : Bool := s.word1 >>> 24 == a.subaddress.setWidth 32

theorem shiftRight_word1 : (StatusDoubleword.of b next status count).word1 >>> 24 = b.subaddress.setWidth 32 := by
  rw [of]
  dsimp only
  ext i hi
  simp only [BitVec.getElem_ushiftRight, BitVec.getLsbD_or, BitVec.getLsbD_shiftLeft, BitVec.getLsbD_setWidth,
    BitVec.getElem_setWidth]
  have hnext : next.getLsbD (24 + i) = false := BitVec.getLsbD_of_ge _ _ (by omega)
  rw [hnext]
  by_cases hlow : i < 8
  · have hplace : 24 + i < 32 := by omega
    simp [hplace, hi]
  · have hbeyond : b.subaddress.getLsbD i = false := BitVec.getLsbD_of_ge _ _ (by omega)
    simp [hbeyond]

theorem isOf_of : (StatusDoubleword.of b next status count).isOf a = true ↔ b.subaddress = a.subaddress := by
  rw [isOf, shiftRight_word1, beq_iff_eq]
  refine ⟨fun h => ?_, fun h => by rw [h]⟩
  simpa using congrArg (BitVec.setWidth 8) h

end StatusDoubleword

namespace Channels
variable {δ ω : Type} {c c' c'' : Channels δ ω} {a b : DeviceAddress} {now : Nat} {mem : Memory}

/-- The status of a device that waits on its channel, the oldest first. -/
def waiting (c : Channels δ ω) (a : DeviceAddress) : List StatusDoubleword :=
  (c.channel a.channel).queue.filter (·.isOf a)

/-! ### Sparing a device -/

/-- What concerns a device is as it was, and the signal still stands if it stood. -/
structure Spares (a : DeviceAddress) (c c' : Channels δ ω) : Prop where
  subchannel : c'.get? a = c.get? a
  time : c'.schedule.time? a = c.schedule.time? a
  waiting : c'.waiting a = c.waiting a
  loading : c'.loading = c.loading
  raised : c.raised = true → c'.raised = true

/-- What comes to a queue concerns another device. -/
theorem filter_push_of_ne {r : RealChannel} {next : Address} {status : ChannelStatus} {count : Half} (hne : b ≠ a)
    (hchannel : a.channel = b.channel) :
    (r.push (.of b next status count)).queue.filter (·.isOf a) = r.queue.filter (·.isOf a) := by
  have hother : (StatusDoubleword.of b next status count).isOf a = false := Bool.eq_false_iff.mpr fun h =>
    hne (DeviceAddress.eq_of_parts hchannel.symm (StatusDoubleword.isOf_of.mp h))
  rw [RealChannel.push]
  split
  · simp [hother]
  · rfl

theorem waiting_setChannel {r : RealChannel}
    (hr : a.channel = b.channel → r.queue.filter (·.isOf a) = c.waiting a) :
    (c.setChannel b.channel r).waiting a = c.waiting a := by
  unfold waiting
  rw [channel_setChannel]
  split
  · next hchannel => exact hr hchannel
  · rfl

namespace Spares

theorem refl : Spares a c c := ⟨rfl, rfl, rfl, rfl, id⟩

theorem trans (h : Spares a c c') (h' : Spares a c' c'') : Spares a c c'' where
  subchannel := h'.subchannel.trans h.subchannel
  time := h'.time.trans h.time
  waiting := h'.waiting.trans h.waiting
  loading := h'.loading.trans h.loading
  raised := h'.raised ∘ h.raised

theorem program? (h : Spares a c c') : c'.program? a = c.program? a := congrArg _ h.subchannel

theorem raise : Spares a c c.raise := ⟨rfl, rfl, rfl, rfl, fun _ => rfl⟩

theorem modifyProgram {f : ChannelProgram → ChannelProgram} (hne : b ≠ a) : Spares a c (c.modifyProgram b f) where
  subchannel := by rw [get?_modifyProgram, if_neg hne.symm]
  time := rfl
  waiting := rfl
  loading := rfl
  raised := id

theorem absorb {α : Type} {r : Reaction δ ω α} (hne : b ≠ a) : Spares a c (c.absorb b r) where
  subchannel := (Touches.absorb : Touches 0 b c (c.absorb b r)).others a hne.symm
  time := rfl
  waiting := rfl
  loading := rfl
  raised := id

theorem put {due : Nat} (hne : b ≠ a) : Spares a c { c with schedule := c.schedule.put b due } where
  subchannel := rfl
  time := by
    rw [Schedule.time?_put, if_neg hne.symm]
  waiting := rfl
  loading := rfl
  raised := id

theorem remove (hne : b ≠ a) : Spares a c { c with schedule := c.schedule.remove b } where
  subchannel := rfl
  time := by
    rw [Schedule.time?_remove, if_neg hne.symm]
  waiting := rfl
  loading := rfl
  raised := id

theorem setChannel {r : RealChannel} (hr : a.channel = b.channel → r.queue.filter (·.isOf a) = c.waiting a) :
    Spares a c (c.setChannel b.channel r) :=
  ⟨rfl, rfl, waiting_setChannel hr, rfl, id⟩

theorem queueStatus {next : Address} {status : ChannelStatus} {count : Half} (hne : b ≠ a) :
    Spares a c (c.queueStatus b (.of b next status count)) :=
  setChannel fun hchannel => (filter_push_of_ne hne hchannel).trans (by rw [← hchannel]; rfl)

theorem storeStatus (hne : b ≠ a) : Spares a c (c.storeStatus b) := by
  rw [Channels.storeStatus]
  split
  · exact refl
  · exact ((queueStatus hne).trans (modifyProgram hne)).trans raise

end Spares

theorem mem_addresses (h : (c.get? a).isSome) : a ∈ c.addresses := by
  obtain ⟨s, hs⟩ := Option.isSome_iff_exists.mp h
  exact List.mem_map.mpr ⟨a.bits, List.mem_map.mpr ⟨_, Table.get?_eq_some_iff.mp hs, rfl⟩, rfl⟩

theorem mem_addresses_of_program? {p : ChannelProgram} (hp : c.program? a = some p) : a ∈ c.addresses := by
  rw [program?, Option.map_eq_some_iff] at hp
  obtain ⟨s, hs, -⟩ := hp
  exact mem_addresses (by rw [hs]; rfl)

theorem takeWhile_ne {l l' : List DeviceAddress} (h : a ∉ l) : (l ++ a :: l').takeWhile (· ≠ a) = l := by
  have hall : ∀ b ∈ l, decide (b ≠ a) = true := fun b hb => decide_eq_true fun heq => h (heq ▸ hb)
  rw [List.takeWhile_append_of_pos hall, List.takeWhile_cons_of_neg (by simp), List.append_nil]

/-! ### Looks at other devices -/

theorem spares_addressed {command : Byte} {place : Address} : Spares a c (c.addressed b command place) := by
  rw [addressed]
  split
  · exact .setChannel fun hchannel => by rw [← hchannel]; rfl
  · exact .refl

theorem spares_answered {carried : ChannelStatus} {response : CommandResponse} (hne : b ≠ a) :
    Spares a c (c.answered now b carried response).2 := by
  cases response with
  | accepted delay =>
    dsimp only [answered]
    exact (Spares.put hne).trans (.modifyProgram hne)
  | done status =>
    dsimp only [answered]
    split
    · dsimp only
      exact Spares.raise.trans (.modifyProgram hne)
    split <;>
    · dsimp only
      exact Spares.raise.trans (.modifyProgram hne)

variable [Peripheral δ ω]

theorem spares_issue {command : Byte} (hne : b ≠ a) : Spares a c (c.issue now b command).2 := by
  cases hs : c.get? b with
  | none =>
    rw [issue, hs]
    exact .refl
  | some s =>
    rw [issue_eq hs]
    exact (spares_addressed.trans (.absorb hne)).trans (spares_answered hne)

theorem spares_continueProgram {allowed : Bool} (hne : b ≠ a) :
    Spares a c (c.continueProgram now mem b allowed).2 := by
  rw [continueProgram]
  split
  · exact .refl
  · split
    · exact (Spares.modifyProgram hne).trans .raise
    · dsimp only
      exact .modifyProgram hne
    · exact (Spares.modifyProgram hne).trans (spares_issue hne)

/-- A look at a device spares every other. Without loading it does not end the scan. -/
theorem spares_scanDevice (now : Nat) (mem : Memory) (hne : b ≠ a) (hloading : c.loading = none) :
    (c.scanDevice now mem b).1 = none ∧ Spares a c (c.scanDevice now mem b).2 := by
  rw [scanDevice]
  split
  · exact ⟨rfl, .refl⟩
  · next p hp =>
    split
    · split
      · split
        · have hcontinue : Spares a c (c.continueProgram now mem b true).2 := spares_continueProgram hne
          split <;> next heq =>
            rw [heq] at hcontinue
            first
              | exact ⟨rfl, (hcontinue.trans (.modifyProgram hne)).trans .raise⟩
              | exact ⟨rfl, hcontinue.trans .raise⟩
        · exact ⟨rfl, .raise⟩
      · rw [hloading, if_neg (by simp)]
        exact ⟨rfl, .storeStatus hne⟩
    · split
      · dsimp only
        exact ⟨rfl, (Spares.queueStatus hne).trans (.modifyProgram hne)⟩
      · exact ⟨rfl, .refl⟩

theorem spares_scanDevices {l : List DeviceAddress} (hl : a ∉ l) (hloading : c.loading = none) :
    (scanDevices now mem l c).1 = none ∧ Spares a c (scanDevices now mem l c).2 := by
  induction l generalizing c with
  | nil => exact ⟨rfl, .refl⟩
  | cons b rest ih =>
    obtain ⟨hnone, hspares⟩ := spares_scanDevice now mem (List.ne_of_not_mem_cons hl).symm hloading
    rw [scanDevices]
    split
    · next heq =>
      rw [heq] at hnone
      cases hnone
    · next c₁ heq =>
      rw [heq] at hspares
      obtain ⟨hnone', hspares'⟩ := ih (List.not_mem_of_not_mem_cons hl) (hspares.loading.trans hloading)
      exact ⟨hnone', hspares.trans hspares'⟩

/-! ### Services of other devices -/

/-- What a connection of a device has that concerns another device on the same channel. -/
def Alongside (a b : DeviceAddress) (c c' : Connection) : Prop :=
  c'.address = b ∧ (a.channel = b.channel → c'.channel.queue.filter (·.isOf a) = c.channel.queue.filter (·.isOf a)) ∧
    (c.raised = true → c'.raised = true)

theorem alongside_transferStep {α : Type} {x : Transfer.Step TransferEnd α} {c c' : Connection}
    (h : Alongside a b c c') : Alongside a b c (c'.transferStep x).2 := by
  obtain ⟨address, transfer, channel, raised⟩ := c'
  rw [Connection.transferStep]
  split
  · exact h
  · exact ⟨h.1, h.2.1, fun _ => rfl⟩

theorem kept_alongside (hne : b ≠ a) (c : Connection) : Connection.Kept (Alongside a b c) where
  readByte _ := alongside_transferStep
  writeByte _ _ := alongside_transferStep
  isComplete c' h := by
    obtain ⟨address, transfer, channel, raised⟩ := c'
    rw [Connection.isComplete]
    cases Transfer.isComplete transfer with
    | ok complete t => exact h
    | error e t => exact e.elim
  endCommand s c' h := by
    obtain ⟨address, transfer, channel, raised⟩ := c'
    rw [Connection.endCommand]
    cases Transfer.endCommand s transfer with
    | ok u t => exact ⟨h.1, h.2.1, fun _ => rfl⟩
    | error e t => exact e.elim
  attention s c' h := ⟨h.1, h.2.1, fun _ => rfl⟩
  wake s c' h := by
    obtain ⟨address, transfer, channel, raised⟩ := c'
    obtain ⟨rfl, hqueue, hraised⟩ := h
    exact ⟨rfl, fun hchannel => (filter_push_of_ne hne hchannel).trans (hqueue hchannel), fun _ => rfl⟩

/-- What a service leaves of the device's own program and of memory. -/
theorem serviceDevice_self {s : Subchannel δ} (now : Nat) (mem : Memory) (hs : c.get? a = some s) :
    ∃ t, t = (Connection.run (Peripheral.service s.device now) ⟨a, ⟨s.program, mem⟩, c.channel a.channel, c.raised⟩
        c.output).2.1.transfer ∧
      (c.serviceDevice now mem a).1.program? a = some t.program ∧ (c.serviceDevice now mem a).2 = t.memory := by
  refine ⟨_, rfl, ?_⟩
  rw [serviceDevice, hs]
  dsimp only
  generalize Connection.run _ _ _ = done
  obtain ⟨⟨device, again⟩, ⟨address, ⟨program, mem'⟩, channel, raised⟩, output⟩ := done
  refine ⟨?_, rfl⟩
  rw [get?] at hs
  rw [program?, get?]
  dsimp only
  rw [Table.get?_modify, if_pos rfl, hs]
  rfl

theorem spares_serviceDevice (now : Nat) (mem : Memory) (hne : b ≠ a) : Spares a c (c.serviceDevice now mem b).1 := by
  rw [serviceDevice]
  split
  · exact .refl
  · next s hs =>
    have hkept : Alongside a b ⟨b, ⟨s.program, mem⟩, c.channel b.channel, c.raised⟩ _ :=
      (kept_alongside hne _).run (Peripheral.service s.device now) c.output ⟨rfl, fun _ => rfl, id⟩
    dsimp only
    generalize Connection.run _ _ _ = done at hkept ⊢
    obtain ⟨⟨device, again⟩, ⟨address, ⟨program, mem'⟩, channel, raised⟩, output⟩ := done
    obtain ⟨-, hqueue, hraised⟩ := hkept
    exact {
      subchannel := by
        show Table.get? _ a.bits = Table.get? _ a.bits
        rw [Table.get?_modify, if_neg (bits_ne hne.symm)]
      time := by
        cases again with
        | none => rfl
        | some delay => exact (Spares.put (c := c) hne).time
      waiting := waiting_setChannel (c := c) fun hchannel => (hqueue hchannel).trans (by rw [← hchannel]; rfl)
      loading := rfl
      raised := hraised }

/-! ### A poll -/

/-- A poll spares a device that is not due. -/
theorem spares_pollUpTo {limit : Nat} (hdue : ∀ due, c.schedule.time? a = some due → now < due) :
    Spares a c (pollUpTo now limit c mem).1 := by
  induction limit generalizing c mem with
  | zero => exact .refl
  | succ limit ih =>
    rw [pollUpTo]
    cases hpop : c.schedule.popDue? now with
    | none => exact .refl
    | some popped =>
      obtain ⟨b, schedule⟩ := popped
      obtain ⟨time, hle, hmem, rfl⟩ := Schedule.popDue?_eq_some hpop
      have hne : b ≠ a := fun heq => by
        have hlt := hdue time (Schedule.time?_eq_some_iff.mpr (heq ▸ hmem))
        omega
      have hspares := (Spares.remove (c := c) hne).trans (spares_serviceDevice now mem hne)
      exact hspares.trans (ih fun due htime => hdue due (hspares.time.symm.trans htime))

/-- A poll that services all that is due services a device that is due once, after some services of others and before
some. -/
theorem pollUpTo_of_due {limit due : Nat} (hall : (pollUpTo now limit c mem).1.schedule.NoneDue now)
    (htime : c.schedule.time? a = some due) (hle : due ≤ now)
    (hlast : ∀ (c' : Channels δ ω) mem', c'.get? a = c.get? a → c'.schedule.time? a = none →
      (c'.serviceDevice now mem' a).1.schedule.time? a = none) :
    ∃ c₁ mem₁, Spares a { c with schedule := c.schedule.remove a } c₁ ∧
      Spares a (c₁.serviceDevice now mem₁ a).1 (pollUpTo now limit c mem).1 := by
  induction limit generalizing c mem with
  | zero => exact absurd hall (Schedule.not_noneDue htime hle)
  | succ limit ih =>
    rw [pollUpTo] at hall ⊢
    cases hpop : c.schedule.popDue? now with
    | none => exact absurd (Schedule.popDue?_eq_none_iff.mp hpop) (Schedule.not_noneDue htime hle)
    | some popped =>
      obtain ⟨b, schedule⟩ := popped
      rw [hpop] at hall
      obtain ⟨time, htimele, hmem, rfl⟩ := Schedule.popDue?_eq_some hpop
      by_cases hb : b = a
      · subst hb
        have hgone := hlast { c with schedule := c.schedule.remove b } mem rfl
          ((Schedule.time?_remove c.schedule b b).trans (if_pos rfl))
        refine ⟨_, mem, .refl, spares_pollUpTo fun due' htime' => ?_⟩
        rw [hgone] at htime'
        cases htime'
      · have hspares := (Spares.remove (c := c) hb).trans (spares_serviceDevice now mem hb)
        obtain ⟨c₁, mem₁, hbefore, hafter⟩ := ih hall (hspares.time.trans htime) fun c' mem' hget =>
          hlast c' mem' (hget.trans hspares.subchannel)
        refine ⟨c₁, mem₁, .trans ?_ hbefore, hafter⟩
        exact {
          subchannel := hspares.subchannel
          time := by rw [Schedule.time?_remove, if_pos rfl, Schedule.time?_remove, if_pos rfl]
          waiting := hspares.waiting
          loading := hspares.loading
          raised := hspares.raised }

theorem spares_poll (hdue : ∀ due, c.schedule.time? a = some due → now < due) : Spares a c (c.poll now mem).1 :=
  spares_pollUpTo hdue

/-! ### A scan -/

/-- The channels when a scan comes to a device. -/
def turn (c : Channels δ ω) (now : Nat) (mem : Memory) (a : DeviceAddress) : Channels δ ω :=
  (scanDevices now mem (c.addresses.takeWhile (· ≠ a)) { c with raised := false }).2

theorem scanDevices_append {l l' : List DeviceAddress} (h : (scanDevices now mem l c).1 = none) :
    scanDevices now mem (l ++ l') c = scanDevices now mem l' (scanDevices now mem l c).2 := by
  induction l generalizing c with
  | nil => rfl
  | cons b rest ih =>
    rw [List.cons_append, scanDevices]
    rw [scanDevices] at h ⊢
    split
    · next heq =>
      rw [heq] at h
      cases h
    · next c₁ heq =>
      rw [heq] at h
      exact ih h

/-- The looks at the devices before it spare a device, and do not end the scan. -/
theorem spares_before (now : Nat) (mem : Memory) (a : DeviceAddress) (hloading : c.loading = none) :
    (scanDevices now mem (c.addresses.takeWhile (· ≠ a)) { c with raised := false }).1 = none ∧
      Spares a { c with raised := false } (c.turn now mem a) :=
  spares_scanDevices (fun h => of_decide_eq_true (List.all_eq_true.mp List.all_takeWhile a h) rfl) hloading

/-- A scan comes to a device once, and spares it after that. -/
theorem scan_turn (hraised : c.raised = true) (hloading : c.loading = none) (hs : (c.get? a).isSome)
    (hnone : ((c.turn now mem a).scanDevice now mem a).1 = none)
    (hkept : ((c.turn now mem a).scanDevice now mem a).2.loading = none) :
    Spares a ((c.turn now mem a).scanDevice now mem a).2 (c.scan now mem).2 := by
  obtain ⟨before, after, hsplit, hbefore⟩ := List.eq_append_cons_of_mem (mem_addresses hs)
  have hafter : a ∉ after := by
    have hnodup := c.nodup_addresses
    rw [hsplit] at hnodup
    exact (List.nodup_cons.mp (List.nodup_append.mp hnodup).2.1).1
  have hfirst := (spares_before now mem a hloading).1
  rw [turn, hsplit, takeWhile_ne hbefore] at hnone hkept ⊢
  rw [hsplit, takeWhile_ne hbefore] at hfirst
  rw [scan, if_pos hraised, hsplit, scanDevices_append hfirst, scanDevices]
  generalize (scanDevices now mem before { c with raised := false }).2.scanDevice now mem a = done at hnone hkept ⊢
  obtain ⟨progress, c'⟩ := done
  obtain rfl : progress = none := hnone
  exact (spares_scanDevices hafter hkept).2

end Channels
end Concept32
