import Concept32.Channel.Polling
import Concept32.Proofs.Devices
import Concept32.Proofs.Schedule
import Concept32.Proofs.Table

/-!
# What a scan changes

A scan goes from device to device and touches only the subchannel of each. When it leaves every subchannel
as it was, it has queued no status, and the signal is raised again only by a program whose command has ended
on the channel and that has a command chained to it.
-/

namespace Concept32.Channels
variable {δ ω : Type} {c c' c'' : Channels δ ω} {a b : DeviceAddress} {now : Nat} {mem : Memory}

/-! ### Parts -/

theorem bits_ne (h : b ≠ a) : b.bits ≠ a.bits := fun hbits => h (by
  cases a
  cases b
  exact congrArg _ hbits)

theorem get?_modifyProgram (c : Channels δ ω) (a b : DeviceAddress) (f : ChannelProgram → ChannelProgram) :
    (c.modifyProgram a f).get? b =
      if b = a then (c.get? a).map fun s => { s with program := f s.program } else c.get? b := by
  rw [get?, modifyProgram, Table.get?_modify]
  split
  · next hbits =>
    rw [if_pos (Decidable.byContradiction fun h => bits_ne h hbits), hbits]
    rfl
  · next hbits =>
    rw [if_neg fun h => hbits (by rw [h])]
    rfl

theorem get?_absorb_self {α : Type} {r : Reaction δ ω α} (hs : c.get? a = some s) :
    (c.absorb a r).get? a = some { s with device := r.device } := by
  rw [get?] at hs
  rw [get?, absorb, Table.get?_modify, if_pos rfl, hs]
  rfl

theorem program?_modifyProgram_self (c : Channels δ ω) (a : DeviceAddress) (f : ChannelProgram → ChannelProgram) :
    (c.modifyProgram a f).program? a = (c.program? a).map f := by
  rw [program?, get?_modifyProgram, if_pos rfl, program?, Option.map_map, Option.map_map]
  rfl

theorem program?_raise : c.raise.program? a = c.program? a := rfl

theorem program?_queueStatus {s : StatusDoubleword} : (c.queueStatus b s).program? a = c.program? a := rfl

theorem nodup_addresses (c : Channels δ ω) : c.addresses.Nodup :=
  List.pairwise_map.mpr (c.subchannels.nodup_keys.imp fun hne heq => hne (congrArg DeviceAddress.bits heq))

theorem channel_setChannel (c : Channels δ ω) (n k : Byte) (r : RealChannel) :
    (c.setChannel n r).channel k = if k = n then r else c.channel k := by
  rw [channel, setChannel, Table.get?_set]
  split <;> rfl

theorem program?_storeStatus {p : ChannelProgram} (hp : c.program? a = some p) :
    (c.storeStatus a).program? a = some { p with status := .none, count := 0, device := none } := by
  rw [storeStatus, hp]
  dsimp only
  rw [program?_raise, program?_modifyProgram_self, program?_queueStatus, hp]
  rfl

theorem interruptPending_iff : c.interruptPending = true ↔ c.raised = true ∨ ∃ n, (c.channel n).queue ≠ [] := by
  rw [interruptPending, Bool.or_eq_true, List.any_eq_true]
  refine or_congr_right ⟨?_, ?_⟩
  · rintro ⟨r, hr, hstatus⟩
    obtain ⟨n, hn⟩ := Table.mem_values_iff.mp hr
    refine ⟨n, ?_⟩
    rw [channel, hn]
    simpa [RealChannel.hasStatus] using hstatus
  · rintro ⟨n, hn⟩
    cases hr : c.real.get? n with
    | none =>
      rw [channel, hr] at hn
      exact absurd rfl hn
    | some r =>
      rw [channel, hr] at hn
      exact ⟨r, Table.mem_values_iff.mpr ⟨n, hr⟩, by simpa [RealChannel.hasStatus] using hn⟩

theorem interruptPending_eq_false (hraised : c.raised = false) (hqueue : ∀ n, (c.channel n).queue = []) :
    c.interruptPending = false := by
  refine eq_false_of_ne_true fun hpending => ?_
  rcases interruptPending_iff.mp hpending with hup | ⟨n, hstatus⟩
  · cases hraised.symm.trans hup
  · exact hstatus (hqueue n)

/-! ### Touching one device -/

/-- Only the subchannel at an address has changed, and nothing has become due. -/
structure Touches (now : Nat) (a : DeviceAddress) (c c' : Channels δ ω) : Prop where
  others : ∀ b, b ≠ a → c'.get? b = c.get? b
  noneDue : c.schedule.NoneDue now → c'.schedule.NoneDue now

/-- The queues of the channels and the loading of the machine are as they were. -/
structure Queues (c c' : Channels δ ω) : Prop where
  queue : ∀ n, (c'.channel n).queue = (c.channel n).queue
  loading : c'.loading = c.loading

namespace Touches

theorem refl : Touches now a c c := ⟨fun _ _ => rfl, id⟩

theorem trans (h : Touches now a c c') (h' : Touches now a c' c'') : Touches now a c c'' :=
  ⟨fun b hb => (h'.others b hb).trans (h.others b hb), h'.noneDue ∘ h.noneDue⟩

theorem modifyProgram {f : ChannelProgram → ChannelProgram} : Touches now a c (c.modifyProgram a f) :=
  ⟨fun b hb => by rw [get?_modifyProgram, if_neg hb], id⟩

theorem absorb {α : Type} {r : Reaction δ ω α} : Touches now a c (c.absorb a r) :=
  ⟨fun b hb => by
    rw [get?, Channels.absorb, Table.get?_modify, if_neg (bits_ne hb)]
    rfl, id⟩

theorem raise : Touches now a c c.raise := ⟨fun _ _ => rfl, id⟩

theorem setChannel {n : Byte} {r : RealChannel} : Touches now a c (c.setChannel n r) := ⟨fun _ _ => rfl, id⟩

theorem put {due : Nat} (hlt : now < due) :
    Touches now a c { c with schedule := c.schedule.put a due } :=
  ⟨fun _ _ => rfl, fun h => h.put hlt⟩

theorem storeStatus : Touches now a c (c.storeStatus a) := by
  rw [Channels.storeStatus]
  split
  · exact refl
  · exact (setChannel.trans modifyProgram).trans raise

end Touches

namespace Queues

theorem refl : Queues c c := ⟨fun _ => rfl, rfl⟩

theorem trans (h : Queues c c') (h' : Queues c' c'') : Queues c c'' :=
  ⟨fun n => (h'.queue n).trans (h.queue n), h'.loading.trans h.loading⟩

end Queues

/-! ### Going on with a program -/

variable [Peripheral δ ω]

theorem touches_issue {command : Byte} :
    (Peripheral.AsksLater δ → Touches now a c (c.issue now a command).2) ∧ Queues c (c.issue now a command).2 := by
  rw [issue]
  split
  · exact ⟨fun _ => .refl, .refl⟩
  · next s hs =>
    dsimp only
    -- The place where status is presented may change, and no queue with it.
    generalize hset : (if command = ChannelCommand.setStatusAddress then
        c.setChannel a.channel { c.channel a.channel with statusAddress := s.program.dataAddress }
      else c) = set
    have hstart : Touches now a c set ∧ Queues c set := by
      rw [← hset]
      split
      · refine ⟨.setChannel, fun n => ?_, rfl⟩
        rw [channel_setChannel]
        split
        · next h => rw [h]
        · rfl
      · exact ⟨.refl, .refl⟩
    generalize hr : (if (ChannelCommand.isWrite command && Peripheral.writeProtected s.device) = true then
        Reaction.only s.device (CommandResponse.done (ChannelStatus.unitCheck.union .deviceEnd))
      else Peripheral.startCommand s.device now command) = r
    have hdelay : Peripheral.AsksLater δ → ∀ delay, r.answer = .accepted delay → 0 < delay := fun hlater => by
      rw [← hr]
      split
      · intro delay h
        cases h
      · exact hlater.startCommand _ _ _
    split
    · next delay hanswer =>
      refine ⟨fun hlater => ?_, hstart.2.queue, hstart.2.loading⟩
      have := hdelay hlater delay hanswer
      exact ((hstart.1.trans .absorb).trans .modifyProgram).trans (.put (by omega))
    · have hraise : Touches now a c (set.absorb a r).raise := (hstart.1.trans .absorb).trans .raise
      split
      · refine ⟨fun _ => hraise.trans ?_, hstart.2.queue, hstart.2.loading⟩
        dsimp only
        exact .modifyProgram
      · split <;>
        · refine ⟨fun _ => hraise.trans ?_, hstart.2.queue, hstart.2.loading⟩
          dsimp only
          exact .modifyProgram

theorem touches_continueProgram {allowed : Bool} :
    (Peripheral.AsksLater δ → Touches now a c (c.continueProgram now mem a allowed).2) ∧
      Queues c (c.continueProgram now mem a allowed).2 := by
  rw [continueProgram]
  split
  · exact ⟨fun _ => .refl, .refl⟩
  · split
    · exact ⟨fun _ => .trans .modifyProgram .raise, fun _ => rfl, rfl⟩
    · exact ⟨fun _ => by dsimp only; exact .modifyProgram, fun _ => rfl, rfl⟩
    · next command p hfetch =>
      obtain ⟨htouches, hqueues⟩ : (Peripheral.AsksLater δ → Touches now a (c.modifyProgram a fun _ => p)
          ((c.modifyProgram a fun _ => p).issue now a command).2) ∧ Queues (c.modifyProgram a fun _ => p)
          ((c.modifyProgram a fun _ => p).issue now a command).2 := touches_issue
      exact ⟨fun hlater => .trans .modifyProgram (htouches hlater), hqueues.queue, hqueues.loading⟩

/-! ### Scanning -/

/-- The program at an address has a command that has ended on the channel, with another chained to it. -/
def AwaitsDevice (c : Channels δ ω) (a : DeviceAddress) : Prop :=
  ∃ p, c.program? a = some p ∧ p.status.contains .channelEnd ∧ p.flags.contains .commandChain

/-- What a scan does with one device: nothing; or it looks at a chained command; or it queues status, which
the program has then no longer; or the loading of the machine has ended. -/
theorem scanDevice_inv {progress : Option LoadProgress} (h : c.scanDevice now mem a = (progress, c')) :
    (Peripheral.AsksLater δ → Touches now a c c') ∧
      ((progress = none ∧ c' = c) ∨
        (progress = none ∧ Queues c c' ∧ c.AwaitsDevice a) ∨
        (progress = none ∧ c'.loading = c.loading ∧ c'.program? a ≠ c.program? a) ∨
        (progress.isSome ∧ c.loading = some a ∧ c'.loading = none)) := by
  rw [scanDevice] at h
  split at h
  · cases h
    exact ⟨fun _ => .refl, .inl ⟨rfl, rfl⟩⟩
  · next p hp =>
    split at h
    · next hend =>
      split at h
      · next hchain =>
        have hawaits : c.AwaitsDevice a := ⟨p, hp, hend, hchain⟩
        split at h
        · obtain ⟨htouches, hqueues⟩ : (Peripheral.AsksLater δ → Touches now a c (c.continueProgram now mem a true).2) ∧
              Queues c (c.continueProgram now mem a true).2 := touches_continueProgram
          split at h <;> next heq =>
            rw [heq] at htouches hqueues
            cases h
            first
              | exact ⟨fun hlater => ((htouches hlater).trans .modifyProgram).trans .raise,
                  .inr (.inl ⟨rfl, ⟨hqueues.queue, hqueues.loading⟩, hawaits⟩)⟩
              | exact ⟨fun hlater => (htouches hlater).trans .raise,
                  .inr (.inl ⟨rfl, ⟨hqueues.queue, hqueues.loading⟩, hawaits⟩)⟩
        · cases h
          exact ⟨fun _ => .raise, .inr (.inl ⟨rfl, ⟨fun _ => rfl, rfl⟩, hawaits⟩)⟩
      · split at h
        · next hloading =>
          dsimp only at h
          split at h <;> cases h
          · exact ⟨fun _ => ⟨fun _ _ => rfl, id⟩, .inr (.inr (.inr ⟨rfl, hloading, rfl⟩))⟩
          · refine ⟨fun _ => ⟨fun b hb => ?_, id⟩, .inr (.inr (.inr ⟨rfl, hloading, rfl⟩))⟩
            rw [get?_modifyProgram, if_neg hb]
            rfl
        · cases h
          refine ⟨fun _ => .storeStatus, .inr (.inr (.inl ⟨rfl, ?_, ?_⟩))⟩
          · rw [storeStatus, hp]
            rfl
          · rw [program?_storeStatus hp, hp]
            intro heq
            have hstatus : ChannelStatus.none = p.status := congrArg ChannelProgram.status (Option.some.inj heq)
            rw [← hstatus] at hend
            exact absurd hend (by decide)
    · split at h <;> cases h
      · next hpending =>
        refine ⟨fun _ => .trans .setChannel .modifyProgram, .inr (.inr (.inl ⟨rfl, rfl, ?_⟩))⟩
        rw [program?_modifyProgram_self, program?_queueStatus, hp]
        intro heq
        have hstatus : ChannelStatus.none = p.pending := congrArg ChannelProgram.pending (Option.some.inj heq)
        rw [← hstatus] at hpending
        exact absurd hpending (by simp [ChannelStatus.isEmpty, ChannelStatus.none])
      · exact ⟨fun _ => .refl, .inl ⟨rfl, rfl⟩⟩

/-! ### A whole scan -/

theorem get?_scanDevices (hlater : Peripheral.AsksLater δ) {l : List DeviceAddress} {progress : Option LoadProgress}
    (h : scanDevices now mem l c = (progress, c')) :
    (∀ a, a ∉ l → c'.get? a = c.get? a) ∧ (c.schedule.NoneDue now → c'.schedule.NoneDue now) := by
  induction l generalizing c with
  | nil =>
    cases h
    exact ⟨fun _ _ => rfl, id⟩
  | cons b rest ih =>
    rw [scanDevices] at h
    split at h
    · next heq =>
      cases h
      have htouches := (scanDevice_inv heq).1 hlater
      exact ⟨fun a ha => htouches.others a (List.ne_of_not_mem_cons ha), htouches.noneDue⟩
    · next c₁ heq =>
      have htouches := (scanDevice_inv heq).1 hlater
      obtain ⟨hothers, hdue⟩ := ih h
      exact ⟨fun a ha => (hothers a (List.not_mem_of_not_mem_cons ha)).trans
        (htouches.others a (List.ne_of_not_mem_cons ha)), hdue ∘ htouches.noneDue⟩

/-- The machine is no longer loaded from a device when the loading has ended, and not before. -/
theorem loading_scanDevices {l : List DeviceAddress} {progress : Option LoadProgress}
    (h : scanDevices now mem l c = (progress, c')) :
    (progress = none ∧ c'.loading = c.loading) ∨ (progress.isSome ∧ c.loading.isSome ∧ c'.loading = none) := by
  induction l generalizing c with
  | nil =>
    cases h
    exact .inl ⟨rfl, rfl⟩
  | cons b rest ih =>
    rw [scanDevices] at h
    split at h
    · next heq =>
      cases h
      rcases (scanDevice_inv heq).2 with ⟨hnone, -⟩ | ⟨hnone, -⟩ | ⟨hnone, -⟩ | ⟨-, hloading, hgone⟩
      · cases hnone
      · cases hnone
      · cases hnone
      · exact .inr ⟨rfl, by rw [hloading]; rfl, hgone⟩
    · next c₁ heq =>
      have hkept : c₁.loading = c.loading := by
        rcases (scanDevice_inv heq).2 with ⟨-, rfl⟩ | ⟨-, hqueues, -⟩ | ⟨-, hloading, -⟩ | ⟨hsome, -⟩
        · rfl
        · exact hqueues.loading
        · exact hloading
        · cases hsome
      rw [← hkept]
      exact ih h

/-- A scan that leaves every subchannel as it was queues nothing, and raises the signal only for a program
that waits for its device. -/
theorem queues_scanDevices (hlater : Peripheral.AsksLater δ) {l : List DeviceAddress} (hl : l.Nodup)
    (h : scanDevices now mem l c = (none, c')) (hsame : ∀ a ∈ l, c'.get? a = c.get? a) :
    Queues c c' ∧ (c'.raised = true → c.raised = true ∨ ∃ a ∈ l, c.AwaitsDevice a) := by
  induction l generalizing c with
  | nil =>
    cases h
    exact ⟨.refl, .inl⟩
  | cons b rest ih =>
    rw [List.nodup_cons] at hl
    rw [scanDevices] at h
    split at h
    · cases h
    · next c₁ heq =>
      obtain ⟨htouches, hcases⟩ := scanDevice_inv heq
      -- The rest of the scan does not come back to this device, so it has not changed it.
      have hb : c₁.get? b = c.get? b := by
        rw [← (get?_scanDevices hlater h).1 b hl.1]
        exact hsame b List.mem_cons_self
      have hrest : ∀ a ∈ rest, c₁.get? a = c.get? a := fun a ha =>
        (htouches hlater).others a fun heq => hl.1 (heq ▸ ha)
      obtain ⟨hqueues, hraised⟩ := ih hl.2 h fun a ha =>
        (hsame a (List.mem_cons_of_mem _ ha)).trans (hrest a ha).symm
      have hawaits : ∀ a ∈ rest, c₁.AwaitsDevice a → c.AwaitsDevice a := fun a ha ⟨p, hp, hrest'⟩ =>
        ⟨p, by rw [← hp, program?, program?, hrest a ha], hrest'⟩
      have hlater' : c'.raised = true → c₁.raised = true ∨ ∃ a ∈ b :: rest, c.AwaitsDevice a := fun hr => by
        rcases hraised hr with hr | ⟨a, ha, hw⟩
        · exact .inl hr
        · exact .inr ⟨a, List.mem_cons_of_mem _ ha, hawaits a ha hw⟩
      rcases hcases with ⟨-, rfl⟩ | ⟨-, hq, hw⟩ | ⟨-, -, hne⟩ | ⟨hsome, -⟩
      · exact ⟨hqueues, hlater'⟩
      · exact ⟨hq.trans hqueues, fun _ => .inr ⟨b, List.mem_cons_self, hw⟩⟩
      · exact absurd (by rw [program?, program?, hb]) hne
      · cases hsome

/-- A scan makes nothing due, and the machine is no longer loaded from a device when the loading has ended. -/
theorem scan_inv {progress : Option LoadProgress} (h : c.scan now mem = (progress, c')) :
    (Peripheral.AsksLater δ → c.schedule.NoneDue now → c'.schedule.NoneDue now) ∧
      ((progress = none ∧ c'.loading = c.loading) ∨ (progress.isSome ∧ c.loading.isSome ∧ c'.loading = none)) := by
  rw [scan] at h
  split at h
  · have hloading := loading_scanDevices h
    exact ⟨fun hlater => (get?_scanDevices hlater h).2, hloading⟩
  · cases h
    exact ⟨fun _ => id, .inl ⟨rfl, rfl⟩⟩

/-- After a scan that leaves every subchannel as it was the queues are as they were, and the signal is raised
only by a program that waits for its device. -/
theorem queues_scan (hlater : Peripheral.AsksLater δ) (h : c.scan now mem = (none, c'))
    (hsame : c'.subchannels = c.subchannels) :
    Queues c c' ∧ (c'.raised = true → c.raised = true ∧ ∃ a, c.AwaitsDevice a) := by
  rw [scan] at h
  split at h
  · next hraised =>
    obtain ⟨hqueues, hagain⟩ := queues_scanDevices hlater c.nodup_addresses h fun a _ => by rw [get?, hsame]; rfl
    refine ⟨⟨hqueues.queue, hqueues.loading⟩, fun hr => ⟨hraised, ?_⟩⟩
    rcases hagain hr with hfalse | ⟨a, -, hawaits⟩
    · cases hfalse
    · exact ⟨a, hawaits⟩
  · next hquiet =>
    cases h
    exact ⟨.refl, fun hr => absurd hr hquiet⟩

end Concept32.Channels
