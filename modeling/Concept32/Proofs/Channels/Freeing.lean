import Concept32.Proofs.Channels.SoundPrograms

/-!
# Programs that have ended are free

Every operation on the channels keeps the programs sound, as long as no command is ended at once in the middle of its
data and no status is taken that a chain waits for. Then a program whose final status is queued is free.
-/

namespace Concept32

/-! ### Operations -/

namespace Operation
open Channels ChannelProgram
variable {δ ω : Type} [Peripheral δ ω] {s : WithMemory δ ω} {op : Operation δ} {ops : List (Operation δ)}

/-- The operation neither has a command ended at once in the middle of its data, nor takes the status that a chain
waits for. -/
def Proper (s : WithMemory δ ω) : Operation δ → Prop
  | scan now => s.1.raised = true → ∀ a ∈ s.1.looked s.1.addresses, s.1.LooksWell now s.2 a
  | startIo now a first => s.1.StartsWell now s.2 a first
  | boot now a => s.1.LoadsWell now s.2 a
  | storeStatus a =>
    ∀ p ∈ s.1.program? a, p.command = none → p.flags.contains .commandChain = false
  | _ => True

instance : DecidablePred (Proper s)
  | scan now => inferInstanceAs (Decidable
      (s.1.raised = true → ∀ a ∈ s.1.looked s.1.addresses, s.1.LooksWell now s.2 a))
  | startIo now a first => inferInstanceAs (Decidable (s.1.StartsWell now s.2 a first))
  | boot now a => inferInstanceAs (Decidable (s.1.LoadsWell now s.2 a))
  | storeStatus a => inferInstanceAs (Decidable
      (∀ p ∈ s.1.program? a, p.command = none → p.flags.contains .commandChain = false))
  | store _ | attach .. | reset _ | resetChannel _ | resetController .. | testIo .. | stopIo _ | haltIo ..
  | commandDevice .. | testDevice .. | postStatus _ | receive .. | wake .. | poll _ => inferInstanceAs (Decidable True)

theorem allSound_perform (h : s.1.AllSound) : (op.perform s).1.AllSound ↔ op.Proper s := by
  cases op with
  | scan now => exact allSound_scan h
  | startIo now a first => exact allSound_startIo h
  | boot now a => exact allSound_boot h
  | storeStatus a => exact allSound_storeStatus h
  | store f => exact iff_of_true h trivial
  | attach now a device => exact iff_of_true (allSound_attach h) trivial
  | reset now => exact iff_of_true allSound_reset trivial
  | resetChannel k => exact iff_of_true (allSound_resetChannel h) trivial
  | resetController now a => exact iff_of_true (allSound_resetDevice h) trivial
  | testIo now a icb => exact iff_of_true (allSound_testIo h) trivial
  | stopIo a => exact iff_of_true (allSound_stopIo h) trivial
  | haltIo now a => exact iff_of_true (allSound_haltIo h) trivial
  | commandDevice now a command => exact iff_of_true (allSound_commandDevice h) trivial
  | testDevice now a command => exact iff_of_true (allSound_testDevice h) trivial
  | postStatus k => exact iff_of_true (allSound_postStatus h) trivial
  | receive a status => exact iff_of_true (allSound_receive h) trivial
  | wake a status => exact iff_of_true (allSound_of_same h fun _ => rfl) trivial
  | poll now => exact iff_of_true (allSound_pollUpTo h) trivial

def AlwaysProper (s : WithMemory δ ω) : List (Operation δ) → Prop
  | [] => True
  | op :: rest => op.Proper s ∧ AlwaysProper (op.perform s) rest

def AlwaysSound (s : WithMemory δ ω) : List (Operation δ) → Prop
  | [] => s.1.AllSound
  | op :: rest => s.1.AllSound ∧ AlwaysSound (op.perform s) rest

instance decidableAlwaysProper (s : WithMemory δ ω) : (ops : List (Operation δ)) → Decidable (AlwaysProper s ops)
  | [] => inferInstanceAs (Decidable True)
  | op :: rest =>
    have : Decidable (AlwaysProper (op.perform s) rest) := decidableAlwaysProper (op.perform s) rest
    inferInstanceAs (Decidable (op.Proper s ∧ AlwaysProper (op.perform s) rest))

theorem alwaysSound_iff (h : s.1.AllSound) : AlwaysSound s ops ↔ AlwaysProper s ops := by
  induction ops generalizing s with
  | nil => exact iff_of_true h trivial
  | cons op rest ih =>
    have hstep : (op.perform s).1.AllSound ↔ op.Proper s := allSound_perform h
    have hhead : AlwaysSound (op.perform s) rest → (op.perform s).1.AllSound := by
      cases rest with
      | nil => exact id
      | cons op' rest => exact And.left
    exact ⟨fun hsound => ⟨hstep.mp (hhead hsound.2), (ih (hhead hsound.2)).mp hsound.2⟩,
      fun hproper => ⟨h, (ih (hstep.mpr hproper.1)).mpr hproper.2⟩⟩

theorem allSound_performAll (h : s.1.AllSound) (hproper : AlwaysProper s ops) : (performAll s ops).1.AllSound := by
  induction ops generalizing s with
  | nil => exact h
  | cons op rest ih => exact ih ((allSound_perform h).mpr hproper.1) hproper.2

end Operation

/-! ### What finishes -/

namespace Channels
open ChannelProgram
variable {δ ω : Type} [Peripheral δ ω] {c : Channels δ ω} {a : DeviceAddress} {now now' : Nat} {mem mem' : Memory}
  {first : Address} {p : ChannelProgram}

/-- The next scan queues the final status of the program, which has no command in progress. -/
structure Finishes (c : Channels δ ω) (a : DeviceAddress) (p : ChannelProgram) : Prop where
  raised : c.raised = true
  program : c.program? a = some p
  command : p.command = none
  channelEnd : p.status.contains .channelEnd = true
  queued : ownReport a p ∈ c.presented a.channel

theorem launch_ne_channelBusy : (c.launch now mem a).1 ≠ .channelBusy := by
  intro h
  rw [launch] at h
  split at h
  · cases h
  split at h
  · cases h
  split at h
  · cases h
  dsimp only at h
  split at h
  · cases h
  · cases h

theorem startIo_channelBusy_iff :
    (c.startIo now mem a first).1 = .channelBusy ↔ c.isAttached a = true ∧ c.isBusy a = true := by
  cases hs : c.get? a with
  | none =>
    rw [startIo, isAttached, hs]
    exact iff_of_false (fun h => by cases h) fun h => by cases h.1
  | some s =>
    have hattached : c.isAttached a = Peripheral.attached s.device := by rw [isAttached, hs]; rfl
    have hbusy : c.isBusy a = s.program.isBusy := by rw [isBusy, program?, hs]; rfl
    rw [hattached, hbusy]
    by_cases hfree : Free s
    · refine iff_of_false ?_ fun h => by cases hfree.2.symm.trans h.2
      by_cases hwilling : Willing s now
      · rw [startIo_of_willing hs hfree hwilling]
        exact launch_ne_channelBusy
      · rw [startIo_of_not_willing hs hfree hwilling]
        exact fun h => by cases h
    · rw [startIo, hs]
      dsimp only
      cases hmedium : Peripheral.attached s.device with
      | false => exact iff_of_false (fun h => by cases h) fun h => by cases h.1
      | true =>
        cases hprogram : s.program.isBusy with
        | false => exact absurd ⟨hmedium, hprogram⟩ hfree
        | true => exact iff_of_true rfl ⟨rfl, rfl⟩

theorem Finishes.program?_scan (now : Nat) (mem : Memory) (h : c.Finishes a p) :
    (c.scan now mem).2.program? a = some (stored p) ∧ p.flags.contains .commandChain = false := by
  have hlooked : a ∈ c.looked c.addresses := mem_looked_of_mem_presented h.queued
  have hlast : p.flags.contains .commandChain = false := by
    obtain ⟨b, -, hreport⟩ := List.mem_filterMap.mp h.queued
    rw [reportOf] at hreport
    split at hreport
    · obtain ⟨q, hq, hreport⟩ := Option.bind_eq_some_iff.mp hreport
      obtain rfl : a = b := device_of_report? hreport
      obtain rfl : p = q := Option.some.inj (h.program.symm.trans hq)
      rw [report?, if_pos h.channelEnd] at hreport
      cases hchain : p.flags.contains .commandChain with
      | false => rfl
      | true =>
        rw [hchain] at hreport
        cases hreport
    · cases hreport
  exact ⟨(scanned_scan now mem h.raised).cleared a hlooked p h.program h.channelEnd hlast, hlast⟩

/-- A program that has finished stays busy when data were chained to its last command. -/
theorem Finishes.isBusy_scan (h : c.Finishes a p) : (c.scan now mem).2.isBusy a = p.flags.contains .dataChain := by
  obtain ⟨hstored, hlast⟩ := h.program?_scan now mem
  rw [isBusy, hstored, Option.any_some]
  unfold ChannelProgram.isBusy CommandFlags.chaining stored
  dsimp only
  rw [h.command, hlast]
  simp

theorem program?_scan_of_stuck (hstuck : p.Stuck) (hp : c.program? a = some p) :
    (c.scan now mem).2.program? a = some p := by
  have hlist : ∀ (l : List DeviceAddress) {c : Channels δ ω}, c.program? a = some p →
      (scanDevices now mem l c).2.program? a = some p := by
    intro l
    induction l with
    | nil => exact id
    | cons b rest ih =>
      intro c hp
      -- The look at the device itself finds a program that has not ended and is not idle.
      have hlook : (c.scanDevice now mem b).2.program? a = some p := by
        by_cases hb : b = a
        · have hnone : c.scanDevice now mem b = (none, c) := by
            rw [scanDevice, hb, hp]
            simp [hstuck.channelEnd, hstuck.busy]
          rw [hnone]
          exact hp
        · rw [program?, ← hp, program?, get?_scanDevice hb]
      rw [scanDevices]
      generalize c.scanDevice now mem b = done at hlook
      obtain ⟨progress, c'⟩ := done
      cases progress with
      | none => exact ih hlook
      | some progress => exact hlook
  rw [scan]
  split
  · exact hlist _ hp
  · exact hp

end Channels

namespace Operation
open Channels ChannelProgram
variable {δ ω : Type} [Peripheral δ ω]

/-- What has finished is free, and what is busy goes on. -/
structure Frees (s : WithMemory δ ω) : Prop where
  free : ∀ now a p, s.1.Finishes a p → (s.1.scan now s.2).2.isBusy a = false
  startable : ∀ now a p, s.1.Finishes a p → ∀ now' mem first,
    ((s.1.scan now s.2).2.startIo now' mem a first).1 ≠ .channelBusy
  goesOn : ∀ a p, s.1.program? a = some p → p.isBusy = true →
    p.command.isSome = true ∨ (p.status.contains .channelEnd = true ∧ p.flags.contains .commandChain = true)

theorem frees_of_allSound {s : WithMemory δ ω} (h : s.1.AllSound) : Frees s := by
  have hfree : ∀ now a p, s.1.Finishes a p → (s.1.scan now s.2).2.isBusy a = false := fun now a p hp =>
    hp.isBusy_scan.trans ((h a p hp.program).data hp.command)
  refine ⟨hfree, fun now a p hp now' mem first hrefused => ?_, fun a p hp => (h a p hp).of_busy⟩
  cases (hfree now a p hp).symm.trans (startIo_channelBusy_iff.mp hrefused).2

/-- A run from channels without devices, whichever of the devices that want service at the same time is serviced first,
keeps every program sound as long as every operation is proper, and no longer; then what finishes is free. In any state,
what finishes stays busy, and is refused a start, when data were chained to its last command, and no scan does anything
for a program that is stuck. -/
theorem performAll_frees (choice : Nat → Nat) (mem : Memory) (ops : List (Operation δ)) :
    let unused : WithMemory δ ω := (Channels.empty.choosing choice, mem)
    (AlwaysSound unused ops ↔ AlwaysProper unused ops) ∧ (AlwaysProper unused ops → Frees (performAll unused ops)) ∧
    ∀ (s : WithMemory δ ω) (now : Nat) (a : DeviceAddress) (p : ChannelProgram),
      (s.1.Finishes a p → (s.1.scan now s.2).2.isBusy a = p.flags.contains .dataChain ∧
        ∀ now' mem' first, ((s.1.scan now s.2).2.startIo now' mem' a first).1 = .channelBusy ↔
          (s.1.scan now s.2).2.isAttached a = true ∧ p.flags.contains .dataChain = true) ∧
      (s.1.program? a = some p → p.Stuck → (s.1.scan now s.2).2.program? a = some p) := by
  intro unused
  have hempty : unused.1.AllSound := fun _ _ h => by cases h
  refine ⟨alwaysSound_iff hempty, fun hproper => frees_of_allSound (allSound_performAll hempty hproper),
    fun s now a p => ⟨fun hp => ⟨hp.isBusy_scan, fun now' mem' first => ?_⟩, fun hp hstuck => ?_⟩⟩
  · rw [startIo_channelBusy_iff, hp.isBusy_scan]
  · exact program?_scan_of_stuck hstuck hp

end Operation

/-! ### Programs that are never free again -/

namespace Console
open Channels ChannelProgram Operation

def starting : List (Operation Console) := [.attach 0 loader {}, .startIo 0 loader 0]

/-- The program on the loader after its only command. -/
def finishedProgram (flags : CommandFlags) : ChannelProgram :=
  { started loader 0 with
    next := 8
    flags := flags
    status := ChannelStatus.channelEnd.union .deviceEnd }

/-- A list of one command to which data are chained; a console ends it at once. -/
def unfinished : Memory := ⟨#[0x03000000, 0x80000000], by decide⟩

/-- A list of two commands of which the first asks for an interrupt; a console ends both at once. -/
def interrupting : Memory := ⟨#[0x03000000, 0x48000000, 0x04000000, 0x00000000], by decide⟩

theorem finishes_starting {mem : Memory} {flags : CommandFlags}
    (h : (performAll (Channels.empty, mem) starting).1.raised = true ∧
      (performAll (Channels.empty, mem) starting).1.program? loader = some (finishedProgram flags) ∧
      ownReport loader (finishedProgram flags) ∈
        (performAll (Channels.empty, mem) starting).1.presented loader.channel) :
    (performAll (Channels.empty, mem) starting).1.Finishes loader (finishedProgram flags) :=
  have hend : (ChannelStatus.channelEnd.union .deviceEnd).contains .channelEnd = true := by decide
  ⟨h.1, h.2.1, rfl, hend, h.2.2⟩

/-- A scan queues the final status of a program to which data were chained. It stays busy without a command, a start is
refused, and a second scan changes nothing. So it is when an interrupt was asked for and another command is chained. -/
theorem never_free :
    (performAll (Channels.empty, unfinished) starting).1.Finishes loader (finishedProgram .dataChain) ∧
    (∀ scans ∈ [[.scan 0], [.scan 0, .scan 0]],
      (performAll (Channels.empty, unfinished) (starting ++ scans)).1.program? loader =
          some (stored (finishedProgram .dataChain)) ∧
        (performAll (Channels.empty, unfinished) (starting ++ scans)).1.isBusy loader = true ∧
        ((performAll (Channels.empty, unfinished) (starting ++ scans)).1.startIo 0 unfinished loader 0).1 =
          .channelBusy) ∧
    ∃ p, (performAll (Channels.empty, interrupting) starting).1.program? loader = some p ∧ p.Stuck := by
  refine ⟨finishes_starting (by decide +kernel), by decide +kernel, ?_⟩
  have hprogram : (performAll (Channels.empty, interrupting) starting).1.program? loader =
      some (stored (finishedProgram ⟨0x4800⟩)) := by
    decide +kernel
  exact ⟨_, hprogram, by decide, by decide, by decide⟩

theorem frees_starting : AlwaysProper (Channels.empty, controls) starting ∧
    (performAll (Channels.empty, controls) starting).1.Finishes loader (finishedProgram .none) ∧
    ((performAll (Channels.empty, controls) (starting ++ [.scan 0])).1.startIo 0 controls loader 0).1 ≠
      .channelBusy := by
  have hproper : AlwaysProper (Channels.empty, controls) starting := by decide +kernel
  have hfinishes : (performAll (Channels.empty, controls) starting).1.Finishes loader (finishedProgram .none) :=
    finishes_starting (by decide +kernel)
  have hfrees := (performAll_frees (fun _ => 0) controls starting).2.1 hproper
  exact ⟨hproper, hfinishes, hfrees.startable 0 loader (finishedProgram .none) hfinishes 0 controls 0⟩

end Console
end Concept32
