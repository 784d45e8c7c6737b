import Mathlib.Data.List.Perm.Subperm
import Concept32.Channel.Polling
import Concept32.Proofs.Devices
import Concept32.Proofs.Schedule

/-!
# Servicing devices

A poll services devices until none is due. It ends because a device that is serviced asks for service later,
so every service leaves one device fewer that is due, and there are not more entries than addresses.
-/

namespace Concept32.Channels
variable {δ ω : Type} {c : Channels δ ω} {now : Nat} {mem : Memory} {a : DeviceAddress}

/-! ### The number of entries -/

theorem length_le_of_nodup {l : List DeviceAddress} (hl : l.Nodup) : l.length ≤ 0x8000 := by
  have hmap : (l.map fun a => a.bits.toNat).Nodup :=
    List.pairwise_map.mpr (hl.imp fun {a b} hne heq => hne (by
      cases a
      cases b
      exact congrArg _ (BitVec.eq_of_toNat_eq heq)))
  have hsub : l.map (fun a => a.bits.toNat) ⊆ List.range 0x8000 := fun n hn => by
    obtain ⟨a, -, rfl⟩ := List.mem_map.mp hn
    exact List.mem_range.mpr a.bits.isLt
  simpa using (List.subperm_of_subset hmap hsub).length_le

theorem size_schedule_le_serviceLimit (c : Channels δ ω) : c.schedule.size ≤ serviceLimit := by
  have h := length_le_of_nodup c.schedule.distinct
  rw [List.length_map] at h
  exact Nat.le_trans h (by decide)

/-! ### Services -/

variable [Peripheral δ ω]

/-- After what time a device that is serviced wants service again, if it does. -/
def again (c : Channels δ ω) (now : Nat) (mem : Memory) (a : DeviceAddress) (s : Subchannel δ) : Option Nat :=
  (Connection.run (Peripheral.service s.device now) ⟨a, ⟨s.program, mem⟩, c.channel a.channel, c.raised⟩ c.output).1.2

/-- A service puts the time at which the device wants service again. -/
theorem schedule_serviceDevice_of_get? {s : Subchannel δ} (hs : c.get? a = some s) :
    (c.serviceDevice now mem a).1.schedule =
      (c.again now mem a s).elim c.schedule fun delay => c.schedule.put a (now + delay) := by
  rw [serviceDevice, hs, again]
  dsimp only
  generalize Connection.run _ _ _ = done
  obtain ⟨⟨device, again⟩, ⟨address, ⟨program, mem⟩, channel, raised⟩, output⟩ := done
  cases again <;> rfl

/-- A service leaves the schedule as it is or puts a later time for the device. -/
theorem schedule_serviceDevice (hlater : Peripheral.AsksLater δ) :
    (c.serviceDevice now mem a).1.schedule = c.schedule ∨
      ∃ due, now < due ∧ (c.serviceDevice now mem a).1.schedule = c.schedule.put a due := by
  cases hs : c.get? a with
  | none =>
    rw [serviceDevice, hs]
    exact .inl rfl
  | some s =>
    rw [schedule_serviceDevice_of_get? hs]
    cases hagain : c.again now mem a s with
    | none => exact .inl rfl
    | some delay =>
      have hpositive : 0 < delay := Connection.run_ends (hlater.service s.device now) _ _ delay hagain
      exact .inr ⟨now + delay, by omega, rfl⟩

/-- What a serviced device asks for is not due. -/
theorem dueCount_serviceDevice_le (hlater : Peripheral.AsksLater δ) :
    (c.serviceDevice now mem a).1.schedule.dueCount now ≤ c.schedule.dueCount now := by
  have hschedule : (c.serviceDevice now mem a).1.schedule = c.schedule ∨
      ∃ due, now < due ∧ (c.serviceDevice now mem a).1.schedule = c.schedule.put a due :=
    schedule_serviceDevice hlater
  rcases hschedule with heq | ⟨due, hlt, heq⟩
  · exact Nat.le_of_eq (by rw [heq])
  · rw [heq]
    exact Schedule.dueCount_put_le hlt

/-- Nothing happens when no device is due. -/
theorem pollUpTo_of_noneDue (h : c.schedule.NoneDue now) (limit : Nat) :
    pollUpTo now limit c mem = (c, mem) := by
  cases limit with
  | zero => rfl
  | succ limit => rw [pollUpTo, Schedule.popDue?_eq_none_iff.mpr h]

theorem poll_of_noneDue (h : c.schedule.NoneDue now) : c.poll now mem = (c, mem) :=
  pollUpTo_of_noneDue h _

theorem noneDue_pollUpTo (hlater : Peripheral.AsksLater δ) {limit : Nat}
    (h : c.schedule.dueCount now ≤ limit) : (pollUpTo now limit c mem).1.schedule.NoneDue now := by
  induction limit generalizing c mem with
  | zero => exact Schedule.noneDue_of_dueCount_eq_zero (Nat.le_zero.mp h)
  | succ limit ih =>
    rw [pollUpTo]
    cases hpop : c.schedule.popDue? now with
    | none => exact Schedule.popDue?_eq_none_iff.mp hpop
    | some due =>
      obtain ⟨a, schedule⟩ := due
      obtain ⟨time, hle, hmem, rfl⟩ := Schedule.popDue?_eq_some hpop
      have hfewer := Schedule.dueCount_remove_lt hmem hle
      exact ih (Nat.le_trans (dueCount_serviceDevice_le hlater) (Nat.le_of_lt_succ (Nat.lt_of_lt_of_le hfewer h)))

/-- After a poll no device is due. -/
theorem noneDue_poll (hlater : Peripheral.AsksLater δ) : (c.poll now mem).1.schedule.NoneDue now :=
  noneDue_pollUpTo hlater (Nat.le_trans Schedule.dueCount_le_size (size_schedule_le_serviceLimit c))

theorem loading_serviceDevice : (c.serviceDevice now mem a).1.loading = c.loading := by
  rw [serviceDevice]
  split <;> rfl

/-- A poll neither begins nor ends the loading of the machine. -/
theorem loading_pollUpTo {limit : Nat} : (pollUpTo now limit c mem).1.loading = c.loading := by
  induction limit generalizing c mem with
  | zero => rfl
  | succ limit ih =>
    rw [pollUpTo]
    cases c.schedule.popDue? now with
    | none => rfl
    | some due => exact ih.trans loading_serviceDevice

end Concept32.Channels
