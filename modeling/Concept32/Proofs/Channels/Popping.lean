import Concept32.Proofs.Channels.Appointments
import Concept32.Proofs.Channels.Sharing

/-!
# The devices that a poll calls

A poll pops the entries that are due from the schedule, each time one than which none is earlier, and calls the device
at its address. Which of several entries with the same time is popped is left open, and every order that this leaves is
the order of some poll. A device that is called is due no more, so each pop leaves fewer entries that are due, and no
device is called twice.
-/

namespace Concept32.Channels
variable {δ ω : Type} {now : Nat} {c c' c'' : Channels δ ω} {mem : Memory} {a b : DeviceAddress} {due limit : Nat}
  {again : Option Nat}

/-- A call of a device: its state, the time for which it was scheduled, and after what time it wants service again. -/
structure Call (δ : Type) where
  address : DeviceAddress
  device : δ
  due : Nat
  again : Option Nat

variable {call : Option (Call δ)} {calls : List (Call δ)}

/-- The channels without the time of a device. -/
def without (c : Channels δ ω) (a : DeviceAddress) : Channels δ ω := { c with schedule := c.schedule.remove a }

theorem get?_without : (c.without a).get? b = c.get? b := rfl

/-! ### One entry -/

/-- The entry of a device is popped, which wants service again or not. -/
structure Popped (now : Nat) (a : DeviceAddress) (due : Nat) (again : Option Nat) (c c' : Channels δ ω) : Prop where
  earliest : c.schedule.Earliest (a, due)
  due : due ≤ now
  positive : ∀ delay, again = some delay → 0 < delay
  schedule : c'.schedule =
    again.elim (c.schedule.remove a) fun delay => (c.schedule.remove a).put a (now + delay)
  present : c'.contains a = c.contains a
  others : ∀ b, b ≠ a → c'.get? b = c.get? b

theorem popped_of_drop (hearliest : c.schedule.Earliest (a, due)) (hdue : due ≤ now) :
    Popped now a due none c (c.without a) :=
  ⟨hearliest, hdue, fun _ h => (nomatch h), rfl, rfl, fun _ _ => rfl⟩

namespace Popped

theorem time (h : Popped now a due again c c') : c.schedule.time? a = some due :=
  Schedule.time?_eq_some_iff.mpr h.earliest.1

theorem contains (h : Popped now a due again c c') (b : DeviceAddress) : c'.contains b = c.contains b := by
  by_cases hb : b = a
  · rw [hb, h.present]
  · rw [Channels.contains, h.others b hb]
    rfl

theorem self (h : Popped now a due again c c') : c'.schedule.time? a = again.map (now + ·) := by
  rw [h.schedule]
  cases again with
  | none => exact (Schedule.time?_remove c.schedule a a).trans (if_pos rfl)
  | some delay => exact (Schedule.time?_put _ a a _).trans (if_pos rfl)

theorem time_of_ne (h : Popped now a due again c c') (hb : b ≠ a) :
    c'.schedule.time? b = c.schedule.time? b := by
  have hremove : (c.schedule.remove a).time? b = c.schedule.time? b :=
    (Schedule.time?_remove c.schedule a b).trans (if_neg hb)
  rw [h.schedule]
  cases again with
  | none => exact hremove
  | some delay => exact ((Schedule.time?_put _ a b _).trans (if_neg hb)).trans hremove

/-- What the device asks for is not due. -/
theorem later (h : Popped now a due again c c') {time : Nat} (htime : c'.schedule.time? a = some time) :
    now < time := by
  rw [h.self, Option.map_eq_some_iff] at htime
  obtain ⟨delay, hdelay, rfl⟩ := htime
  have hpositive := h.positive delay hdelay
  omega

/-- What is due afterwards is due for another device. -/
theorem ne_of_due (h : Popped now a due again c c') {time : Nat} (htime : c'.schedule.time? b = some time)
    (hle : time ≤ now) : b ≠ a := fun heq => by
  subst heq
  have hlater := h.later htime
  omega

theorem ne_of_later (h : Popped now a due again c c') (hb : ∀ time, c.schedule.time? b = some time → now < time) :
    b ≠ a := fun heq => by
  subst heq
  have hlt := hb due h.time
  have hle := h.due
  omega

/-- Fewer entries are due afterwards. -/
theorem dueCount_lt (h : Popped now a due again c c') : c'.schedule.dueCount now < c.schedule.dueCount now := by
  have hfewer := Schedule.dueCount_remove_lt h.earliest.1 h.due
  rw [h.schedule]
  cases hagain : again with
  | none => exact hfewer
  | some delay =>
    have hpositive := h.positive delay hagain
    exact Nat.lt_of_le_of_lt (Schedule.dueCount_put_le (by omega)) hfewer

end Popped

/-! ### All entries that are due -/

/-- What a poll has done: the devices that it has called, in order, and the schedule that it leaves. -/
structure Polled (now : Nat) (c : Channels δ ω) (calls : List (Call δ)) (c' : Channels δ ω) : Prop where
  /-- No device is called twice. -/
  once : (calls.map Call.address).Nodup
  /-- The devices that are called are those whose time has come. -/
  called : ∀ a due, (∃ call ∈ calls, call.address = a ∧ call.due = due) ↔
    c.contains a = true ∧ c.schedule.time? a = some due ∧ due ≤ now
  /-- A device is called in the state in which the poll found it. -/
  device : ∀ call ∈ calls, (c.get? call.address).map Subchannel.device = some call.device
  inOrder : calls.Pairwise fun call call' => call.due ≤ call'.due
  /-- A device that is called is scheduled for the time for which it asks, or not at all. -/
  again : ∀ call ∈ calls, c'.schedule.time? call.address = call.again.map (now + ·)
  /-- A time that has come is dropped if there is no device. -/
  dropped : ∀ a due, c.contains a = false → c.schedule.time? a = some due → due ≤ now → c'.schedule.time? a = none
  /-- All other times are as they were. -/
  others : ∀ a, (∀ due, c.schedule.time? a = some due → now < due) → c'.schedule.time? a = c.schedule.time? a
  /-- The time of the next service is the least that is left. -/
  next : ∀ due, c'.nextService? = some due ↔
    (∃ a, c'.schedule.time? a = some due) ∧ ∀ a time, c'.schedule.time? a = some time → due ≤ time
  later : ∀ due, c'.nextService? = some due → now < due

theorem polled_of_noneDue (h : c.schedule.NoneDue now) : Polled now c [] c where
  once := List.nodup_nil
  called a due := by
    constructor
    · rintro ⟨call, hcall, -⟩
      cases hcall
    · rintro ⟨-, htime, hle⟩
      exact absurd h (Schedule.not_noneDue htime hle)
  device _ hcall := nomatch hcall
  inOrder := .nil
  again _ hcall := nomatch hcall
  dropped a due _ htime hle := absurd h (Schedule.not_noneDue htime hle)
  others _ _ := rfl
  next due := by
    rw [nextService?, Schedule.next?_eq_some_iff]
    constructor
    · rintro ⟨a, hmem, hle⟩
      exact ⟨⟨a, Schedule.time?_eq_some_iff.mpr hmem⟩, fun b time htime => hle _ (Schedule.time?_eq_some_iff.mp htime)⟩
    · rintro ⟨⟨a, htime⟩, hle⟩
      exact ⟨a, Schedule.time?_eq_some_iff.mp htime, fun e he => hle e.1 e.2 (Schedule.time?_eq_some_iff.mpr he)⟩
  later due hnext := Schedule.noneDue_iff_next?.mp h due hnext

namespace Polled

/-- No device is called whose time has not come. -/
theorem ne_of_mem (h : Polled now c calls c') (hlater : ∀ time, c.schedule.time? a = some time → now < time)
    {call : Call δ} (hcall : call ∈ calls) : call.address ≠ a := fun heq => by
  obtain ⟨-, htime, hle⟩ := (h.called a call.due).mp ⟨call, hcall, heq, rfl⟩
  have hlt := hlater _ htime
  omega

/-- Before what a poll has done an entry is popped that is no device's. -/
theorem drop (hpopped : Popped now a due none c c') (hnone : c.get? a = none) (h : Polled now c' calls c'') :
    Polled now c calls c'' where
  once := h.once
  called b time := by
    rw [h.called b time, hpopped.contains b]
    by_cases hb : b = a
    · subst hb
      simp [contains, hnone]
    · rw [hpopped.time_of_ne hb]
  device call hcall := by
    have hne := h.ne_of_mem (fun _ => hpopped.later) hcall
    rw [← hpopped.others _ hne]
    exact h.device call hcall
  inOrder := h.inOrder
  again := h.again
  dropped b time hb htime hle := by
    by_cases hba : b = a
    · subst hba
      rw [h.others b fun _ => hpopped.later, hpopped.self]
      rfl
    · exact h.dropped b time ((hpopped.contains b).trans hb) ((hpopped.time_of_ne hba).trans htime) hle
  others b hb := by
    have hba := hpopped.ne_of_later hb
    rw [← hpopped.time_of_ne hba] at hb ⊢
    exact h.others b hb
  next := h.next
  later := h.later

/-- Before what a poll has done an entry is popped and its device called. -/
theorem serve {s : Subchannel δ} (hpopped : Popped now a due again c c') (hs : c.get? a = some s)
    (h : Polled now c' calls c'') : Polled now c (⟨a, s.device, due, again⟩ :: calls) c'' where
  once := by
    rw [List.map_cons, List.nodup_cons]
    refine ⟨fun hmem => ?_, h.once⟩
    obtain ⟨call, hcall, heq⟩ := List.mem_map.mp hmem
    exact h.ne_of_mem (fun _ => hpopped.later) hcall heq
  called b time := by
    by_cases hb : b = a
    · subst hb
      have hnot : ¬∃ call ∈ calls, call.address = b ∧ call.due = time := by
        rintro ⟨call, hcall, heq, -⟩
        exact h.ne_of_mem (fun _ => hpopped.later) hcall heq
      have hdue := hpopped.due
      simp only [List.mem_cons, exists_eq_or_imp, hnot, or_false, hpopped.time, contains, hs, Option.isSome_some,
        Option.some.injEq, true_and]
      exact ⟨fun heq => ⟨heq, heq ▸ hdue⟩, And.left⟩
    · have hfirst : ¬(a = b ∧ due = time) := fun heq => hb heq.1.symm
      simp only [List.mem_cons, exists_eq_or_imp, hfirst, false_or]
      rw [h.called b time, hpopped.contains b, hpopped.time_of_ne hb]
  device := by
    refine List.forall_mem_cons.mpr ⟨by rw [hs]; rfl, fun call hcall => ?_⟩
    have hne := h.ne_of_mem (fun _ => hpopped.later) hcall
    rw [← hpopped.others _ hne]
    exact h.device call hcall
  inOrder := by
    refine List.pairwise_cons.mpr ⟨fun call hcall => ?_, h.inOrder⟩
    have hne := h.ne_of_mem (fun _ => hpopped.later) hcall
    obtain ⟨-, htime, -⟩ := (h.called _ _).mp ⟨call, hcall, rfl, rfl⟩
    rw [hpopped.time_of_ne hne] at htime
    exact hpopped.earliest.2 _ (Schedule.time?_eq_some_iff.mp htime)
  again := by
    refine List.forall_mem_cons.mpr ⟨?_, h.again⟩
    dsimp only
    rw [h.others a fun _ => hpopped.later, hpopped.self]
  dropped b time hb htime hle := by
    have hba : b ≠ a := fun heq => by
      subst heq
      rw [contains, hs] at hb
      cases hb
    exact h.dropped b time ((hpopped.contains b).trans hb) ((hpopped.time_of_ne hba).trans htime) hle
  others b hb := by
    have hba := hpopped.ne_of_later hb
    rw [← hpopped.time_of_ne hba] at hb ⊢
    exact h.others b hb
  next := h.next
  later := h.later

end Polled

/-! ### The poll -/

variable [Peripheral δ ω]

/-- An entry that is due and than which none is earlier is popped and its device is called, or there is none. -/
inductive Pops (now : Nat) : Channels δ ω × Memory → Option (Call δ) → Channels δ ω × Memory → Prop
  | call {c : Channels δ ω} {mem : Memory} {a : DeviceAddress} {s : Subchannel δ} {due : Nat}
      (hearliest : c.schedule.Earliest (a, due)) (hdue : due ≤ now) (hs : c.get? a = some s) :
      Pops now (c, mem) (some ⟨a, s.device, due, c.again now mem a s⟩)
        ((c.without a).serviceDevice now mem a)
  | drop {c : Channels δ ω} {mem : Memory} {a : DeviceAddress} {due : Nat}
      (hearliest : c.schedule.Earliest (a, due)) (hdue : due ≤ now) (hnone : c.get? a = none) :
      Pops now (c, mem) none (c.without a, mem)

/-- Entries are popped, with these calls, until none is due. -/
inductive Polls (now : Nat) : Channels δ ω × Memory → List (Call δ) → Channels δ ω × Memory → Prop
  | done {s : Channels δ ω × Memory} (hnone : s.1.schedule.NoneDue now) : Polls now s [] s
  | pop {s s' s'' : Channels δ ω × Memory} {call : Option (Call δ)} {calls : List (Call δ)}
      (hpop : Pops now s call s') (hrest : Polls now s' calls s'') : Polls now s (call.toList ++ calls) s''

/-- Every device that is due asks for nothing when it is serviced, or for service after some time. -/
def Patient (c : Channels δ ω) (now : Nat) : Prop :=
  ∀ a s due, c.get? a = some s → c.schedule.time? a = some due → due ≤ now →
    ∀ (connection : Connection) (output : Array ω) (delay : Nat),
      (connection.run (Peripheral.service s.device now) output).1.2 = some delay → 0 < delay

theorem Popped.patient (h : Popped now a due again c c') (hpatient : c.Patient now) :
    c'.Patient now := fun b s time hs htime hle => by
  have hb := h.ne_of_due htime hle
  exact hpatient b s time ((h.others b hb).symm.trans hs) ((h.time_of_ne hb).symm.trans htime) hle

theorem contains_serviceDevice : (c.serviceDevice now mem a).1.contains b = c.contains b := by
  rw [serviceDevice]
  split
  · rfl
  · show ((c.subchannels.modify a.bits _).get? b.bits).isSome = (c.subchannels.get? b.bits).isSome
    rw [Table.get?_modify]
    split <;> simp

theorem serviceDevice_of_none (hnone : c.get? a = none) : c.serviceDevice now mem a = (c, mem) := by
  rw [serviceDevice, hnone]

theorem popped_of_call {s : Subchannel δ} (hpatient : c.Patient now) (mem : Memory)
    (hearliest : c.schedule.Earliest (a, due)) (hdue : due ≤ now) (hs : c.get? a = some s) :
    Popped now a due (c.again now mem a s) c ((c.without a).serviceDevice now mem a).1 where
  earliest := hearliest
  due := hdue
  positive := hpatient a s due hs (Schedule.time?_eq_some_iff.mpr hearliest.1) hdue _ _
  schedule := schedule_serviceDevice_of_get? (get?_without.trans hs)
  present := contains_serviceDevice
  others b hb := (spares_serviceDevice now mem hb.symm : Spares b (c.without a) _).subchannel

theorem Pops.popped {s s' : Channels δ ω × Memory} (hpatient : s.1.Patient now) (h : Pops now s call s') :
    ∃ a due again, Popped now a due again s.1 s'.1 := by
  cases h with
  | @call _ mem _ _ _ hearliest hdue hs => exact ⟨_, _, _, popped_of_call hpatient mem hearliest hdue hs⟩
  | drop hearliest hdue _ => exact ⟨_, _, _, popped_of_drop hearliest hdue⟩

/-- A poll of patient devices calls each that is due, whichever entry is popped at each time. -/
theorem polled_of_polls {s s' : Channels δ ω × Memory} (hpatient : s.1.Patient now) (h : Polls now s calls s') :
    Polled now s.1 calls s'.1 := by
  induction h with
  | done hnone => exact polled_of_noneDue hnone
  | pop hpop _ ih =>
    cases hpop with
    | @call _ mem _ _ _ hearliest hdue hs =>
      have hpopped := popped_of_call hpatient mem hearliest hdue hs
      exact (ih (hpopped.patient hpatient)).serve hpopped hs
    | drop hearliest hdue hnone =>
      have hpopped := popped_of_drop hearliest hdue
      exact (ih (hpopped.patient hpatient)).drop hpopped hnone

/-! ### The end of a poll -/

theorem exists_pops (mem : Memory) (hearliest : c.schedule.Earliest (a, due)) (hdue : due ≤ now) :
    ∃ call : Option (Call δ), Pops now (c, mem) call ((c.without a).serviceDevice now mem a) := by
  cases hs : c.get? a with
  | none =>
    rw [serviceDevice_of_none (get?_without.trans hs)]
    exact ⟨none, .drop hearliest hdue hs⟩
  | some s => exact ⟨_, .call hearliest hdue hs⟩

theorem noneDue_or_exists_pops (s : Channels δ ω × Memory) :
    s.1.schedule.NoneDue now ∨ ∃ (call : Option (Call δ)) (s' : Channels δ ω × Memory), Pops now s call s' := by
  cases hpop : s.1.schedule.popDue? now with
  | none => exact .inl (Schedule.popDue?_eq_none_iff.mp hpop)
  | some popped =>
    obtain ⟨time, hle, hearliest, -⟩ := Schedule.earliest_of_popDue? hpop
    obtain ⟨call, hpops⟩ := exists_pops s.2 hearliest hle
    exact .inr ⟨call, _, hpops⟩

/-- Entries cannot be popped for ever. -/
theorem acc_pops {s : Channels δ ω × Memory} (hpatient : s.1.Patient now) :
    Acc (fun s' s => ∃ call : Option (Call δ), Pops now s call s') s := by
  induction hcount : s.1.schedule.dueCount now using Nat.strongRecOn generalizing s with
  | ind count ih =>
    subst hcount
    refine ⟨s, fun s' ⟨call, hpop⟩ => ?_⟩
    obtain ⟨a, due, again, hpopped⟩ := hpop.popped hpatient
    exact ih _ hpopped.dueCount_lt (hpopped.patient hpatient) rfl

theorem exists_polls_pollUpTo (hpatient : c.Patient now) (hcount : c.schedule.dueCount now ≤ limit) :
    ∃ calls, Polls now (c, mem) calls (pollUpTo now limit c mem) := by
  induction limit generalizing c mem with
  | zero => exact ⟨[], .done (Schedule.noneDue_of_dueCount_eq_zero (Nat.le_zero.mp hcount))⟩
  | succ limit ih =>
    rw [pollUpTo]
    cases hpop : c.schedule.popDue? now with
    | none => exact ⟨[], .done (Schedule.popDue?_eq_none_iff.mp hpop)⟩
    | some popped =>
      obtain ⟨a, schedule⟩ := popped
      obtain ⟨time, hle, hearliest, rfl⟩ := Schedule.earliest_of_popDue? hpop
      obtain ⟨call, hpops⟩ := exists_pops mem hearliest hle
      obtain ⟨b, due, again, hpopped⟩ := hpops.popped hpatient
      let rest := (c.without a).serviceDevice now mem a
      obtain ⟨calls, hcalls⟩ : ∃ calls, Polls now rest calls (pollUpTo now limit rest.1 rest.2) :=
        ih (hpopped.patient hpatient) (Nat.le_of_lt_succ (Nat.lt_of_lt_of_le hpopped.dueCount_lt hcount))
      exact ⟨_, .pop hpops hcalls⟩

/-- Each device that is due is called once, in the order of the times. Whichever of the entries with the least time is
popped each time, entries are popped as long as one is due, and that comes to an end. -/
theorem polls_once_in_order (hpatient : c.Patient now) :
    Acc (fun s' s => ∃ call : Option (Call δ), Pops now s call s') (c, mem) ∧
      (∀ s : Channels δ ω × Memory, s.1.schedule.NoneDue now ∨
        ∃ (call : Option (Call δ)) (s' : Channels δ ω × Memory), Pops now s call s') ∧
      (∃ calls, Polls now (c, mem) calls (c.poll now mem)) ∧
      ∀ calls after, Polls now (c, mem) calls after → Polled now c calls after.1 := by
  have hlimit : c.schedule.dueCount now ≤ serviceLimit :=
    Nat.le_trans Schedule.dueCount_le_size (size_schedule_le_serviceLimit c)
  exact ⟨acc_pops hpatient, noneDue_or_exists_pops, exists_polls_pollUpTo hpatient hlimit,
    fun _ _ => polled_of_polls hpatient⟩

/-! ### Any order of equal times -/

theorem serviceDevice_choosing (choice : Nat → Nat) : (c.choosing choice).serviceDevice now mem a =
    ((c.serviceDevice now mem a).1.choosing choice, (c.serviceDevice now mem a).2) := by
  have hget : (c.choosing choice).get? a = c.get? a := rfl
  rw [serviceDevice, serviceDevice, hget]
  cases c.get? a with
  | none => rfl
  | some s =>
    have hsame : (c.choosing choice).channel a.channel = c.channel a.channel := rfl
    dsimp only [choosing] at hsame ⊢
    rw [hsame]
    generalize Connection.run (Peripheral.service s.device now) _ c.output = done
    obtain ⟨⟨device, _ | delay⟩, connection, output⟩ := done
    · rfl
    · dsimp only
      rw [Schedule.choosing_put]

theorem removals_serviceDevice : (c.serviceDevice now mem a).1.schedule.removals = c.schedule.removals := by
  cases hs : c.get? a with
  | none => rw [serviceDevice_of_none hs]
  | some s =>
    rw [schedule_serviceDevice_of_get? hs]
    cases c.again now mem a s with
    | none => rfl
    | some delay => exact Schedule.removals_put

theorem Pops.eq_serviceDevice {s s' : Channels δ ω × Memory} (h : Pops now s call s') :
    ∃ a due, s.1.schedule.Earliest (a, due) ∧ due ≤ now ∧ s' = (s.1.without a).serviceDevice now s.2 a := by
  cases h with
  | call hearliest hdue _ => exact ⟨_, _, hearliest, hdue, rfl⟩
  | drop hearliest hdue hnone =>
    exact ⟨_, _, hearliest, hdue, (serviceDevice_of_none (get?_without.trans hnone)).symm⟩

/-- A poll can take entries with equal times in any order: with some choices among them it does what entries that are
popped in that order do. -/
theorem exists_choice_pollUpTo {s after : Channels δ ω × Memory} (hpatient : s.1.Patient now)
    (h : Polls now s calls after) (hcount : s.1.schedule.dueCount now ≤ limit) :
    ∃ chosen : Nat → Nat, ∀ choice : Nat → Nat, (∀ n, s.1.schedule.removals ≤ n → choice n = chosen n) →
      pollUpTo now limit (s.1.choosing choice) s.2 = (after.1.choosing choice, after.2) := by
  induction h generalizing limit with
  | done hnone =>
    refine ⟨fun _ => 0, fun choice _ => pollUpTo_of_noneDue ?_ limit⟩
    exact hnone
  | @pop s s' after _ _ hpop _ ih =>
    obtain ⟨b, time, again, hpopped⟩ := hpop.popped hpatient
    have hfewer := hpopped.dueCount_lt
    obtain ⟨a, due, hearliest, hdue, rfl⟩ := hpop.eq_serviceDevice
    obtain ⟨limit, rfl⟩ : ∃ rest, limit = rest + 1 := Nat.exists_eq_succ_of_ne_zero (by omega)
    obtain ⟨later, hlater⟩ := ih (hpopped.patient hpatient) (Nat.le_of_lt_succ (Nat.lt_of_lt_of_le hfewer hcount))
    obtain ⟨i, hfirst⟩ := Schedule.exists_choice hearliest
    -- the choice for this entry comes before all that the rest depends on
    refine ⟨fun n => if n = s.1.schedule.removals then i else later n, fun choice hchoice => ?_⟩
    have hpopDue : (s.1.choosing choice).schedule.popDue? now = some (a, ((s.1.without a).choosing choice).schedule) := by
      have hearly : (s.1.schedule.choosing choice).earliest? = some (a, due) :=
        hfirst choice ((hchoice _ (Nat.le_refl _)).trans (if_pos rfl))
      show (s.1.schedule.choosing choice).popDue? now = _
      rw [Schedule.popDue?, hearly]
      exact if_pos hdue
    rw [pollUpTo, hpopDue]
    dsimp only
    rw [show ({ s.1.choosing choice with schedule := ((s.1.without a).choosing choice).schedule } : Channels δ ω) =
      (s.1.without a).choosing choice from rfl, serviceDevice_choosing]
    refine hlater choice fun n hn => ?_
    have hremovals : s.1.schedule.removals + 1 ≤ n := by
      rw [removals_serviceDevice] at hn
      exact hn
    exact (hchoice n (by omega)).trans (if_neg (by omega))

/-- Every order that equal times leave open is the order of some poll. -/
theorem exists_choice_poll {after : Channels δ ω × Memory} (hpatient : c.Patient now)
    (h : Polls now (c, mem) calls after) :
    ∃ choice, (c.choosing choice).poll now mem = (after.1.choosing choice, after.2) := by
  have hlimit : c.schedule.dueCount now ≤ serviceLimit :=
    Nat.le_trans Schedule.dueCount_le_size (size_schedule_le_serviceLimit c)
  obtain ⟨chosen, hchosen⟩ := exists_choice_pollUpTo hpatient h hlimit
  exact ⟨chosen, hchosen chosen fun _ _ => rfl⟩

/-! ### Two devices that are due -/

namespace Crowd
open Trickle

theorem patient_trickle (c : Channels Trickle Char) : c.Patient now := fun _ s _ _ _ _ connection output => by
  have hends : s.device.service.Ends fun r => ∀ delay, r.2 = some delay → 0 < delay := by
    unfold Trickle.service
    split <;> simp [Service.Ends]
  exact Connection.run_ends hends connection output

def absent : DeviceAddress := ⟨0x1002#15⟩

/-- Both devices want service at the same time, and before them an address wants it that has no device. -/
def crowd : Channels Trickle Char :=
  { (Channels.empty.attach 0 left ⟨[0x11]⟩).attach 0 right ⟨[]⟩ with
    schedule := ((Schedule.empty.put left 7).put right 7).put absent 5 }

/-- The left device asks for service once more. -/
theorem polls_once_in_order_crowd : crowd.Patient 10 ∧
    (∃ calls, Polls 10 (crowd, halves) calls (crowd.poll 10 halves) ∧ Polled 10 crowd calls (crowd.poll 10 halves).1) ∧
    (crowd.poll 10 halves).1.nextService? = some 11 := by
  have hpatient : crowd.Patient 10 := patient_trickle crowd
  obtain ⟨-, -, ⟨calls, hpolls⟩, hpolled⟩ : Acc _ (crowd, halves) ∧ _ := polls_once_in_order hpatient
  exact ⟨hpatient, ⟨calls, hpolls, hpolled calls _ hpolls⟩, by decide +kernel⟩

end Crowd
end Concept32.Channels
