import Concept32.Device.Console
import Concept32.Proofs.Channels.Instructions
import Concept32.Proofs.Channels.Neighbours

/-!
# What a scan presents

A scan goes from device to device. It queues the status of each program whose command has ended without another
chained to it, or else status that came unasked, and it ends where the loading of the machine ends.
-/

namespace Concept32

/-! ### Reports -/

/-- What a status doubleword tells of a program. -/
structure StatusReport where
  device : DeviceAddress
  next : Address
  status : ChannelStatus
  count : Half
  deriving DecidableEq

def StatusReport.doubleword (r : StatusReport) : StatusDoubleword := .of r.device r.next r.status r.count

/-- A queue with another report, which is lost if the queue is full. -/
def RealChannel.enqueue (queue : List StatusDoubleword) (r : StatusReport) : List StatusDoubleword :=
  if queue.length < queueLimit then queue ++ [r.doubleword] else queue

theorem RealChannel.queue_push {channel : RealChannel} {r : StatusReport} :
    (channel.push r.doubleword).queue = enqueue channel.queue r := by
  unfold push enqueue
  split
  · rfl
  · rfl

namespace ChannelProgram

/-- What a scan presents of the program of a device. -/
def report? (a : DeviceAddress) (p : ChannelProgram) : Option StatusReport :=
  if p.status.contains .channelEnd then
    if p.flags.contains .commandChain then none else some ⟨a, p.next, p.status, p.count⟩
  else if !p.pending.isEmpty && !p.isBusy then some ⟨a, p.next, p.pending, 0⟩
  else none

/-- The program has something for a scan: its command has ended, or it is idle and status came unasked. -/
def Waits (p : ChannelProgram) : Prop :=
  p.status.contains .channelEnd = true ∨ (p.pending.isEmpty = false ∧ p.isBusy = false)

theorem device_of_report? {a : DeviceAddress} {p : ChannelProgram} {r : StatusReport} (h : p.report? a = some r) :
    r.device = a := by
  unfold report? at h
  split at h
  · split at h
    · cases h
    · cases h
      rfl
  · split at h
    · cases h
      rfl
    · cases h

/-- A program that waits is presented, unless its command has ended and another is chained to it. -/
theorem Waits.report? {p : ChannelProgram} (h : p.Waits) (a : DeviceAddress) :
    (∃ r, p.report? a = some r) ∨ p.status.contains .channelEnd = true := by
  rcases h with hend | ⟨hpending, hidle⟩
  · exact .inr hend
  · cases hend : p.status.contains .channelEnd with
    | true => exact .inr rfl
    | false =>
      refine .inl ⟨⟨a, p.next, p.pending, 0⟩, ?_⟩
      unfold ChannelProgram.report?
      simp [hend, hpending, hidle]

end ChannelProgram

namespace Channels
open ChannelProgram RealChannel
variable {δ ω : Type} {c c' c'' : Channels δ ω} {a b : DeviceAddress} {now : Nat} {mem : Memory} {p : ChannelProgram}
  {l rest : List DeviceAddress} {n : Byte}

/-! ### One look -/

/-- A look at the device ends the loading of the machine. -/
def endsLoad (c : Channels δ ω) (b : DeviceAddress) : Bool :=
  c.loading == some b &&
    (c.program? b).any fun p => p.status.contains .channelEnd && !p.flags.contains .commandChain

def hasEnded (c : Channels δ ω) (a : DeviceAddress) : Bool :=
  (c.program? a).any fun p => p.status.contains .channelEnd

def reportOf (c : Channels δ ω) (n : Byte) (a : DeviceAddress) : Option StatusReport :=
  if a.channel = n then (c.program? a).bind (report? a) else none

/-- A look at a device: it presents what there is to present, and raises the signal when a command has ended. -/
structure Looks (a : DeviceAddress) (c c' : Channels δ ω) : Prop where
  others : ∀ b, b ≠ a → c'.get? b = c.get? b
  loading : c'.loading = c.loading
  raised : c'.raised = (c.raised || c.hasEnded a)
  queue : ∀ n, (c'.channel n).queue = (c.reportOf n a).toList.foldl enqueue (c.channel n).queue
  settles : c.hasEnded a = false → ∀ p, c'.program? a = some p → ¬p.Waits
  clears : ∀ p, c.program? a = some p → p.status.contains .channelEnd = true →
    p.flags.contains .commandChain = false → c'.program? a = some (stored p)

theorem queue_addressed {command : Byte} {place : Address} :
    ((c.addressed a command place).channel n).queue = (c.channel n).queue := by
  unfold addressed
  split
  · rw [channel_setChannel]
    split
    · next h => rw [h]
    · rfl
  · rfl

theorem queues_answered {carried : ChannelStatus} {response : CommandResponse} :
    Queues c (c.answered now a carried response).2 := by
  cases response with
  | accepted delay => exact ⟨fun _ => rfl, rfl⟩
  | done status =>
    dsimp only [answered]
    split
    · exact ⟨fun _ => rfl, rfl⟩
    split
    · exact ⟨fun _ => rfl, rfl⟩
    · exact ⟨fun _ => rfl, rfl⟩

theorem queue_queueStatus {r : StatusReport} :
    ((c.queueStatus a r.doubleword).channel n).queue =
      (if a.channel = n then some r else none).toList.foldl enqueue (c.channel n).queue := by
  unfold queueStatus
  rw [channel_setChannel]
  by_cases hn : n = a.channel
  · rw [if_pos hn, if_pos hn.symm, queue_push, hn]
    rfl
  · rw [if_neg hn, if_neg fun h => hn h.symm]
    rfl

/-- What is told of a program when its status is queued. -/
def ownReport (a : DeviceAddress) (p : ChannelProgram) : StatusReport := ⟨a, p.next, p.status, p.count⟩

theorem queue_storeStatus :
    ((c.storeStatus a).channel n).queue =
      (if a.channel = n then (c.program? a).map (ownReport a) else none).toList.foldl enqueue
        (c.channel n).queue := by
  rw [storeStatus]
  cases hp : c.program? a with
  | none =>
    simp
  | some p => exact queue_queueStatus (r := ownReport a p)

variable [Peripheral δ ω]

theorem queues_continueProgram {allowed : Bool} : Queues c (c.continueProgram now mem a allowed).2 := by
  rw [continueProgram]
  split
  · exact .refl
  · split
    · exact ⟨fun _ => rfl, rfl⟩
    · exact ⟨fun _ => rfl, rfl⟩
    · next command q hfetch =>
      cases hs : (c.modifyProgram a fun _ => q).get? a with
      | none =>
        rw [issue, hs]
        exact ⟨fun _ => rfl, rfl⟩
      | some s =>
        rw [issue_eq hs]
        refine Queues.trans ⟨fun n => ?_, ?_⟩ queues_answered
        · exact queue_addressed (c := c.modifyProgram a fun _ => q)
        · unfold addressed absorb
          split
          · rfl
          · rfl

/-- A chained command is given, or waits for its device: nothing is presented. -/
theorem looks_of_chained (now : Nat) (mem : Memory) (hp : c.program? a = some p)
    (hend : p.status.contains .channelEnd = true) (hchain : p.flags.contains .commandChain = true) :
    (c.scanDevice now mem a).1 = none ∧ Looks a c (c.scanDevice now mem a).2 := by
  have hended : c.hasEnded a = true := by simp [hasEnded, hp, hend]
  have hnone : ∀ n, c.reportOf n a = none := fun n => by simp [reportOf, hp, report?, hend, hchain]
  have hkept : ∀ {d : Channels δ ω}, (∀ b, b ≠ a → d.get? b = c.get? b) → Queues c d → Looks a c d.raise := by
    intro d hothers hqueues
    refine ⟨hothers, hqueues.loading, by simp [hended, raise], fun n => ?_, fun hquiet => ?_, fun q hq _ hlast => ?_⟩
    · rw [hnone n]
      exact hqueues.queue n
    · cases hended.symm.trans hquiet
    · obtain rfl : p = q := Option.some.inj (hp.symm.trans hq)
      cases hchain.symm.trans hlast
  rw [scanDevice, hp]
  dsimp only
  rw [hend, hchain]
  simp only [if_true]
  split
  · have hothers : ∀ b, b ≠ a → (c.continueProgram now mem a true).2.get? b = c.get? b := fun b hb =>
      (spares_continueProgram hb.symm).subchannel
    have hqueues : Queues c (c.continueProgram now mem a true).2 := queues_continueProgram
    split
    · next e d heq =>
      rw [heq] at hothers hqueues
      refine ⟨rfl, hkept (fun b hb => ?_) ⟨hqueues.queue, hqueues.loading⟩⟩
      rw [get?_modifyProgram, if_neg hb]
      exact hothers b hb
    · next d heq =>
      rw [heq] at hothers hqueues
      exact ⟨rfl, hkept hothers hqueues⟩
  · exact ⟨rfl, hkept (fun _ _ => rfl) .refl⟩

theorem looks_of_last (now : Nat) (mem : Memory) (hp : c.program? a = some p)
    (hend : p.status.contains .channelEnd = true) (hchain : p.flags.contains .commandChain = false)
    (hother : c.loading ≠ some a) :
    (c.scanDevice now mem a).1 = none ∧ Looks a c (c.scanDevice now mem a).2 := by
  have hended : c.hasEnded a = true := by simp [hasEnded, hp, hend]
  have htouches : Touches now a c (c.storeStatus a) := .storeStatus
  rw [scanDevice, hp]
  dsimp only
  rw [hend, hchain]
  simp only [if_true, if_false, Bool.false_eq_true]
  rw [if_neg hother]
  refine ⟨rfl, htouches.others, loading_storeStatus, ?_, fun n => ?_, fun hquiet => ?_, fun q hq _ _ => ?_⟩
  · simp [storeStatus, hp, hended, raise]
  · rw [queue_storeStatus]
    simp [reportOf, hp, report?, hend, hchain, ownReport]
  · cases hended.symm.trans hquiet
  · exact program?_storeStatus hq

theorem looks_of_quiet (now : Nat) (mem : Memory) (hp : c.program? a = some p)
    (hend : p.status.contains .channelEnd = false) :
    (c.scanDevice now mem a).1 = none ∧ Looks a c (c.scanDevice now mem a).2 := by
  have hended : c.hasEnded a = false := by simp [hasEnded, hp, hend]
  have hclears : ∀ {d : Channels δ ω} (q : ChannelProgram), some p = some q → q.status.contains .channelEnd = true →
      q.flags.contains .commandChain = false → d.program? a = some (stored q) := fun q hq hend' => by
    obtain rfl : p = q := Option.some.inj hq
    cases hend.symm.trans hend'
  rw [scanDevice, hp]
  dsimp only
  rw [hend]
  simp only [if_false, Bool.false_eq_true]
  split
  · next hpending =>
    refine ⟨rfl, fun b hb => ?_, rfl, ?_, fun n => ?_, fun _ q hq hwaits => ?_, hp ▸ hclears⟩
    · rw [get?_modifyProgram, if_neg hb]
      rfl
    · rw [hended, Bool.or_false]
      rfl
    · refine (queue_queueStatus (r := ⟨a, p.next, p.pending, 0⟩)).trans ?_
      simp only [reportOf, hp, Option.bind_some, report?, hend, hpending, if_true, if_false, Bool.false_eq_true]
    · rw [program?_modifyProgram_self, program?_queueStatus, hp] at hq
      cases hq
      rcases hwaits with h | ⟨h, -⟩
      · cases hend.symm.trans h
      · cases h
  · next hpending =>
    refine ⟨rfl, fun _ _ => rfl, rfl, ?_, fun n => ?_, fun _ q hq hwaits => ?_, hp ▸ hclears⟩
    · rw [hended, Bool.or_false]
    · simp only [reportOf, hp, Option.bind_some, report?, hend, hpending, if_false, Bool.false_eq_true, ite_self]
      rfl
    · cases hp.symm.trans hq
      rcases hwaits with h | ⟨hnone, hidle⟩
      · cases hend.symm.trans h
      · rw [hnone, hidle] at hpending
        exact hpending rfl

theorem looks_scanDevice (now : Nat) (mem : Memory) (hgoes : c.endsLoad a = false) :
    (c.scanDevice now mem a).1 = none ∧ Looks a c (c.scanDevice now mem a).2 := by
  cases hp : c.program? a with
  | none =>
    rw [scanDevice, hp]
    refine ⟨rfl, fun _ _ => rfl, rfl, ?_, fun n => ?_, fun _ p h => ?_, fun p h => ?_⟩
    · simp [hasEnded, hp]
    · simp [reportOf, hp]
    · cases hp.symm.trans h
    · cases hp.symm.trans h
  | some p =>
    cases hend : p.status.contains .channelEnd with
    | true =>
      cases hchain : p.flags.contains .commandChain with
      | true => exact looks_of_chained now mem hp hend hchain
      | false =>
        refine looks_of_last now mem hp hend hchain fun hloading => ?_
        simp [endsLoad, hloading, hp, hend, hchain] at hgoes
    | false => exact looks_of_quiet now mem hp hend

def outcome (a : DeviceAddress) (p : ChannelProgram) : LoadProgress :=
  if p.status.hasError then .failed (.channelProgram a p.status) else .complete a

/-- The look that ends the loading tells how it ended, and presents nothing. -/
structure Ends (a : DeviceAddress) (c : Channels δ ω) (done : Option LoadProgress × Channels δ ω) : Prop where
  progress : ∃ p, c.program? a = some p ∧ done.1 = some (outcome a p) ∧
    ∀ q, done.2.program? a = some q → q.Waits → q = p ∧ p.status.hasError = true
  others : ∀ b, b ≠ a → done.2.get? b = c.get? b
  raised : done.2.raised = c.raised
  real : done.2.real = c.real

theorem ends_scanDevice (now : Nat) (mem : Memory) (hends : c.endsLoad a = true) :
    Ends a c (c.scanDevice now mem a) := by
  unfold endsLoad at hends
  rw [Bool.and_eq_true, beq_iff_eq, Option.any_eq_true] at hends
  obtain ⟨hloading, p, hp, hlast⟩ := hends
  rw [Bool.and_eq_true, Bool.not_eq_true'] at hlast
  obtain ⟨hend, hchain⟩ := hlast
  rw [scanDevice, hp]
  simp only [hend, hchain, hloading, if_true, if_false, Bool.false_eq_true]
  cases herror : p.status.hasError with
  | true =>
    refine ⟨⟨p, hp, by simp [outcome, herror], fun q hq _ => ?_⟩, fun _ _ => rfl, rfl, rfl⟩
    exact ⟨Option.some.inj (hq.symm.trans hp), herror⟩
  | false =>
    simp only [if_false, Bool.false_eq_true]
    refine ⟨⟨p, hp, by simp [outcome, herror], fun q hq hwaits => ?_⟩, fun b hb => ?_, rfl, rfl⟩
    · have hcleared := (program?_modifyProgram_self { c with loading := none } a _).symm.trans hq
      rw [show program? { c with loading := none } a = some p from hp] at hcleared
      cases hcleared
      rcases hwaits with h | ⟨h, -⟩
      · exact absurd h (by decide : ¬ChannelStatus.none.contains .channelEnd = true)
      · exact absurd h (by decide : ¬ChannelStatus.none.isEmpty = false)
    · rw [get?_modifyProgram, if_neg hb]
      rfl

/-- A look at one device leaves the others as they were. -/
theorem get?_scanDevice (hne : b ≠ a) : (c.scanDevice now mem b).2.get? a = c.get? a := by
  cases hends : c.endsLoad b with
  | true => exact (ends_scanDevice now mem hends).others a hne.symm
  | false => exact (looks_scanDevice now mem hends).2.others a hne.symm

/-! ### Looks in turn -/

/-- The devices of a list that are looked at before the loading ends. -/
def looked (c : Channels δ ω) (l : List DeviceAddress) : List DeviceAddress := l.takeWhile fun a => !c.endsLoad a

def reports (c : Channels δ ω) (l : List DeviceAddress) (n : Byte) : List StatusReport :=
  (c.looked l).filterMap (c.reportOf n)

/-- Looks at the devices of a list in turn. -/
structure Scanned (l : List DeviceAddress) (c : Channels δ ω) (done : Option LoadProgress × Channels δ ω) : Prop where
  queue : ∀ n, (done.2.channel n).queue = (c.reports l n).foldl enqueue (c.channel n).queue
  raised : done.2.raised = true ↔ c.raised = true ∨ ∃ a ∈ c.looked l, c.hasEnded a = true
  ended : ∀ a ∈ l, c.endsLoad a = true → ∃ p, c.program? a = some p ∧ done.1 = some (outcome a p) ∧
    ∀ q, done.2.program? a = some q → q.Waits → q = p ∧ p.status.hasError = true
  beyond : ∀ a, a ∉ c.looked l → (a ∈ l → c.endsLoad a = false) → done.2.get? a = c.get? a
  settled : ∀ a ∈ c.looked l, c.hasEnded a = false → ∀ p, done.2.program? a = some p → ¬p.Waits
  cleared : ∀ a ∈ c.looked l, ∀ p, c.program? a = some p → p.status.contains .channelEnd = true →
    p.flags.contains .commandChain = false → done.2.program? a = some (stored p)

section
omit [Peripheral δ ω]

theorem looked_cons_of_ends (h : c.endsLoad a = true) : c.looked (a :: l) = [] := by
  simp [looked, h]

theorem looked_cons_of_goes (h : c.endsLoad a = false) : c.looked (a :: l) = a :: c.looked l := by
  simp [looked, h]

theorem looked_subset : ∀ {a}, a ∈ c.looked l → a ∈ l := fun h => List.takeWhile_subset _ h

/-- The machine is loaded from one device at most. -/
theorem eq_of_endsLoad (ha : c.endsLoad a = true) (hb : c.endsLoad b = true) : a = b := by
  unfold endsLoad at ha hb
  rw [Bool.and_eq_true, beq_iff_eq] at ha hb
  exact Option.some.inj (ha.1.symm.trans hb.1)

variable (h : Looks b c c')
include h

theorem Looks.program? (hne : a ≠ b) : c'.program? a = c.program? a := congrArg _ (h.others a hne)

theorem Looks.endsLoad (hne : a ≠ b) : c'.endsLoad a = c.endsLoad a := by
  unfold Channels.endsLoad
  rw [h.loading, h.program? hne]

theorem Looks.hasEnded (hne : a ≠ b) : c'.hasEnded a = c.hasEnded a := by
  unfold Channels.hasEnded
  rw [h.program? hne]

theorem Looks.looked (hl : b ∉ l) : c'.looked l = c.looked l := by
  induction l with
  | nil => rfl
  | cons a rest ih =>
    have hne : a ≠ b := (List.ne_of_not_mem_cons hl).symm
    have hsame := h.endsLoad hne
    cases hends : c.endsLoad a with
    | true => rw [looked_cons_of_ends hends, looked_cons_of_ends (hsame.trans hends)]
    | false =>
      rw [looked_cons_of_goes hends, looked_cons_of_goes (hsame.trans hends), ih (List.not_mem_of_not_mem_cons hl)]

theorem Looks.reports (hl : b ∉ l) : c'.reports l n = c.reports l n := by
  unfold Channels.reports
  rw [h.looked hl]
  refine List.filterMap_congr fun a ha => ?_
  unfold reportOf
  rw [h.program? fun heq => hl (heq ▸ looked_subset ha)]

/-- A look at a device, and then the looks at others. -/
theorem Looks.scanned {done : Option LoadProgress × Channels δ ω} (hgoes : c.endsLoad b = false) (hb : b ∉ rest)
    (hscanned : Scanned rest c' done) : Scanned (b :: rest) c done := by
  have hne : ∀ {a}, a ∈ rest → a ≠ b := fun ha heq => hb (heq ▸ ha)
  have hlooked : c.looked (b :: rest) = b :: c'.looked rest := by rw [looked_cons_of_goes hgoes, h.looked hb]
  -- The rest of the looks does not come back to this device.
  have hkept : done.2.program? b = c'.program? b :=
    congrArg _ (hscanned.beyond b (fun h => hb (looked_subset h)) fun h => absurd h hb)
  refine ⟨fun n => ?_, ?_, fun a ha hends' => ?_, fun a ha hgoes => ?_, fun a ha hquiet => ?_, fun a ha p hp => ?_⟩
  · rw [hscanned.queue, h.queue, h.reports hb]
    unfold Channels.reports
    rw [looked_cons_of_goes hgoes, List.filterMap_cons]
    cases c.reportOf n b with
    | none => rfl
    | some r => rfl
  · rw [hscanned.raised, h.raised, hlooked, Bool.or_eq_true, or_assoc]
    refine or_congr_right ⟨?_, ?_⟩
    · rintro (hended | ⟨a, ha, hended⟩)
      · exact ⟨b, List.mem_cons_self, hended⟩
      · exact ⟨a, List.mem_cons_of_mem _ ha, h.hasEnded (hne (looked_subset ha)) ▸ hended⟩
    · rintro ⟨a, ha, hended⟩
      rcases List.mem_cons.mp ha with rfl | ha
      · exact .inl hended
      · exact .inr ⟨a, ha, (h.hasEnded (hne (looked_subset ha))).trans hended⟩
  · rcases List.mem_cons.mp ha with rfl | ha
    · cases hgoes.symm.trans hends'
    · rw [← h.program? (hne ha)]
      exact hscanned.ended a ha ((h.endsLoad (hne ha)).trans hends')
  · rw [hlooked, List.mem_cons, not_or] at ha
    rw [hscanned.beyond a ha.2 fun hmem => (h.endsLoad ha.1).trans (hgoes (List.mem_cons_of_mem _ hmem))]
    exact h.others a ha.1
  · rw [hlooked] at ha
    rcases List.mem_cons.mp ha with rfl | ha
    · exact fun p hp => h.settles hquiet p (hkept.symm.trans hp)
    · exact hscanned.settled a ha ((h.hasEnded (hne (looked_subset ha))).trans hquiet)
  · rw [hlooked] at ha
    rcases List.mem_cons.mp ha with rfl | ha
    · rw [hkept]
      exact h.clears p hp
    · exact hscanned.cleared a ha p ((h.program? (hne (looked_subset ha))).trans hp)

omit h in
/-- The look that ends the loading is the last. -/
theorem Ends.scanned {done : Option LoadProgress × Channels δ ω} (h : Ends b c done) (hends : c.endsLoad b = true) :
    Scanned (b :: rest) c done := by
  obtain ⟨p, hp, hprogress, hleft⟩ := h.progress
  have hnone : c.looked (b :: rest) = [] := looked_cons_of_ends hends
  refine ⟨fun n => ?_, ?_, fun a ha hends' => ?_, fun a ha hgoes => ?_, fun a ha => ?_, fun a ha => ?_⟩
  · rw [Channels.reports, hnone]
    exact congrArg RealChannel.queue (congrArg (fun t : Table 8 RealChannel => (t.get? n).getD .idle) h.real)
  · rw [hnone, h.raised]
    simp
  · obtain rfl : a = b := eq_of_endsLoad hends' hends
    exact ⟨p, hp, hprogress, hleft⟩
  · refine h.others a fun heq => ?_
    have hgoes' := hgoes (heq ▸ List.mem_cons_self)
    rw [heq, hends] at hgoes'
    cases hgoes'
  · rw [hnone] at ha
    cases ha
  · rw [hnone] at ha
    cases ha

end

theorem scanned_scanDevices (now : Nat) (mem : Memory) (hl : l.Nodup) : Scanned l c (scanDevices now mem l c) := by
  induction l generalizing c with
  | nil => exact ⟨fun _ => rfl, by simp [scanDevices, looked], nofun, fun _ _ _ => rfl, nofun, nofun⟩
  | cons b rest ih =>
    obtain ⟨hb, hrest⟩ := List.nodup_cons.mp hl
    rw [scanDevices]
    cases hends : c.endsLoad b with
    | true =>
      have hlook := ends_scanDevice now mem hends
      obtain ⟨p, -, hprogress, -⟩ := hlook.progress
      generalize c.scanDevice now mem b = done at hlook hprogress
      obtain ⟨progress, c'⟩ := done
      obtain rfl : progress = _ := hprogress
      exact hlook.scanned hends
    | false =>
      obtain ⟨hnone, hlook⟩ := looks_scanDevice now mem hends
      generalize c.scanDevice now mem b = done at hnone hlook
      obtain ⟨progress, c'⟩ := done
      obtain rfl : progress = none := hnone
      exact hlook.scanned hends hb (ih hrest)

/-! ### A whole scan -/

section
omit [Peripheral δ ω]

theorem ascending_addresses (c : Channels δ ω) : c.addresses.Pairwise fun a b => a.bits < b.bits :=
  List.pairwise_map.mpr c.subchannels.ascending

theorem mem_looked (hl : l.Pairwise fun a b => a.bits < b.bits) :
    a ∈ c.looked l ↔ a ∈ l ∧ ∀ b ∈ l, c.endsLoad b = true → a.bits < b.bits := by
  induction l with
  | nil => simp [looked]
  | cons b rest ih =>
    obtain ⟨hb, hrest⟩ := List.pairwise_cons.mp hl
    cases hends : c.endsLoad b with
    | true =>
      rw [looked_cons_of_ends hends]
      refine ⟨nofun, fun ⟨ha, hbefore⟩ => ?_⟩
      have hlt := hbefore b List.mem_cons_self hends
      rcases List.mem_cons.mp ha with rfl | ha
      · exact absurd hlt (BitVec.lt_irrefl _)
      · exact absurd (BitVec.lt_trans hlt (hb a ha)) (BitVec.lt_irrefl _)
    | false =>
      rw [looked_cons_of_goes hends, List.mem_cons, ih hrest, List.mem_cons]
      constructor
      · rintro (rfl | ⟨ha, hbefore⟩)
        · refine ⟨.inl rfl, fun d hd hends' => ?_⟩
          rcases List.mem_cons.mp hd with rfl | hd
          · cases hends.symm.trans hends'
          · exact hb d hd
        · refine ⟨.inr ha, fun d hd hends' => ?_⟩
          rcases List.mem_cons.mp hd with rfl | hd
          · cases hends.symm.trans hends'
          · exact hbefore d hd hends'
      · rintro ⟨rfl | ha, hbefore⟩
        · exact .inl rfl
        · exact .inr ⟨ha, fun d hd => hbefore d (List.mem_cons_of_mem _ hd)⟩

theorem mem_addresses_of_endsLoad (h : c.endsLoad a = true) : a ∈ c.addresses := by
  unfold endsLoad at h
  rw [Bool.and_eq_true, Option.any_eq_true] at h
  obtain ⟨-, p, hp, -⟩ := h
  exact mem_addresses_of_program? hp

end

def presented (c : Channels δ ω) (n : Byte) : List StatusReport := c.reports c.addresses n

/-- The loading of the machine ends before the scan comes to the device, and nothing was raised up to there. -/
def Missed (c : Channels δ ω) (a : DeviceAddress) : Prop :=
  ∃ b, c.endsLoad b = true ∧ b.bits < a.bits ∧ ∀ d, d.bits < b.bits → c.hasEnded d = false

/-- The program was presented, or the loading of the machine from its device has ended, or the signal stands. -/
def Handled (c : Channels δ ω) (a : DeviceAddress) (p : ChannelProgram) (done : Option LoadProgress × Channels δ ω) :
    Prop :=
  (∃ r ∈ c.presented a.channel, p.report? a = some r) ∨ done.1 = some (outcome a p) ∨ done.2.raised = true

section
omit [Peripheral δ ω]

theorem hasEnded_of_program? (hp : c.program? a = some p) : c.hasEnded a = p.status.contains .channelEnd := by
  simp [hasEnded, hp]

theorem outcome_inj {q : ChannelProgram} (h : outcome a p = outcome b q) : a = b := by
  unfold outcome at h
  split at h
  · split at h
    · exact (BootError.channelProgram.inj (LoadProgress.failed.inj h)).1
    · cases h
  · split at h
    · cases h
    · exact LoadProgress.complete.inj h

theorem mem_looked_of_mem_presented {r : StatusReport} (h : r ∈ c.presented n) : r.device ∈ c.looked c.addresses := by
  obtain ⟨d, hd, hreport⟩ := List.mem_filterMap.mp h
  unfold reportOf at hreport
  split at hreport
  · obtain ⟨q, -, hq⟩ := Option.bind_eq_some_iff.mp hreport
    rwa [device_of_report? hq]
  · cases hreport

theorem mem_presented {r : StatusReport} (ha : a ∈ c.looked c.addresses) (hp : c.program? a = some p)
    (hr : p.report? a = some r) : r ∈ c.presented a.channel :=
  List.mem_filterMap.mpr ⟨a, ha, by simp [reportOf, hp, hr]⟩

/-- Behind the device at which the loading ends, no device is looked at. -/
theorem missed_iff : c.Missed a ↔
    (∃ b, c.endsLoad b = true ∧ b.bits < a.bits) ∧ ∀ d ∈ c.looked c.addresses, c.hasEnded d = false := by
  constructor
  · rintro ⟨b, hends, hlt, hquiet⟩
    refine ⟨⟨b, hends, hlt⟩, fun d hd => hquiet d ?_⟩
    exact ((mem_looked c.ascending_addresses).mp hd).2 b (mem_addresses_of_endsLoad hends) hends
  · rintro ⟨⟨b, hends, hlt⟩, hquiet⟩
    refine ⟨b, hends, hlt, fun d hd => ?_⟩
    cases hp : c.program? d with
    | none => simp [hasEnded, hp]
    | some p =>
      refine hquiet d ((mem_looked c.ascending_addresses).mpr ⟨mem_addresses_of_program? hp, fun b' _ hends' => ?_⟩)
      rwa [eq_of_endsLoad hends' hends]

theorem exists_endsLoad (ha : a ∈ c.addresses) (hnot : a ∉ c.looked c.addresses) (hgoes : c.endsLoad a = false) :
    ∃ b, c.endsLoad b = true ∧ b.bits < a.bits := by
  rw [mem_looked c.ascending_addresses] at hnot
  by_contra hnone
  refine hnot ⟨ha, fun b _ hends => ?_⟩
  have hne : a.bits ≠ b.bits := bits_ne fun heq => by
    rw [heq, hends] at hgoes
    cases hgoes
  have hnlt : ¬b.bits < a.bits := fun hlt => hnone ⟨b, hends, hlt⟩
  rw [BitVec.lt_def] at hnlt ⊢
  have hne' : a.bits.toNat ≠ b.bits.toNat := fun h => hne (BitVec.eq_of_toNat_eq h)
  omega

end

theorem scanned_scan (now : Nat) (mem : Memory) (hraised : c.raised = true) :
    Scanned c.addresses { c with raised := false } (c.scan now mem) := by
  rw [scan, if_pos hraised]
  exact scanned_scanDevices now mem c.nodup_addresses

theorem raised_scan (now : Nat) (mem : Memory) (hraised : c.raised = true) :
    (c.scan now mem).2.raised = true ↔ ∃ d ∈ c.looked c.addresses, c.hasEnded d = true := by
  -- The signal is down when the first look is made.
  rw [(scanned_scan now mem hraised).raised]
  exact or_iff_right Bool.false_ne_true

theorem hasEnded_of_quiet (hraised : c.raised = true) (hquiet : (c.scan now mem).2.raised = false) :
    ∀ d ∈ c.looked c.addresses, c.hasEnded d = false := by
  intro d hd
  by_contra hended
  rw [Bool.not_eq_false] at hended
  rw [(raised_scan now mem hraised).mpr ⟨d, hd, hended⟩] at hquiet
  cases hquiet

theorem ended_scan (now : Nat) (mem : Memory) (hraised : c.raised = true) (hends : c.endsLoad a = true) :
    ∃ p, c.program? a = some p ∧ (c.scan now mem).1 = some (outcome a p) ∧
      ∀ q, (c.scan now mem).2.program? a = some q → q.Waits → q = p ∧ p.status.hasError = true :=
  (scanned_scan now mem hraised).ended a (mem_addresses_of_endsLoad hends) hends

/-- A program that waits is left behind exactly when no look comes to it and nothing was raised before. -/
theorem not_handled_iff (now : Nat) (mem : Memory) (hraised : c.raised = true) (hp : c.program? a = some p)
    (hwaits : p.Waits) : ¬Handled c a p (c.scan now mem) ↔ c.Missed a := by
  rw [missed_iff]
  constructor
  · intro hnot
    obtain ⟨hpresented, hreported, hraised'⟩ := not_or.mp hnot |>.imp id not_or.mp
    have hquiet := hasEnded_of_quiet hraised (Bool.eq_false_iff.mpr hraised')
    have hbehind : a ∉ c.looked c.addresses := by
      intro ha
      rcases hwaits.report? a with ⟨r, hr⟩ | hend
      · exact hpresented ⟨r, mem_presented ha hp hr, hr⟩
      · have hfalse := hquiet a ha
        rw [hasEnded_of_program? hp, hend] at hfalse
        cases hfalse
    refine ⟨exists_endsLoad (mem_addresses_of_program? hp) hbehind ?_, hquiet⟩
    by_contra hends
    rw [Bool.not_eq_false] at hends
    obtain ⟨q, hq, hprogress, -⟩ := ended_scan now mem hraised hends
    obtain rfl : p = q := Option.some.inj (hp.symm.trans hq)
    exact hreported hprogress
  · rintro ⟨⟨b, hends, hlt⟩, hquiet⟩ (⟨r, hr, hreport⟩ | hreported | hraised')
    · have hmem := mem_looked_of_mem_presented hr
      rw [device_of_report? hreport] at hmem
      have hbefore := ((mem_looked c.ascending_addresses).mp hmem).2 b (mem_addresses_of_endsLoad hends) hends
      exact BitVec.lt_irrefl _ (BitVec.lt_trans hlt hbefore)
    · obtain ⟨q, -, hprogress, -⟩ := ended_scan now mem hraised hends
      rw [hprogress] at hreported
      rw [outcome_inj (Option.some.inj hreported)] at hlt
      exact BitVec.lt_irrefl _ hlt
    · obtain ⟨d, hd, hend⟩ := (raised_scan now mem hraised).mp hraised'
      cases (hquiet d hd).symm.trans hend

/-- What waits after a scan that leaves the signal down ended the loading with an error, or was left behind as it is. -/
theorem missed_of_quiet (hraised : c.raised = true) (hp : (c.scan now mem).2.program? a = some p) (hwaits : p.Waits)
    (hquiet : (c.scan now mem).2.raised = false) :
    (c.scan now mem).1 = some (.failed (.channelProgram a p.status)) ∨ (c.program? a = some p ∧ c.Missed a) := by
  have hscanned := scanned_scan now mem hraised
  have hstill := hasEnded_of_quiet hraised hquiet
  have hbehind : a ∉ c.looked c.addresses := fun ha => hscanned.settled a ha (hstill a ha) p hp hwaits
  cases hends : c.endsLoad a with
  | true =>
    obtain ⟨q, -, hprogress, hleft⟩ := ended_scan now mem hraised hends
    obtain ⟨rfl, herror⟩ := hleft p hp hwaits
    refine .inl ?_
    rw [hprogress, outcome, if_pos herror]
  | false =>
    have hsame : (c.scan now mem).2.get? a = c.get? a := hscanned.beyond a hbehind fun _ => hends
    have hp' : c.program? a = some p := by rw [← hp, program?, program?, hsame]
    exact .inr ⟨hp', missed_iff.mpr ⟨exists_endsLoad (mem_addresses_of_program? hp') hbehind hends, hstill⟩⟩

/-- A scan presents what there is to present, in the order of the devices and up to the device at which the loading of
the machine ends. A program that waits is left behind exactly when it is behind that device and nothing was raised
before. -/
theorem scan_presents (now : Nat) (mem : Memory) (hraised : c.raised = true) :
    (∀ n, ((c.scan now mem).2.channel n).queue = (c.presented n).foldl enqueue (c.channel n).queue) ∧
    (∀ a p, c.program? a = some p → p.Waits → (¬Handled c a p (c.scan now mem) ↔ c.Missed a)) ∧
    (∀ a p, (c.scan now mem).2.program? a = some p → p.Waits → (c.scan now mem).2.raised = false →
      (c.scan now mem).1 = some (.failed (.channelProgram a p.status)) ∨ (c.program? a = some p ∧ c.Missed a)) :=
  ⟨(scanned_scan now mem hraised).queue, fun _ _ hp hwaits => not_handled_iff now mem hraised hp hwaits,
    fun _ _ hp hwaits hquiet => missed_of_quiet hraised hp hwaits hquiet⟩

end Channels

/-! ### A program behind the device that is loaded from -/

namespace Console
open Channels ChannelProgram

def loader : DeviceAddress := ⟨0x1000#15⟩

def behind : DeviceAddress := ⟨0x1001#15⟩

/-- A list of one command, which a console ends at once. -/
def controls : Memory := ⟨#[0x03000000, 0x00000000], by decide⟩

/-- The machine is loaded from one console, and a program is started on the other before the next scan. -/
def loading : Channels Console Char :=
  let c := (Channels.empty.attach 0 loader {}).attach 0 behind {}
  let (_, c) := c.boot 0 controls loader
  (c.startIo 0 controls behind 0).2.1

def endedProgram : ChannelProgram :=
  { started behind 0 with
    next := 8
    status := ChannelStatus.channelEnd.union .deviceEnd }

/-- The scan ends with the loading. The other program has ended and is not in the queue, and as the signal is down the
next scan does nothing. -/
theorem left_behind :
    loading.raised = true ∧ loading.program? behind = some endedProgram ∧
    (loading.scan 0 controls).1 = some (.complete loader) ∧
    (loading.scan 0 controls).2.program? behind = some endedProgram ∧
    ((loading.scan 0 controls).2.channel behind.channel).queue = [] ∧
    (loading.scan 0 controls).2.raised = false ∧
    ((loading.scan 0 controls).2.scan 0 controls).2.program? behind = some endedProgram := by
  decide +kernel

theorem missed_loading : loading.raised = true ∧ endedProgram.Waits ∧ loading.Missed behind ∧
    ¬Handled loading behind endedProgram (loading.scan 0 controls) := by
  have hwaits : endedProgram.Waits := .inl (by decide)
  have hraised : loading.raised = true := by decide +kernel
  have hbefore : loading.program? behind = some endedProgram := by decide +kernel
  have hafter : (loading.scan 0 controls).2.program? behind = some endedProgram := by decide +kernel
  have hdown : (loading.scan 0 controls).2.raised = false := by decide +kernel
  have hcomplete : (loading.scan 0 controls).1 = some (.complete loader) := by decide +kernel
  obtain ⟨-, hiff, hleft⟩ := scan_presents 0 controls hraised
  rcases hleft behind endedProgram hafter hwaits hdown with hfailed | ⟨-, hmissed⟩
  · cases hcomplete.symm.trans hfailed
  · exact ⟨hraised, hwaits, hmissed, (hiff behind endedProgram hbefore hwaits).mpr hmissed⟩

end Console
end Concept32
