import Concept32.Proofs.Channels.Neighbours
import Concept32.Proofs.Channels.Starting

/-!
# The times at which devices are serviced

A poll services the devices that are due, each once for every time that it has in the schedule. Whatever else is done
to the channels puts no time into the schedule that is past, and a scan that puts one leaves the signal raised.
-/

namespace Concept32.Channels
variable {δ ω : Type} {c c' c'' : Channels δ ω} {a b : DeviceAddress} {now due limit : Nat} {mem : Memory}

/-! ### Putting times -/

/-- No device is scheduled for a time that is past. -/
def NotOverdue (c : Channels δ ω) (now : Nat) : Prop := ∀ e ∈ c.schedule.entries, now ≤ e.2

/-- The schedule has got no time that is past. -/
def Appoints (now : Nat) (c c' : Channels δ ω) : Prop := ∀ e ∈ c'.schedule.entries, e ∈ c.schedule.entries ∨ now ≤ e.2

instance : Std.Refl (@Appoints δ ω now) := ⟨fun _ _ => .inl⟩

theorem Appoints.trans (h : Appoints now c c') (h' : Appoints now c' c'') : Appoints now c c'' := fun e he =>
  (h' e he).elim (h e) .inr

instance : Trans (@Appoints δ ω now) (Appoints now) (Appoints now) := ⟨Appoints.trans⟩

theorem Appoints.notOverdue (h : Appoints now c c') (hc : c.NotOverdue now) : c'.NotOverdue now := fun e he =>
  (h e he).elim (hc e) id

theorem appoints_of_eq (h : c'.schedule = c.schedule) : Appoints now c c' := fun _ he => .inl (h ▸ he)

theorem appoints_put (hle : now ≤ due) (h : c'.schedule = c.schedule.put a due) : Appoints now c c' := fun e he => by
  rw [h] at he
  rcases Schedule.mem_put.mp he with rfl | ⟨he, -⟩
  · exact .inr hle
  · exact .inl he

/-- The schedule has got no time that is past, and if the signal is not raised it is as it was. -/
structure Signals (now : Nat) (c c' : Channels δ ω) : Prop where
  appoints : Appoints now c c'
  quiet : c'.raised = false → c.raised = false ∧ c'.schedule = c.schedule

namespace Signals

theorem refl : Signals now c c := ⟨Std.Refl.refl c, fun h => ⟨h, rfl⟩⟩

theorem trans (h : Signals now c c') (h' : Signals now c' c'') : Signals now c c'' where
  appoints := h.appoints.trans h'.appoints
  quiet hquiet := by
    obtain ⟨hquiet, hsame⟩ := h'.quiet hquiet
    exact ⟨(h.quiet hquiet).1, hsame.trans (h.quiet hquiet).2⟩

theorem of_raised (h : Appoints now c c') (hraised : c'.raised = true) : Signals now c c' :=
  ⟨h, fun hquiet => by rw [hraised] at hquiet; cases hquiet⟩

end Signals

theorem schedule_storeStatus : (c.storeStatus a).schedule = c.schedule := by
  rw [storeStatus]
  split <;> rfl

theorem schedule_postStatus {n : Byte} : (c.postStatus mem n).2.1.schedule = c.schedule := by
  rw [postStatus]
  split <;> rfl

theorem appoints_resetChannel {n : Byte} : Appoints now c (c.resetChannel n).2 := by
  have hfoldl : ∀ (l : List DeviceAddress) (s : Schedule DeviceAddress), ∀ e ∈ (l.foldl Schedule.remove s).entries,
      e ∈ s.entries := fun l => by
    induction l with
    | nil => exact fun _ _ => id
    | cons a rest ih => exact fun s e he => (List.mem_filter.mp (ih (s.remove a) e he)).1
  rw [resetChannel]
  split
  · exact Std.Refl.refl c
  · exact fun e he => .inl (hfoldl _ _ e he)

variable [Peripheral δ ω]

theorem appoints_issue {command : Byte} : Appoints now c (c.issue now a command).2 := by
  cases hs : c.get? a with
  | none =>
    rw [issue, hs]
    exact Std.Refl.refl c
  | some s =>
    have haddressed : ∀ place, (c.addressed a command place).schedule = c.schedule := fun place => by
      rw [addressed]
      split <;> rfl
    rw [issue_eq hs]
    generalize (reactionTo s.device now command : Reaction δ ω CommandResponse) = r
    cases hanswer : r.answer with
    | accepted delay => exact appoints_put (Nat.le_add_right now delay) (congrArg (Schedule.put · a _) (haddressed _))
    | done status =>
      dsimp only [answered]
      split
      · exact appoints_of_eq (haddressed _)
      · split <;> exact appoints_of_eq (haddressed _)

theorem appoints_continueProgram {allowed : Bool} : Appoints now c (c.continueProgram now mem a allowed).2 := by
  rw [continueProgram]
  split
  · exact Std.Refl.refl c
  · split
    · exact appoints_of_eq rfl
    · exact appoints_of_eq rfl
    · next command p _ =>
      have hmodified : Appoints now c (c.modifyProgram a fun _ => p) := appoints_of_eq rfl
      exact hmodified.trans appoints_issue

theorem appoints_launch : Appoints now c (c.launch now mem a).2 := by
  have hbegun : Appoints now c (c.continueProgram now mem a false).2 := appoints_continueProgram
  rw [launch]
  generalize c.continueProgram now mem a false = begun at hbegun ⊢
  obtain ⟨answer, c'⟩ := begun
  have hstored : ∀ f, Appoints now c ((c'.modifyProgram a f).storeStatus a) := fun f =>
    hbegun.trans (appoints_of_eq schedule_storeStatus)
  cases answer with
  | error _ => exact hstored _
  | ok _ =>
    dsimp only
    split
    · exact hstored _
    · split <;> exact hbegun

theorem appoints_startIo {first : Address} : Appoints now c (c.startIo now mem a first).2.1 := by
  cases hs : c.get? a with
  | none =>
    rw [startIo, hs]
    exact Std.Refl.refl c
  | some s =>
    by_cases hfree : Free s
    · by_cases hwilling : Willing s now
      · rw [startIo_of_willing hs hfree hwilling]
        have hprepared : Appoints now c (c.prepared now a first s.device) := appoints_of_eq rfl
        exact hprepared.trans appoints_launch
      · rw [startIo_of_not_willing hs hfree hwilling]
        exact appoints_of_eq rfl
    · rw [startIo_refused now mem first hs hfree]
      exact Std.Refl.refl c

theorem schedule_testIo {block : Word} : (c.testIo now mem a block).2.1.schedule = c.schedule := by
  rw [testIo]
  split
  · rfl
  · next s hs =>
    dsimp only
    split
    · rfl
    split
    · rfl
    split
    · rfl
    · have hpost : ((c.absorb a (Peripheral.testIo s.device now)).postStatus mem a.channel).2.1.schedule = c.schedule :=
        schedule_postStatus
      split <;> next heq =>
        rw [heq] at hpost
        exact hpost

theorem schedule_stopIo : (c.stopIo a).2.schedule = c.schedule := by
  rw [stopIo]
  repeat' split
  all_goals rfl

theorem schedule_haltIo : (c.haltIo now a).2.schedule = c.schedule := by
  rw [haltIo]
  repeat' split
  all_goals rfl

/-! ### A scan -/

theorem signals_scanDevice : Signals now c (c.scanDevice now mem a).2 := by
  rw [scanDevice]
  split
  · exact .refl
  · next p hp =>
    split
    · split
      · split
        · have happoints : Appoints now c (c.continueProgram now mem a true).2 := appoints_continueProgram
          split <;> next heq =>
            rw [heq] at happoints
            exact .of_raised happoints rfl
        · exact .of_raised (appoints_of_eq rfl) rfl
      · split
        · dsimp only
          split <;> exact ⟨appoints_of_eq rfl, fun h => ⟨h, rfl⟩⟩
        · refine .of_raised (appoints_of_eq schedule_storeStatus) ?_
          rw [storeStatus, hp]
          rfl
    · split
      · exact ⟨appoints_of_eq rfl, fun h => ⟨h, rfl⟩⟩
      · exact .refl

theorem signals_scanDevices {l : List DeviceAddress} : Signals now c (scanDevices now mem l c).2 := by
  induction l generalizing c with
  | nil => exact .refl
  | cons b rest ih =>
    have hfirst : Signals now c (c.scanDevice now mem b).2 := signals_scanDevice
    rw [scanDevices]
    split <;> next heq =>
      rw [heq] at hfirst
      first
        | exact hfirst
        | exact hfirst.trans ih

/-- A scan puts no time that is past, and one that leaves the signal down leaves the schedule as it was. -/
theorem scan_appoints {progress : Option LoadProgress} (h : c.scan now mem = (progress, c')) :
    Appoints now c c' ∧ (c'.raised = false → c'.schedule = c.schedule) := by
  rw [scan] at h
  split at h
  · have hsignals :
        Signals now { c with raised := false } (scanDevices now mem c.addresses { c with raised := false }).2 :=
      signals_scanDevices
    rw [h] at hsignals
    exact ⟨hsignals.appoints, fun hquiet => (hsignals.quiet hquiet).2⟩
  · cases h
    exact ⟨Std.Refl.refl c, fun _ => rfl⟩

/-! ### A poll -/

/-- A service may put a time for the device that is serviced. -/
theorem appoints_serviceDevice : Appoints now c (c.serviceDevice now mem a).1 := by
  rw [serviceDevice]
  split
  · exact Std.Refl.refl c
  · dsimp only
    generalize Connection.run _ _ _ = done
    obtain ⟨⟨device, again⟩, ⟨address, ⟨program, mem⟩, channel, raised⟩, output⟩ := done
    cases again with
    | none => exact appoints_of_eq rfl
    | some delay => exact appoints_put (Nat.le_add_right now delay) rfl

/-- The devices that a poll services in turn, each with the time for which it was scheduled. -/
def services (now : Nat) : Nat → Channels δ ω → Memory → List (DeviceAddress × Nat)
  | 0, _, _ => []
  | limit + 1, c, mem =>
    match c.schedule.popDue? now with
    | none => []
    | some (a, schedule) =>
      let before := { c with schedule := schedule }
      (a, (c.schedule.time? a).getD now) ::
        services now limit (before.serviceDevice now mem a).1 (before.serviceDevice now mem a).2

/-- The service of a device takes its time from the schedule. -/
def attend (now : Nat) (s : Channels δ ω × Memory) (e : DeviceAddress × Nat) : Channels δ ω × Memory :=
  ({ s.1 with schedule := s.1.schedule.remove e.1 } : Channels δ ω).serviceDevice now s.2 e.1

/-- A poll is the services of its devices one after the other. -/
theorem pollUpTo_eq_services : pollUpTo now limit c mem = (services now limit c mem).foldl (attend now) (c, mem) := by
  induction limit generalizing c mem with
  | zero => rfl
  | succ limit ih =>
    rw [pollUpTo, services]
    cases hpop : c.schedule.popDue? now with
    | none => rfl
    | some popped =>
      obtain ⟨b, schedule⟩ := popped
      obtain ⟨time, -, -, rfl⟩ := Schedule.popDue?_eq_some hpop
      exact ih

/-- What is popped first. -/
theorem services_cons {schedule : Schedule DeviceAddress} (limit : Nat) (mem : Memory)
    (hpop : c.schedule.popDue? now = some (a, schedule)) :
    ∃ time ≤ now, c.schedule.time? a = some time ∧ services now (limit + 1) c mem =
      (a, time) :: services now limit (attend now (c, mem) (a, time)).1 (attend now (c, mem) (a, time)).2 := by
  obtain ⟨time, hle, hmem, rfl⟩ := Schedule.popDue?_eq_some hpop
  have htime := Schedule.time?_eq_some_iff.mpr hmem
  refine ⟨time, hle, htime, ?_⟩
  rw [services, hpop]
  dsimp only
  rw [htime]
  rfl

theorem appoints_attend {time : Nat} : Appoints now c (attend now (c, mem) (a, time)).1 := by
  have hremove : Appoints now c { c with schedule := c.schedule.remove a } :=
    fun _ he => .inl (List.mem_filter.mp he).1
  exact hremove.trans appoints_serviceDevice

theorem appoints_pollUpTo : Appoints now c (pollUpTo now limit c mem).1 := by
  induction limit generalizing c mem with
  | zero => exact Std.Refl.refl c
  | succ limit ih =>
    rw [pollUpTo]
    cases hpop : c.schedule.popDue? now with
    | none => exact Std.Refl.refl c
    | some popped =>
      obtain ⟨b, schedule⟩ := popped
      obtain ⟨time, -, -, rfl⟩ := Schedule.popDue?_eq_some hpop
      have hfirst : Appoints now c (attend now (c, mem) (b, time)).1 := appoints_attend
      exact hfirst.trans ih

/-- When no device is overdue, a poll services devices only at the times for which they are scheduled. -/
theorem eq_of_mem_services (hc : c.NotOverdue now) (h : (a, due) ∈ services now limit c mem) : due = now := by
  induction limit generalizing c mem with
  | zero => cases h
  | succ limit ih =>
    cases hpop : c.schedule.popDue? now with
    | none =>
      rw [services, hpop] at h
      cases h
    | some popped =>
      obtain ⟨b, schedule⟩ := popped
      obtain ⟨time, hle, htime, heq⟩ := services_cons limit mem hpop
      rw [heq] at h
      rcases List.mem_cons.mp h with heq | h
      · cases heq
        exact Nat.le_antisymm hle (hc _ (Schedule.time?_eq_some_iff.mp htime))
      · exact ih (appoints_attend.notOverdue hc) h

/-- A poll that services all that is due services every device that is due. -/
theorem mem_services (hall : (pollUpTo now limit c mem).1.schedule.NoneDue now) (htime : c.schedule.time? a = some due)
    (hle : due ≤ now) : (a, due) ∈ services now limit c mem := by
  induction limit generalizing c mem with
  | zero => exact absurd hall (Schedule.not_noneDue htime hle)
  | succ limit ih =>
    cases hpop : c.schedule.popDue? now with
    | none => exact absurd (Schedule.popDue?_eq_none_iff.mp hpop) (Schedule.not_noneDue htime hle)
    | some popped =>
      obtain ⟨b, schedule⟩ := popped
      obtain ⟨time, -, hb, heq⟩ := services_cons limit mem hpop
      rw [heq]
      rw [pollUpTo, hpop] at hall
      obtain ⟨_, _, _, rfl⟩ := Schedule.popDue?_eq_some hpop
      by_cases hne : b = a
      · subst hne
        cases hb.symm.trans htime
        exact List.mem_cons_self
      · have hspares := (Spares.remove (c := c) hne).trans (spares_serviceDevice now mem hne)
        exact List.mem_cons_of_mem _ (ih hall (hspares.time.trans htime))

end Concept32.Channels
