import Mathlib.Order.Monotone.Basic
import Concept32.Device.Standard
import Concept32.Proofs.Hardware.Halting
import Concept32.Proofs.Machine.Ticks

/-!
# The pace of instructions

A machine that is not being loaded executes at most one instruction at a time: the instruction after it is due later,
and after an interrupt the next one is not due before the interrupt has been taken. No tick makes an instruction due
earlier than that, so this holds of every sequence of ticks.
-/

namespace Concept32.Machine
open EStateM
variable {δ ω : Type} {m m' : Machine δ ω} {now time : Nat}

/-! ### The next tick -/

theorem le_nextTick (hpoll : now ≤ m.pollDue)
    (hdue : ∀ due, m.instructionDue = some due → m.mode = .running → now ≤ due) :
    now ≤ m.nextTick := by
  rw [nextTick]
  split
  · next due hrunning hd => exact Nat.le_min.mpr ⟨hpoll, hdue due hd hrunning⟩
  · exact hpoll

theorem le_nextPoll {c c' : Channels δ ω} : now ≤ nextPoll now c c' := by
  rw [nextPoll]
  split
  · exact Nat.le_refl _
  · split
    · exact Nat.le_max_right _ _
    · exact Nat.le_add_right _ _

theorem le_advancedPoll {c : Channels δ ω} {pollDue : Nat} (h : now ≤ pollDue) : now ≤ advancedPoll now c pollDue := by
  rw [advancedPoll]
  split
  · exact Nat.le_refl _
  · split
    · exact Nat.le_min.mpr ⟨h, Nat.le_max_right _ _⟩
    · exact h

/-! ### The first part of a tick -/

/-- The machine is not being loaded, and no instruction has been executed or become due. -/
structure Waits (m m' : Machine δ ω) : Prop where
  loading : m'.channels.loading = none
  instructionDue : m'.instructionDue = m.instructionDue
  executed : m'.executed = m.executed

variable [Peripheral δ ω]

/-- A poll of a machine that is not being loaded succeeds. -/
theorem poll_of_not_loading (now : Nat) (hloading : m.channels.loading = none) :
    ∃ c mem c', poll now m =
      .ok () ⟨m.config, ⟨⟨m.cpu, mem⟩, c'⟩, m.instructionDue, nextPoll now c c', m.executed⟩ ∧ c'.loading = none := by
  generalize hserviced : m.channels.poll now m.memory = serviced
  obtain ⟨c, mem⟩ := serviced
  generalize hscan : c.scan now mem = scanned
  obtain ⟨progress, c'⟩ := scanned
  have hkept : c.loading = none := by
    rw [← hloading, ← show (m.channels.poll now m.memory).1 = c by rw [hserviced]]
    exact Channels.loading_pollUpTo
  rcases (Channels.scan_inv hscan).2 with ⟨rfl, hsame⟩ | ⟨-, hsome, -⟩
  · exact ⟨c, mem, c', poll_of_scan_none hserviced hscan, hsame.trans hkept⟩
  · rw [hkept] at hsome
    cases hsome

/-- The first part of a tick sets the processor running if it takes an interrupt, and halts it if it fails. -/
theorem look_cases (now : Nat) (hloading : m.channels.loading = none) :
    match look now m with
    | .ok taken m' => m.Waits m' ∧ m'.mode = (if taken then .running else m.mode) ∧ now ≤ m'.pollDue
    | .error _ m' => m.Waits m' ∧ m'.mode = .halted := by
  obtain ⟨m₁, hpolled, hwaits, hmode, hpollDue⟩ : ∃ m₁, (if m.pollDue ≤ now then poll now m else .ok () m) = .ok () m₁ ∧
      m.Waits m₁ ∧ m₁.mode = m.mode ∧ now ≤ m₁.pollDue := by
    split
    · obtain ⟨c, mem, c', hpoll, hkept⟩ := poll_of_not_loading now hloading
      exact ⟨_, hpoll, ⟨hkept, rfl, rfl⟩, rfl, le_nextPoll⟩
    · exact ⟨m, rfl, ⟨hloading, rfl, rfl⟩, rfl, by omega⟩
  rw [look_eq, hpolled]
  dsimp only
  by_cases hhalted : m₁.mode = .halted
  · rw [if_pos hhalted]
    exact ⟨hwaits, hmode, hpollDue⟩
  · rw [if_neg hhalted]
    have hfound := @Hardware.found_scanForInterrupt δ ω now
    cases hscan : onHardware (Hardware.scanForInterrupt now) m₁ with
    | ok taken m' =>
      obtain ⟨s, hs, rfl⟩ := onHardware_eq_ok.mp hscan
      obtain ⟨hdrains, hset⟩ := hfound.ok hs
      exact ⟨⟨hdrains.loading.trans hwaits.loading, hwaits.instructionDue, hwaits.executed⟩,
        hset.trans (by rw [← hmode]; rfl), hpollDue⟩
    | error stop m' =>
      obtain ⟨halt, s, hs, -, rfl⟩ := onHardware_eq_error.mp hscan
      obtain ⟨hdrains, hset⟩ := hfound.error hs
      exact ⟨⟨hdrains.loading.trans hwaits.loading, hwaits.instructionDue, hwaits.executed⟩, hset⟩

theorem look_ok {taken : Bool} (hloading : m.channels.loading = none) (h : look now m = .ok taken m') :
    m.Waits m' ∧ m'.mode = (if taken then .running else m.mode) ∧ now ≤ m'.pollDue := by
  have hcases := look_cases now hloading
  rwa [h] at hcases

theorem look_error {stop : MachineStop} (hloading : m.channels.loading = none) (h : look now m = .error stop m') :
    m.Waits m' ∧ m'.mode = .halted := by
  have hcases := look_cases now hloading
  rwa [h] at hcases

/-! ### What happens at a tick -/

/-- The processor takes an interrupt at a tick. -/
def TakesInterrupt (m : Machine δ ω) (now : Nat) : Prop := ∃ m', look now m = .ok true m'

/-- An instruction is executed at a tick: no interrupt is taken, the processor runs, and an instruction is due. -/
def Executes (m : Machine δ ω) (now : Nat) : Prop :=
  ∃ m' due, look now m = .ok false m' ∧ m'.mode = .running ∧ m'.instructionDue = some due ∧ due ≤ now

theorem TakesInterrupt.not_executes (h : m.TakesInterrupt now) : ¬m.Executes now := by
  rintro ⟨_, _, hlook, -⟩
  obtain ⟨_, hlook'⟩ := h
  cases hlook.symm.trans hlook'

theorem not_takesInterrupt (h : look now m = .ok false m') : ¬m.TakesInterrupt now := by
  rintro ⟨_, h'⟩
  cases h.symm.trans h'

/-- The machine is not being loaded, and while the processor runs no instruction is due before a time. -/
structure NoneBefore (m : Machine δ ω) (time : Nat) : Prop where
  loading : m.channels.loading = none
  due : m.mode = .running → ∃ due, m.instructionDue = some due ∧ time ≤ due

theorem NoneBefore.le_of_executes (h : m.NoneBefore time) (hexecutes : m.Executes now) : time ≤ now := by
  obtain ⟨m', due, hlook, hrunning, hdue, hle⟩ := hexecutes
  obtain ⟨hwaits, hmode, -⟩ := look_ok h.loading hlook
  obtain ⟨due', hdue', hbefore⟩ := h.due (hmode.symm.trans hrunning)
  cases (hwaits.instructionDue.symm.trans hdue).symm.trans hdue'
  omega

/-! ### One tick -/

theorem loading_tick (now : Nat) (hloading : m.channels.loading = none) :
    ((tick now).after m).channels.loading = none := by
  have houtcome := outcome_tick now m
  rw [after]
  generalize tick now m = r at houtcome ⊢
  cases houtcome with
  | stopped h => exact (look_error hloading h).1.loading
  | interrupted h | resumed h | idle h => exact (look_ok hloading h).1.loading
  | executed h _ _ _ hexecute =>
    exact (Hardware.sameLoading_executeInstruction hexecute).trans (look_ok hloading h).1.loading
  | trapped h _ _ _ hexecute =>
    exact (congrArg Channels.loading (Hardware.executeInstruction_eq_error hexecute).2).trans
      (look_ok hloading h).1.loading

/-- Which instruction is due after a tick depends on what happened at it: after an interrupt or an instruction it is a
new one, and otherwise the one that was due before. -/
theorem noneBefore_tick (hloading : m.channels.loading = none)
    (hinterrupted : m.TakesInterrupt now → time ≤ now + Timing.interrupt) (hexecuted : m.Executes now → time ≤ now + 1)
    (hotherwise : ¬m.TakesInterrupt now → ¬m.Executes now → m.NoneBefore time) :
    ((tick now).after m).NoneBefore time := by
  refine ⟨loading_tick now hloading, ?_⟩
  have houtcome := outcome_tick now m
  rw [after]
  generalize tick now m = r at houtcome ⊢
  cases houtcome with
  | stopped h => exact fun hrunning => by cases (look_error hloading h).2.symm.trans hrunning
  | interrupted h => exact fun _ => ⟨_, rfl, hinterrupted ⟨_, h⟩⟩
  | executed h hrunning hdue hle _ =>
    have := hexecuted ⟨_, _, h, hrunning, hdue, hle⟩
    exact fun hagain => ⟨_, if_pos hagain, by split <;> omega⟩
  | trapped _ _ _ _ hexecute =>
    exact fun hrunning => by cases (Hardware.executeInstruction_eq_error hexecute).1.symm.trans hrunning
  | resumed h hrunning hnone =>
    -- A processor that runs has an instruction due, and neither the poll nor the look for an interrupt takes it away.
    obtain ⟨hwaits, hmode, -⟩ := look_ok hloading h
    have hnot : ¬m.Executes now := by
      rintro ⟨_, due, h', _, hdue, _⟩
      cases h.symm.trans h'
      cases hnone.symm.trans hdue
    have hbefore := hotherwise (not_takesInterrupt h) hnot
    obtain ⟨due, hdue, -⟩ := hbefore.due (hmode.symm.trans hrunning)
    cases (hwaits.instructionDue.symm.trans hnone).symm.trans hdue
  | idle h hlater =>
    obtain ⟨hwaits, hmode, -⟩ := look_ok hloading h
    have hnot : ¬m.Executes now := by
      rintro ⟨_, due, h', hrunning, hdue, hle⟩
      cases h.symm.trans h'
      obtain ⟨due', hdue', hlt⟩ := hlater hrunning
      cases hdue.symm.trans hdue'
      omega
    have hbefore := hotherwise (not_takesInterrupt h) hnot
    intro hrunning
    obtain ⟨due, hdue, hle⟩ := hbefore.due (hmode.symm.trans hrunning)
    exact ⟨due, hwaits.instructionDue.trans hdue, hle⟩

/-- A tick makes no instruction due earlier, unless the time lies after all that can become due at it. -/
theorem NoneBefore.tick (h : m.NoneBefore time) (hle : time ≤ now + Timing.interrupt) :
    ((Machine.tick now).after m).NoneBefore time :=
  noneBefore_tick h.loading (fun _ => hle) (fun hexecutes => Nat.le_succ_of_le (h.le_of_executes hexecutes))
    fun _ _ => h

theorem Executes.noneBefore (hloading : m.channels.loading = none) (h : m.Executes now) :
    ((Machine.tick now).after m).NoneBefore (now + 1) :=
  noneBefore_tick hloading (fun _ => by rw [Timing.interrupt]; omega) (fun _ => Nat.le_refl _) fun _ hnot =>
    absurd h hnot

theorem TakesInterrupt.noneBefore (hloading : m.channels.loading = none) (h : m.TakesInterrupt now) :
    ((Machine.tick now).after m).NoneBefore (now + Timing.interrupt) :=
  noneBefore_tick hloading (fun _ => Nat.le_refl _) (fun hexecutes => absurd hexecutes h.not_executes)
    fun hnot _ => absurd h hnot

/-- A tick executes at most one instruction. -/
theorem executed_tick (now : Nat) (hloading : m.channels.loading = none) :
    ((tick now).after m).executed = m.executed ∨
      (((tick now).after m).executed = m.executed + 1 ∧ m.Executes now) := by
  have houtcome := outcome_tick now m
  rw [after]
  generalize tick now m = r at houtcome ⊢
  cases houtcome with
  | stopped h => exact .inl (look_error hloading h).1.executed
  | interrupted h | trapped h | resumed h | idle h => exact .inl (look_ok hloading h).1.executed
  | executed h hrunning hdue hle _ =>
    exact .inr ⟨congrArg (· + 1) (look_ok hloading h).1.executed, _, _, h, hrunning, hdue, hle⟩

/-- After a tick that succeeds the next one is not due earlier. -/
theorem le_nextTick_of_tick (hloading : m.channels.loading = none) (h : tick now m = .ok () m') :
    now ≤ m'.nextTick := by
  have houtcome := outcome_tick now m
  rw [h] at houtcome
  clear h
  cases houtcome with
  | interrupted h =>
    exact le_nextTick (look_ok hloading h).2.2 fun due hdue _ => by cases hdue; exact Nat.le_add_right _ _
  | executed h =>
    refine le_nextTick (le_advancedPoll (look_ok hloading h).2.2) fun due hdue _ => ?_
    dsimp only [nextInstruction] at hdue
    split at hdue
    · cases hdue
      split <;> omega
    · cases hdue
  | resumed h => exact le_nextTick (look_ok hloading h).2.2 fun due hdue _ => by cases hdue; exact Nat.le_refl _
  | idle h hlater =>
    refine le_nextTick (look_ok hloading h).2.2 fun due hdue hrunning => ?_
    obtain ⟨due', hdue', hlt⟩ := hlater hrunning
    cases hdue.symm.trans hdue'
    exact Nat.le_of_lt hlt

/-! ### A sequence of ticks -/

/-- The machine after its first ticks, at times that are given, however each of them ended. -/
def afterTicks (m : Machine δ ω) (times : Nat → Nat) : Nat → Machine δ ω
  | 0 => m
  | n + 1 => (tick (times n)).after (m.afterTicks times n)

variable {times : Nat → Nat} {i j : Nat}

theorem loading_afterTicks (hloading : m.channels.loading = none) (n : Nat) :
    (m.afterTicks times n).channels.loading = none := by
  induction n with
  | zero => exact hloading
  | succ n ih => exact loading_tick (times n) ih

/-- Until a time that one tick has set, no later tick executes an instruction. -/
theorem le_of_executes_afterTicks (htimes : Monotone times) (hlt : i < j) (hle : time ≤ times i + Timing.interrupt)
    (hbefore : (m.afterTicks times (i + 1)).NoneBefore time) (h : (m.afterTicks times j).Executes (times j)) :
    time ≤ times j := by
  have hkept : ∀ n, (m.afterTicks times (i + 1 + n)).NoneBefore time := fun n => by
    induction n with
    | zero => exact hbefore
    | succ n ih =>
      have hlater : times i ≤ times (i + 1 + n) := htimes (by omega)
      exact ih.tick (Nat.le_trans hle (Nat.add_le_add_right hlater _))
  have hj := hkept (j - (i + 1))
  rw [show i + 1 + (j - (i + 1)) = j by omega] at hj
  exact hj.le_of_executes h

/-- Instructions never run twice at one instant. In every sequence of ticks of a machine that is not being loaded, at
times that do not decrease, each tick executes at most one instruction, the times of the ticks that execute one
increase, a tick that takes an interrupt executes none and neither does any tick until the interrupt has been taken,
and after a tick that succeeds the next is not due earlier. -/
theorem instructions_apart (hloading : m.channels.loading = none) (htimes : Monotone times) :
    (∀ n, (m.afterTicks times (n + 1)).executed = (m.afterTicks times n).executed ∨
      ((m.afterTicks times (n + 1)).executed = (m.afterTicks times n).executed + 1 ∧
        (m.afterTicks times n).Executes (times n))) ∧
    (∀ i j, i < j → (m.afterTicks times i).Executes (times i) → (m.afterTicks times j).Executes (times j) →
      times i < times j) ∧
    (∀ i, (m.afterTicks times i).TakesInterrupt (times i) → ¬(m.afterTicks times i).Executes (times i) ∧
      ∀ j, i < j → (m.afterTicks times j).Executes (times j) → times i + 1500 ≤ times j) ∧
    ∀ n m', tick (times n) (m.afterTicks times n) = .ok () m' → times n ≤ m'.nextTick := by
  refine ⟨fun n => executed_tick (times n) (loading_afterTicks hloading n), fun i j hlt hi hj => ?_, fun i hi => ?_,
    fun n m' => le_nextTick_of_tick (loading_afterTicks hloading n)⟩
  · exact le_of_executes_afterTicks htimes hlt (by rw [Timing.interrupt]; omega)
      (hi.noneBefore (loading_afterTicks hloading i)) hj
  · refine ⟨hi.not_executes, fun j hlt hj => ?_⟩
    exact le_of_executes_afterTicks htimes hlt (Nat.le_refl _) (hi.noneBefore (loading_afterTicks hloading i)) hj

/-- A machine that runs with interrupts blocked, with instructions that do nothing. -/
def running : Machine StandardDevice Char where
  config := ⟨.c3227, .k128, 0⟩
  hardware :=
    { core := ⟨{ (Cpu.initial .c3227 0).withBlocked true with mode := .running }, ⟨#[0x00020002#32], by decide⟩⟩
      channels := .empty }
  instructionDue := some 0
  pollDue := 0
  executed := 0

/-- However often a machine is advanced at one time, it executes one instruction at that time. -/
theorem instructions_apart_running : running.channels.loading = none ∧ Monotone (fun _ : Nat => 0) ∧
    running.Executes 0 ∧ ∀ n, ¬(running.afterTicks (fun _ => 0) (n + 1)).Executes 0 := by
  have hloading : running.channels.loading = none := rfl
  have htimes : Monotone (fun _ : Nat => 0) := monotone_const
  have hexecutes : running.Executes 0 := ⟨_, 0, rfl, rfl, rfl, Nat.le_refl _⟩
  refine ⟨hloading, htimes, hexecutes, fun n hagain => ?_⟩
  exact Nat.lt_irrefl 0 ((instructions_apart hloading htimes).2.1 0 (n + 1) (Nat.succ_pos n) hexecutes hagain)

end Concept32.Machine
