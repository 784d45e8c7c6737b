import Concept32.Proofs.Hardware.Arbitration
import Concept32.Proofs.Hardware.Confinement

/-!
# Interrupts and returns

A return from an interrupt ends the first level that is active. That is the level that has interrupted, and the levels
that were active before stay so. But a level of class F whose routine has interrupts blocked is not active any more:
then the return ends the first of the levels that were active before, though its routine has not ended.
-/

namespace Concept32

theorem Core.levels_of_same {s s' : Core} (h : Core.Same s s') : s'.cpu.levels = s.cpu.levels := by
  obtain ⟨address, count, rfl⟩ := h
  rfl

/-! ### Instructions of the miscellaneous group -/

/-- The first byte shows the number of the opcode in its upper six bits. -/
theorem Instruction.opcodeByte_eq (i : Instruction) : i.opcodeByte = (i.bits.extractLsb' 26 6).setWidth 8 <<< 2 := by
  have hmask : ∀ k < 8, (0xFC#8).getLsbD k = decide (2 ≤ k) := by decide
  refine BitVec.eq_of_getLsbD_eq fun k hk => ?_
  rw [opcodeByte, BitVec.getLsbD_and, hmask k hk]
  by_cases hlow : k < 2
  · simp [hlow]
  · have hplace : 26 + (k - 2) = 24 + k := by omega
    simp [hlow, hk, Nat.le_of_not_lt hlow, hplace, show k - 2 < 6 by omega]

/-- No instruction of the group is an execute instruction. -/
theorem Instruction.isExecute_of_misc {i : Instruction} {based : Bool} (h : i.opcode? based = some .misc) :
    i.isExecute = false := by
  have honly : ∀ n : Fin 64, (Opcode.basedTable.get n = some .misc ∨ Opcode.nonBasedTable.get n = some .misc) →
      n = 62 := by decide
  have hindex : i.opcodeIndex = 62 := by
    rw [opcode?] at h
    split at h
    · exact honly _ (.inl h)
    · exact honly _ (.inr h)
  have hbits : i.bits.extractLsb' 26 6 = 62#6 := congrArg BitVec.ofFin hindex
  rw [isExecute, opcodeByte_eq, hbits]
  rfl

namespace Hardware
open Concept32.Core EStateM
variable {δ ω : Type} {s s' s₁ s₂ : Hardware δ ω} {now level left : Nat} {entry : ConfigurationEntry} {block : Word}

/-! ### A level that has interrupted -/

theorem cpu_of_presentStatus {presented : Bool} (h : presentStatus entry level s = .ok presented s') :
    s'.core.cpu = if presented then s.core.cpu.requestInterrupt level else s.core.cpu := by
  obtain ⟨⟨cpu, memory⟩, channels⟩ := s
  rw [presentStatus] at h
  split at h
  · cases h
    rfl
  · split at h
    · cases h
      rfl
    · split at h
      · cases h
        rfl
      · cases h
        rfl

theorem takes_of_ok (hopen : s.core.cpu.interruptsBlocked = false)
    (h : onCore (takeInterrupt now level (s.core.cpu.scratchpad.levelEntry level)) s = .ok true s') :
    ∃ block, s.block? level = some block ∧ Takes level block s s' := by
  cases hblock : s.block? level with
  | none =>
    obtain ⟨⟨cpu, mem⟩, channels⟩ := s
    rw [onCore, takeInterrupt_of_none hblock] at h
    cases h
  | some block =>
    refine ⟨block, rfl, ?_⟩
    have hloads : s.Loads level := by
      intro found hfound
      rcases takeInterrupt_cases now level (s.core.cpu.scratchpad.levelEntry level) s.core with ⟨hnone, -⟩ |
        ⟨entry, entered, hentry, ⟨hexchange, -⟩ | ⟨_, -, htake⟩⟩
      · cases hnone.symm.trans hfound
      · cases hentry.symm.trans hfound
        obtain ⟨-, hfits, map, hmap, -⟩ := Exec.exchange_eq_ok.mp hexchange
        rw [Cpu.mapUnder_activateLevel, Core.saved, Cpu.interruptsBlocked_activateLevel] at hmap
        exact ⟨hfits, map, hmap⟩
      · cases htake.symm.trans (onCore_eq_ok h).2
    obtain ⟨t, htake, htakes⟩ := takes_of_block now hopen hblock hloads
    cases htake.symm.trans h
    exact htakes

/-- A level has interrupted through a context block: no level up to it was active. -/
structure Interrupts (level : Nat) (block : Word) (s s' : Hardware δ ω) : Prop where
  lt : level < levelCount
  idle : ∀ k ≤ level, s.core.cpu.levels.isActive k = false
  takes : ∃ u : Hardware δ ω, u.core.cpu = s.core.cpu ∧ u.block? level = some block ∧ Takes level block u s'

theorem scanLevels_takes (hleft : left ≤ levelCount) (hopen : s.core.cpu.interruptsBlocked = false)
    (hidle : ∀ k < levelCount - left, s.core.cpu.levels.isActive k = false)
    (h : scanLevels now left s = .ok true s') : ∃ level block, Interrupts level block s s' := by
  induction left generalizing s with
  | zero => cases h
  | succ left ih =>
    generalize hlevel : levelCount - (left + 1) = level at hidle
    rw [scanLevels, hlevel] at h
    obtain ⟨_, _, hget, h⟩ := bind_eq_ok.mp h
    cases hget
    split at h
    · cases h
    next hactive =>
    have hidle' : ∀ k ≤ level, s.core.cpu.levels.isActive k = false := by
      intro k hk
      rcases Nat.eq_or_lt_of_le hk with rfl | hlt
      · exact (Bool.not_eq_true _).mp hactive
      · exact hidle k hlt
    have hskip : ∀ u : Hardware δ ω, u.core.cpu = s.core.cpu → scanLevels now left u = .ok true s' →
        ∃ level block, Interrupts level block s s' := by
      intro u hcpu hrest
      obtain ⟨l, block, hlt, hbefore, v, hv, htaken⟩ := ih (s := u) (by omega) (hcpu ▸ hopen)
        (fun k hk => hcpu ▸ hidle' k (by omega)) hrest
      exact ⟨l, block, hlt, hcpu ▸ hbefore, v, hv.trans hcpu, htaken⟩
    have htake : ∀ u : Hardware δ ω, u.core.cpu = s.core.cpu →
        onCore (takeInterrupt now level (s.core.cpu.scratchpad.levelEntry level)) u = .ok true s' →
        ∃ level block, Interrupts level block s s' := by
      intro u hcpu htaken
      rw [← hcpu] at htaken
      obtain ⟨block, hblock, htakes⟩ := takes_of_ok (hcpu ▸ hopen) htaken
      exact ⟨level, block, by omega, hidle', u, hcpu, hblock, htakes⟩
    split at h
    · exact hskip s rfl h
    split at h
    · exact htake s rfl h
    split at h
    · exact hskip s rfl h
    obtain ⟨presented, u, hpresent, h⟩ := bind_eq_ok.mp h
    have hcpu := cpu_of_presentStatus hpresent
    obtain ⟨⟨cpu, memory⟩, channels⟩ := u
    cases presented with
    | true =>
      -- The request that presenting the status makes is used up when the level is taken.
      rw [if_pos rfl] at hcpu
      dsimp only at hcpu
      rw [hcpu, if_pos rfl, onCore, takeInterrupt_requestInterrupt] at h
      exact htake ⟨⟨s.core.cpu, memory⟩, channels⟩ rfl h
    | false => exact hskip _ hcpu h

/-- An interrupt is taken on a level before which none is active. -/
theorem scanForInterrupt_takes (h : scanForInterrupt now s = .ok true s') :
    ∃ level block, Interrupts level block s s' := by
  rw [scanForInterrupt] at h
  obtain ⟨_, _, hget, h⟩ := bind_eq_ok.mp h
  cases hget
  split at h
  · cases h
  · next hopen =>
    exact scanLevels_takes (Nat.le_refl _) ((Bool.not_eq_true _).mp hopen) (fun k hk => by omega) h

/-- The level that has interrupted is of class F, and its routine has interrupts blocked. -/
def Hides (level : Nat) (s s' : Hardware δ ω) : Prop :=
  (s.core.cpu.scratchpad.levelEntry level).isClassF = true ∧ s'.core.cpu.psd.blocking = .block

/-- The levels that are active. -/
def active (s : Hardware δ ω) : Nat → Bool := s.core.cpu.levels.isActive

/-- The levels that are active without the first. -/
def activeAfterFirst (s : Hardware δ ω) : Nat → Bool := s.core.cpu.levels.endFirst.isActive

theorem activeAfterFirst_eq (k : Nat) :
    s.activeAfterFirst k = (s.active k && decide (s.core.cpu.levels.firstActive? ≠ some k)) :=
  InterruptLevels.isActive_endFirst k

theorem activeAfterFirst_congr (h : s'.active = s.active) : s'.activeAfterFirst = s.activeAfterFirst := by
  funext k
  rw [activeAfterFirst_eq, activeAfterFirst_eq, h, InterruptLevels.firstActive?_congr h]

theorem activeAfterFirst_eq_active_iff : s.activeAfterFirst = s.active ↔ ∀ k, s.active k = false := by
  constructor
  · intro h
    refine InterruptLevels.firstActive?_eq_none.mp ?_
    cases hfirst : s.core.cpu.levels.firstActive? with
    | none => rfl
    | some first =>
      have hactive : s.active first = true := (InterruptLevels.firstActive?_eq_some.mp hfirst).1
      have hsame := congrFun h first
      rw [activeAfterFirst_eq, hactive, hfirst] at hsame
      simp at hsame
  · intro h
    funext k
    rw [activeAfterFirst_eq, h k, Bool.false_and]

/-- The level that has interrupted is active then unless it is hidden, and the others are as they were. -/
theorem Interrupts.active (h : Interrupts level block s s') :
    (s.Hides level s' → s'.active = s.active) ∧
      (¬s.Hides level s' → s'.active = fun k => decide (k = level) || s.active k) := by
  obtain ⟨u, hcpu, -, htakes⟩ := h.takes
  have hlevels := htakes.levels
  rw [hcpu] at hlevels
  have hafter : ∀ k, s'.active k = if k = level then !((s.core.cpu.scratchpad.levelEntry level).isClassF &&
      s'.core.cpu.psd.blocking = .block) else s.active k := fun k => by
    rw [Hardware.active, hlevels, InterruptLevels.isActive_modify h.lt]
    rfl
  have hwas : s.active level = false := h.idle level (Nat.le_refl _)
  constructor
  · rintro ⟨hclass, hblocks⟩
    funext k
    rw [hafter]
    split
    · next hk =>
      rw [hclass, hblocks, hk, hwas]
      rfl
    · rfl
  · intro hshown
    funext k
    rw [hafter]
    split
    · next hk =>
      rw [decide_eq_true hk, Bool.true_or, Bool.not_eq_true', Bool.and_eq_false_iff]
      by_cases hclass : (s.core.cpu.scratchpad.levelEntry level).isClassF = true
      · exact .inr (decide_eq_false fun hblocks => hshown ⟨hclass, hblocks⟩)
      · exact .inl ((Bool.not_eq_true _).mp hclass)
    · next hk => rw [decide_eq_false hk, Bool.false_or]

/-! ### Returning -/

section
variable {i : Instruction} {next : Word} {core t u : Core} {o : Operand}

theorem keeps_levels_loadPsdOperand {changeMaps : Option Bool} :
    Moves (Keeps fun s : Core => s.cpu.levels) (Concept32.Exec.loadPsdOperand o changeMaps) := by
  have hcheck : Moves (Keeps fun s : Core => s.cpu.levels) Concept32.Exec.requirePrivileged := by
    rw [Concept32.Exec.requirePrivileged]
    refine .bind Concept32.Exec.moves_ask fun _ => ?_
    split
    · exact .throw _
    · exact .pure _
  have hread : ∀ a, Moves (Keeps fun s : Core => s.cpu.levels) (Concept32.Exec.readDouble a) := fun a =>
    Concept32.Exec.reads_readDouble.mono (fun _ _ _ => levels_of_same) fun _ _ => levels_of_same
  exact .bind hcheck fun _ => .bind (hread _) fun _ =>
    Concept32.Exec.moves_loadPsd (fun _ _ _ => rfl) fun _ _ => Concept32.Exec.levels_enforced

theorem levels_of_returnFromInterrupt {flow : Flow} (h : Concept32.Exec.returnFromInterrupt o t = .ok flow u) :
    u.cpu.levels = t.cpu.levels.endFirst := by
  rw [Concept32.Exec.returnFromInterrupt] at h
  obtain ⟨_, v, hload, h⟩ := bind_eq_ok.mp h
  have hlevels : v.cpu.levels = t.cpu.levels := keeps_levels_loadPsdOperand.ok hload
  obtain ⟨_, _, hask, h⟩ := bind_eq_ok.mp h
  cases hask
  dsimp only at h
  rw [← hlevels, InterruptLevels.endFirst]
  cases hfirst : v.cpu.levels.firstActive? with
  | some level =>
    rw [hfirst] at h
    obtain ⟨_, _, hend, h⟩ := bind_eq_ok.mp h
    cases hend
    cases h
    rfl
  | none =>
    rw [hfirst] at h
    cases h
    rfl

variable [Peripheral δ ω]

/-- The next instruction of the program is a return from an interrupt, which loads what is saved in a context
block. -/
inductive Returns (now : Nat) (block : Word) (s s' : Hardware δ ω) : Prop
  | mk {i : Instruction} {next : Word} {core t u : Core} {o : Operand} {flow : Flow} {duration : Nat}
      (hfetch : fetch ⟨{ s.core.cpu with indirections := 0 }, s.core.memory⟩ = .ok (i, next) core)
      (hopcode : i.opcode? core.cpu.psd.based = some .misc) (hregister : i.register.val = 2)
      (hoperand : Concept32.Exec.operandOf i .memory next core = .ok o t)
      (hblock : Concept32.Exec.translate o.operandAddress .read t = .ok block t)
      (hreturn : Concept32.Exec.returnFromInterrupt o t = .ok flow u)
      (hexecute : executeInstruction now s = .ok duration s')

theorem dispatch_of_return {flow : Flow} {channels : Channels δ ω} (hopcode : i.opcode? core.cpu.psd.based = some .misc)
    (hregister : i.register.val = 2) (hoperand : Concept32.Exec.operandOf i .memory next core = .ok o t)
    (hreturn : Concept32.Exec.returnFromInterrupt o t = .ok flow u) :
    dispatch now i next ⟨core, channels⟩ = .ok flow ⟨u, channels⟩ := by
  have hgroup : Concept32.Exec.perform .misc o = Concept32.Exec.returnFromInterrupt o := by
    have hsame : o.register = i.register := by
      rw [Operand.register, Concept32.Exec.operandOf_instruction hoperand]
    rw [Concept32.Exec.perform, Concept32.Exec.miscellaneousGroup, hsame, hregister]
    rfl
  have hbased : (onCore Concept32.Exec.based : Exec δ ω Bool) ⟨core, channels⟩ =
      .ok core.cpu.psd.based ⟨core, channels⟩ := rfl
  have hresolve : (onCore (Concept32.Exec.operandOf i Opcode.misc.format next) : Exec δ ω Operand) ⟨core, channels⟩ =
      .ok o ⟨t, channels⟩ := by
    rw [onCore, show Opcode.misc.format = .memory from rfl, hoperand]
  rw [dispatch, Instruction.isExecute_of_misc hopcode, if_neg Bool.false_ne_true, perform, bind_of_ok hbased, hopcode]
  dsimp only
  rw [bind_of_ok hresolve, if_neg (by decide), hgroup, onCore, hreturn]

/-- A return ends the first level that is active. -/
theorem Returns.levels (h : Returns now block s s') : s'.core.cpu.levels = s.core.cpu.levels.endFirst := by
  obtain ⟨⟨cpu, memory⟩, channels⟩ := s
  obtain @⟨i, next, core, t, ⟨ucpu, umemory⟩, o, flow, duration, hfetch, hopcode, hregister, hoperand, -, hreturn,
    hexecute⟩ := h
  have hbefore : t.cpu.levels = cpu.levels :=
    (levels_of_same (Concept32.Exec.reads_operandOf.ok hoperand)).trans (levels_of_same (reads_fetch.ok hfetch))
  have hafter : ucpu.levels = cpu.levels.endFirst := by
    rw [← hbefore]
    exact levels_of_returnFromInterrupt hreturn
  have hdispatch : dispatch now i next ⟨core, channels⟩ = .ok flow ⟨⟨ucpu, umemory⟩, channels⟩ :=
    dispatch_of_return hopcode hregister hoperand hreturn
  have hproceed : (proceed flow next ucpu).levels = ucpu.levels := by
    cases flow with
    | next | jump | loaded | wait | halt => rfl
  rw [executeInstruction] at hexecute
  dsimp only at hfetch hexecute
  rw [hfetch] at hexecute
  dsimp only at hexecute
  rw [hdispatch] at hexecute
  cases hexecute
  exact hproceed.trans hafter

/-! ### One after the other -/

/-- A return after an interrupt, when the routine has left the levels as they were at its start. -/
theorem Interrupts.active_of_return (h : Interrupts level block s s₁) (hroutine : s₂.active = s₁.active) {place : Word}
    (hreturn : Returns now place s₂ s') :
    (s.Hides level s₁ → s'.active = s.activeAfterFirst) ∧ (¬s.Hides level s₁ → s'.active = s.active) := by
  have hafter : s'.active = s₁.activeAfterFirst := by
    rw [← activeAfterFirst_congr hroutine, Hardware.active, hreturn.levels]
    rfl
  obtain ⟨hhidden, hshown⟩ := h.active
  constructor
  · intro hhides
    rw [hafter, activeAfterFirst_congr (hhidden hhides)]
  · intro hhides
    have hactive := hshown hhides
    have hwas : s.active level = false := h.idle level (Nat.le_refl _)
    have hfirst : s₁.core.cpu.levels.firstActive? = some level := by
      refine InterruptLevels.firstActive?_eq_some.mpr ⟨?_, fun k hk => ?_⟩
      · exact (congrFun hactive level).trans (by rw [decide_eq_true rfl, Bool.true_or])
      · have hbefore : s.active k = false := h.idle k (Nat.le_of_lt hk)
        exact (congrFun hactive k).trans (by rw [hbefore, decide_eq_false (Nat.ne_of_lt hk), Bool.or_false])
    rw [hafter]
    funext k
    rw [activeAfterFirst_eq, hfirst, hactive]
    by_cases hk : k = level
    · simp [hk, hwas]
    · simp [hk, Ne.symm hk]

/-- Interrupts and returns that are properly nested, of which none hides a level while another is active. Between
them the program may do anything that leaves the active levels as they are. -/
inductive Nested : Hardware δ ω → Hardware δ ω → Prop
  | nothing (s : Hardware δ ω) : Nested s s
  | other {s s₁ s' : Hardware δ ω} (hsame : s₁.active = s.active) (hrest : Nested s₁ s') : Nested s s'
  | interrupt {s s₁ s₂ s₃ s' : Hardware δ ω} {now level : Nat} {block place : Word} (htakes : Interrupts level block s s₁)
      (hshown : s.Hides level s₁ → ∀ k, s.active k = false) (hroutine : Nested s₁ s₂)
      (hreturn : Returns now place s₂ s₃) (hrest : Nested s₃ s') : Nested s s'

theorem Nested.active (h : Nested s s') : s'.active = s.active := by
  induction h with
  | nothing s => rfl
  | other hsame _ ih => exact ih.trans hsame
  | @interrupt s s₁ s₂ s₃ s' now level block place htakes hshown _ hreturn _ ihroutine ihrest =>
    obtain ⟨hhidden, hbalanced⟩ := htakes.active_of_return ihroutine hreturn
    by_cases hhides : s.Hides level s₁
    · have hnone := activeAfterFirst_eq_active_iff.mpr (hshown hhides)
      exact ihrest.trans ((hhidden hhides).trans hnone)
    · exact ihrest.trans (hbalanced hhides)

/-- An interrupt and the return from it leave the active levels as they were, unless the level that interrupted is
hidden while others are active; then the first of those is not active any more. So do interrupts and returns that are
nested, if none is of that kind. -/
theorem active_of_returns :
    (∀ (now : Nat) (s s₁ : Hardware δ ω), scanForInterrupt now s = .ok true s₁ →
      ∃ level block, Interrupts level block s s₁ ∧ ∀ later place s₂, Returns later place s₁ s₂ →
        (s₂.active = s.active ↔ ¬(s.Hides level s₁ ∧ ∃ k, s.active k = true)) ∧
          (s.Hides level s₁ → ∀ k, s₂.active k = (s.active k && decide (s.core.cpu.levels.firstActive? ≠ some k)))) ∧
    ∀ s s' : Hardware δ ω, Nested s s' → s'.active = s.active := by
  refine ⟨fun now s s₁ hscan => ?_, fun s s' => Nested.active⟩
  obtain ⟨level, block, htakes⟩ := scanForInterrupt_takes hscan
  refine ⟨level, block, htakes, fun later place s₂ hreturn => ?_⟩
  obtain ⟨hhidden, hbalanced⟩ := htakes.active_of_return rfl hreturn
  constructor
  · constructor
    · rintro hsame ⟨hhides, k, hk⟩
      rw [hhidden hhides, activeAfterFirst_eq_active_iff] at hsame
      rw [hsame k] at hk
      cases hk
    · intro hnot
      by_cases hhides : s.Hides level s₁
      · rw [hhidden hhides, activeAfterFirst_eq_active_iff]
        exact fun k => Bool.eq_false_iff.mpr fun hk => hnot ⟨hhides, k, hk⟩
      · exact hbalanced hhides
  · intro hhides k
    rw [hhidden hhides, activeAfterFirst_eq]

end

/-! ### A routine that is interrupted -/

/-- The routine of level 5 is running when level 2, of class F, is requested. The interrupt table is at 4, the context
block of level 2 at `0x10`, and its routine is a return. -/
def twoLevels (word2 : Word) : Hardware StandardDevice Char where
  core :=
    { cpu := { Cpu.initial .c3227 0 with
        psd := ⟨0x80000100#32, 0⟩
        levels := ((InterruptLevels.idle.activate 5).enable 2).request 2
        scratchpad := (Scratchpad.empty.set 0x82 0x0F000000#32).set Scratchpad.interruptTableSlot 4#32 }
      memory := ⟨#[0, 0, 0, 0x10#32, 0, 0, 0x80000020#32, word2, 0xF9000010#32], by simp⟩ }
  channels := .empty

/-- The state after a step, also if it fails. -/
def afterStep {ε α : Type} (x : EStateM ε (Hardware StandardDevice Char) α) (s : Hardware StandardDevice Char) :
    Hardware StandardDevice Char :=
  match x s with
  | .ok _ s' => s'
  | .error _ s' => s'

/-- The machine after level 2 has interrupted. -/
def enteredLevel (word2 : Word) : Hardware StandardDevice Char := afterStep (scanForInterrupt 0) (twoLevels word2)

/-- The machine after the return from level 2. -/
def leftLevel (word2 : Word) : Hardware StandardDevice Char := afterStep (executeInstruction 0) (enteredLevel word2)

set_option maxRecDepth 1000 in
theorem scan_twoLevels {word2 : Word} (h : word2 = 0 ∨ word2 = 0x4000#32) :
    scanForInterrupt 0 (twoLevels word2) = .ok true (enteredLevel word2) := by
  rcases h with rfl | rfl
  · rfl
  · rfl

set_option maxRecDepth 1000 in
theorem returns_twoLevels {word2 : Word} (h : word2 = 0 ∨ word2 = 0x4000#32) :
    Returns 0 0x10 (enteredLevel word2) (leftLevel word2) := by
  rcases h with rfl | rfl
  · exact .mk rfl rfl rfl rfl rfl rfl rfl
  · exact .mk rfl rfl rfl rfl rfl rfl rfl

/-- A routine that leaves interrupts open returns to the routine of level 5. -/
theorem active_of_returns_open : ∃ s₁ s₂, scanForInterrupt 0 (twoLevels 0) = .ok true s₁ ∧ Returns 0 0x10 s₁ s₂ ∧
    (twoLevels 0).active 5 = true ∧ s₂.active = (twoLevels 0).active := by
  have hscan : scanForInterrupt 0 (twoLevels 0) = .ok true (enteredLevel 0) := scan_twoLevels (.inl rfl)
  obtain ⟨level, block, -, hreturns⟩ := active_of_returns.1 0 (twoLevels 0) _ hscan
  have hreturn : Returns 0 0x10 (enteredLevel 0) (leftLevel 0) := returns_twoLevels (.inl rfl)
  refine ⟨_, _, hscan, hreturn, by decide +kernel, (hreturns 0 0x10 _ hreturn).1.mpr ?_⟩
  rintro ⟨⟨-, hblocks⟩, -⟩
  revert hblocks
  decide +kernel

/-- A routine that has interrupts blocked returns to the routine of level 5, which is not active any more. -/
theorem active_lost : ∃ s₁ s₂, scanForInterrupt 0 (twoLevels 0x4000) = .ok true s₁ ∧
    s₁.core.cpu.psd.privileged = true ∧ s₁.core.cpu.psd.mapped = false ∧ Returns 0 0x10 s₁ s₂ ∧
      (twoLevels 0x4000).active 5 = true ∧ s₂.active 5 = false :=
  ⟨_, _, scan_twoLevels (.inr rfl), by decide +kernel, by decide +kernel, returns_twoLevels (.inr rfl),
    by decide +kernel, by decide +kernel⟩

end Hardware
end Concept32
