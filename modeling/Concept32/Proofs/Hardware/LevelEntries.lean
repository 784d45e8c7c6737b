import Concept32.Proofs.Hardware.Arbitration
import Concept32.Proofs.Hardware.Events
import Concept32.Proofs.Levels

/-!
# Interrupt levels and their entries

Whether an interrupt level is enabled and active is kept twice, in the level itself and in its entry of the scratchpad.
Whatever changes a level changes both, and software can part them only by a transfer to the entry.
-/

namespace Concept32

/-! ### The entry of a level -/

namespace ConfigurationEntry
variable {e : ConfigurationEntry} {l l' : LevelState} {bit : Word} {on : Bool}

/-- The bits of an entry that describe its device, beside the two for the state of its level. -/
def descriptionField : Word := 0x3FFFFFFF#32

/-- The description alone makes the entry configured, whatever the state of its level. -/
structure Described (e : ConfigurationEntry) : Prop where
  ne_zero : e.bits &&& descriptionField ≠ 0
  ne_ones : e.bits &&& descriptionField ≠ descriptionField

theorem Described.isConfigured (h : e.Described) : e.isConfigured = true := by
  rw [ConfigurationEntry.isConfigured, Bool.and_eq_true, bne_iff_ne, bne_iff_ne]
  constructor
  · intro hzero
    exact h.ne_zero (by rw [hzero]; rfl)
  · intro hones
    exact h.ne_ones (by rw [hones]; rfl)

theorem Described.withBits (h : e.Described) (hbit : bit &&& descriptionField = 0) :
    Described ⟨withBits e.bits bit on⟩ := by
  have hkept : Concept32.withBits e.bits bit on &&& descriptionField = e.bits &&& descriptionField := by
    rw [withBits_eq_replaceBits, replaceBits_and hbit]
  exact ⟨hkept ▸ h.ne_zero, hkept ▸ h.ne_ones⟩

/-- The entry shows the state of its level. -/
structure Mirrors (e : ConfigurationEntry) (l : LevelState) : Prop where
  described : e.Described
  enabled : hasAny e.bits Scratchpad.enabledBit = l.enabled
  active : hasAny e.bits Scratchpad.activeBit = l.active

theorem Mirrors.withEnabled (h : e.Mirrors l) (henabled : l'.enabled = on) (hactive : l'.active = l.active) :
    Mirrors ⟨withBits e.bits Scratchpad.enabledBit on⟩ l' where
  described := h.described.withBits (by decide)
  enabled := (hasAny_withBits_self (by decide)).trans henabled.symm
  active := (hasAny_withBits (by decide)).trans (h.active.trans hactive.symm)

theorem Mirrors.withActive (h : e.Mirrors l) (hactive : l'.active = on) (henabled : l'.enabled = l.enabled) :
    Mirrors ⟨withBits e.bits Scratchpad.activeBit on⟩ l' where
  described := h.described.withBits (by decide)
  enabled := (hasAny_withBits (by decide)).trans (h.enabled.trans henabled.symm)
  active := (hasAny_withBits_self (by decide)).trans hactive.symm

end ConfigurationEntry

namespace Scratchpad
variable {s s' : Scratchpad} {level k slot : Nat} {bits : Word} {on : Bool}

/-- The slot holds the entry of a level. -/
def IsLevelSlot (slot : Nat) : Prop := levelBase ≤ slot % 256 ∧ slot % 256 < levelBase + levelCount

theorem levelEntry_congr (h : ∀ slot, IsLevelSlot slot → s'.get slot = s.get slot) :
    s'.levelEntry level = s.levelEntry level := by
  have hcount : levelCount = 112 := rfl
  have hbase : levelBase = 128 := rfl
  rw [levelEntry, levelEntry]
  by_cases hlevel : level < levelCount
  · rw [if_pos hlevel, if_pos hlevel, h _ ⟨by omega, by omega⟩]
  · rw [if_neg hlevel, if_neg hlevel]

theorem lt_of_isConfigured (h : (s.levelEntry level).isConfigured = true) : level < levelCount := by
  refine Nat.lt_of_not_le fun hle => ?_
  rw [levelEntry, if_neg (Nat.not_lt.mpr hle)] at h
  cases h

/-- A change of an entry that is configured. -/
theorem levelEntry_updateLevelEntry_self (h : (s.levelEntry level).isConfigured = true) :
    (s.updateLevelEntry level bits on).levelEntry level = ⟨withBits (s.levelEntry level).bits bits on⟩ := by
  have hlevel : level < levelCount := lt_of_isConfigured h
  have hchecked : (level < levelCount && (s.levelEntry level).isConfigured) = true := by
    rw [h, decide_eq_true hlevel]
    rfl
  rw [updateLevelEntry, if_pos hchecked, levelEntry, if_pos hlevel]
  exact congrArg ConfigurationEntry.mk (Vector.getElem_set_self _)

theorem updateLevelEntry_of_not_configured (h : (s.levelEntry level).isConfigured = false) :
    s.updateLevelEntry level bits on = s := by
  have hchecked : (level < levelCount && (s.levelEntry level).isConfigured) = false := by rw [h, Bool.and_false]
  rw [updateLevelEntry, hchecked]
  rfl

theorem levelEntry_updateLevelEntry_of_ne (h : k ≠ level) :
    (s.updateLevelEntry level bits on).levelEntry k = s.levelEntry k := by
  have hcount : levelCount = 112 := rfl
  have hbase : levelBase = 128 := rfl
  rw [levelEntry, levelEntry]
  by_cases hk : k < levelCount
  · rw [if_pos hk, if_pos hk, get_updateLevelEntry (fun _ => by omega) (by omega)]
  · rw [if_neg hk, if_neg hk]

end Scratchpad

/-! ### The levels of the processor -/

namespace Cpu
open ConfigurationEntry Scratchpad
variable {c c' : Cpu} {level : Nat} {bits : Word} {on : Bool} {f : LevelState → LevelState} {slots : Nat → Prop}
  {loads : Prop}

/-- Every entry that is configured shows the state of its level. -/
def LevelsAgree (c : Cpu) : Prop :=
  ∀ level, (c.scratchpad.levelEntry level).isConfigured = true →
    (c.scratchpad.levelEntry level).Mirrors (c.levels.get level)

/-- No level is enabled or active, and none is said to be in its entry. -/
structure LevelsClear (c : Cpu) : Prop where
  disabled : ∀ level, c.levels.isEnabled level = false
  inactive : ∀ level, c.levels.isActive level = false
  described : ∀ level, (c.scratchpad.levelEntry level).isConfigured = true → (c.scratchpad.levelEntry level).Described
  entries : ∀ level, (c.scratchpad.levelEntry level).isConfigured = true →
    hasAny (c.scratchpad.levelEntry level).bits enabledBit = false ∧
      hasAny (c.scratchpad.levelEntry level).bits activeBit = false

theorem LevelsClear.agree (h : c.LevelsClear) : c.LevelsAgree := fun level hconfigured => by
  obtain ⟨henabled, hactive⟩ := h.entries level hconfigured
  exact ⟨h.described level hconfigured, henabled.trans (h.disabled level).symm, hactive.trans (h.inactive level).symm⟩

theorem LevelsAgree.congr (h : c.LevelsAgree) (hlevels : c'.levels = c.levels)
    (hslots : ∀ slot, IsLevelSlot slot → c'.scratchpad.get slot = c.scratchpad.get slot) : c'.LevelsAgree := by
  intro level hconfigured
  rw [levelEntry_congr hslots] at hconfigured ⊢
  rw [hlevels]
  exact h level hconfigured

/-- A level is changed as its entry is. -/
theorem LevelsAgree.modify (h : c.LevelsAgree)
    (hf : ∀ {e l}, Mirrors e l → Mirrors ⟨withBits e.bits bits on⟩ (f l)) :
    LevelsAgree { c with
      levels := c.levels.modify level f
      scratchpad := c.scratchpad.updateLevelEntry level bits on } := by
  intro k hconfigured
  dsimp only at hconfigured ⊢
  rw [InterruptLevels.get_modify]
  by_cases hk : k = level
  · subst hk
    cases hbefore : (c.scratchpad.levelEntry k).isConfigured with
    | false =>
      rw [updateLevelEntry_of_not_configured hbefore, hbefore] at hconfigured
      cases hconfigured
    | true =>
      rw [levelEntry_updateLevelEntry_self hbefore, if_pos ⟨rfl, lt_of_isConfigured hbefore⟩]
      exact hf (h k hbefore)
  · rw [levelEntry_updateLevelEntry_of_ne hk] at hconfigured ⊢
    rw [if_neg fun hboth => hk hboth.1]
    exact h k hconfigured

/-- A change of the request alone shows in no entry. -/
theorem LevelsAgree.modify_request (h : c.LevelsAgree) (hf : ∀ l, (f l).enabled = l.enabled ∧ (f l).active = l.active) :
    LevelsAgree { c with levels := c.levels.modify level f } := by
  intro k hconfigured
  have hbefore := h k hconfigured
  dsimp only
  rw [InterruptLevels.get_modify]
  split
  · next hk =>
    obtain ⟨rfl, -⟩ := hk
    obtain ⟨henabled, hactive⟩ := hf (c.levels.get k)
    exact ⟨hbefore.described, hbefore.enabled.trans henabled.symm, hbefore.active.trans hactive.symm⟩
  · exact hbefore

theorem LevelsAgree.switch (h : c.LevelsAgree) (hswitch : Switches c c') : c'.LevelsAgree := by
  cases hswitch with
  | enable level => exact h.modify fun hmirrors => hmirrors.withEnabled rfl rfl
  | disable level => exact h.modify fun hmirrors => hmirrors.withEnabled rfl rfl
  | activate level => exact h.modify fun hmirrors => hmirrors.withActive rfl rfl
  | deactivate level => exact h.modify fun hmirrors => hmirrors.withActive rfl rfl
  | request level => exact h.modify_request fun _ => ⟨rfl, rfl⟩
  | clear level => exact h.modify_request fun _ => ⟨rfl, rfl⟩

theorem ne_statusSlot {slot : Nat} (h : IsLevelSlot slot) : slot % 256 ≠ statusSlot := by
  have hlast : slot % 256 < 240 := h.2
  have hstatus : statusSlot = 244 := rfl
  omega

/-- No change parts a level from its entry, if software transfers nothing to the entry. -/
theorem LevelsAgree.change (h : c.LevelsAgree) (hslots : ∀ slot, slots slot → ¬IsLevelSlot slot)
    (hchange : Change slots loads c c') : c'.LevelsAgree := by
  cases hchange with
  | compute hcomputes => exact h.congr hcomputes.levels fun slot hslot => hcomputes.slots slot (ne_statusSlot hslot)
  | extend _ => exact h.congr rfl fun _ _ => rfl
  | go _ => exact h.congr rfl fun _ _ => rfl
  | start _ => exact h.congr rfl fun _ _ => rfl
  | switch hswitch => exact h.switch hswitch
  | transfer _ hplace =>
    refine h.congr rfl fun slot hslot => get_set_of_ne fun heq => hslots _ hplace ?_
    rw [IsLevelSlot, ← heq]
    exact hslot
  | enforce p _ => exact h.congr Exec.levels_enforced fun slot hslot => Exec.slot_enforced (ne_statusSlot hslot)
  | reset =>
    have hempty : ∀ slot, Scratchpad.empty.get slot = 0 := fun _ => Vector.getElem_replicate _
    intro level hconfigured
    have hzero : (Scratchpad.empty.levelEntry level).isConfigured = false := by
      rw [levelEntry, hempty, ite_self]
      rfl
    rw [reset, hzero] at hconfigured
    cases hconfigured

end Cpu

/-! ### Runs -/

namespace Hardware
open Scratchpad
variable {δ ω : Type} [Peripheral δ ω] {events : List (Event δ ω)} {s : Hardware δ ω}

/-- Software transfers no register to the entry of a level. -/
def KeepsEntries (e : Event δ ω) (s : Hardware δ ω) : Prop := ∀ slot, e.transfersTo s slot → ¬IsLevelSlot slot

theorem levelsAgree_apply {e : Event δ ω} (hkeeps : KeepsEntries e s) (h : s.core.cpu.LevelsAgree) :
    (e.apply s).core.cpu.LevelsAgree :=
  Core.Evolves.keeps (e.evolves s) (fun hchange hagree => hagree.change hkeeps hchange) h

/-- However instructions, traps, interrupts and returns follow on one another, the entry of a configured level says
whether the level is enabled and whether it is active. -/
theorem levels_agree (hclear : s.core.cpu.LevelsClear) (hkeeps : Along KeepsEntries events s) (level : Nat)
    (hconfigured : ((run events s).core.cpu.scratchpad.levelEntry level).isConfigured = true) :
    hasAny ((run events s).core.cpu.scratchpad.levelEntry level).bits enabledBit =
        (run events s).core.cpu.levels.isEnabled level ∧
      hasAny ((run events s).core.cpu.scratchpad.levelEntry level).bits activeBit =
        (run events s).core.cpu.levels.isActive level := by
  have hagree : (run events s).core.cpu.LevelsAgree :=
    run_keeps (P := fun s => s.core.cpu.LevelsAgree) levelsAgree_apply hkeeps hclear.agree
  have hmirrors := hagree level hconfigured
  exact ⟨hmirrors.enabled, hmirrors.active⟩

omit [Peripheral δ ω] in
/-- An instruction that is not for the transfer of registers keeps every entry. -/
theorem keepsEntries_of_opcode {now : Nat} {i : Instruction} {next : Word} {core : Core}
    (hfetch : fetch s.begun = .ok (i, next) core) (hdirect : i.isExecute = false)
    (hopcode : i.opcode? core.cpu.psd.based ≠ some .trr) : KeepsEntries (.instruct now) s := by
  rintro slot ⟨_, _, _, hfetch', target, htarget, htransfers, -⟩
  rw [hfetch] at hfetch'
  cases hfetch'
  rw [carriedOut?, if_neg (ne_true_of_eq_false hdirect)] at htarget
  cases htarget
  exact absurd htransfers hopcode

/-! ### A level that is enabled, requested and served -/

/-- Level 2 is that of an external interrupt. The program enables it; its routine, whose context block is at `0x10`, is
a return. -/
def external : Hardware StandardDevice Char where
  core :=
    { cpu := { Cpu.initial .c3227 0 with
        scratchpad := (Scratchpad.empty.set 0x82 0x00800000#32).set Scratchpad.interruptTableSlot 4#32 }
      memory := ⟨#[0xFC100000#32, 0, 0, 0x10#32, 0, 0, 0x80000020#32, 0, 0xF9000010#32], by simp⟩ }
  channels := .empty

/-- The program, a request, the interrupt and the return. -/
def served : List (Event StandardDevice Char) := [.instruct 0, .request 2, .scan 0, .instruct 0]

theorem levelsClear_external : external.core.cpu.LevelsClear := by
  have honly : ∀ level, (external.core.cpu.scratchpad.levelEntry level).isConfigured = true → level = 2 := by
    intro level hconfigured
    have hentries : ∀ level < levelCount,
        (external.core.cpu.scratchpad.levelEntry level).isConfigured = true → level = 2 := by decide +kernel
    exact hentries level (lt_of_isConfigured hconfigured) hconfigured
  exact {
    disabled := fun level => congrArg LevelState.enabled (InterruptLevels.get_idle level)
    inactive := fun level => congrArg LevelState.active (InterruptLevels.get_idle level)
    described := fun level hconfigured => by
      cases honly level hconfigured
      exact ⟨by decide +kernel, by decide +kernel⟩
    entries := fun level hconfigured => by
      cases honly level hconfigured
      decide +kernel }

set_option maxRecDepth 1000 in
theorem keepsEntries_served : Along KeepsEntries served external :=
  ⟨keepsEntries_of_opcode (i := ⟨0xFC100000#32⟩) rfl rfl (by decide),
    fun _ => False.elim, fun _ => False.elim,
    keepsEntries_of_opcode (i := ⟨0xF9000010#32⟩) rfl rfl (by decide), trivial⟩

/-- While its routine is running the level is active, and after the return it is not. -/
theorem levels_agree_served :
    (hasAny ((run (served.take 3) external).core.cpu.scratchpad.levelEntry 2).bits activeBit = true ∧
        (run (served.take 3) external).core.cpu.levels.isActive 2 = true) ∧
      hasAny ((run served external).core.cpu.scratchpad.levelEntry 2).bits activeBit =
        (run served external).core.cpu.levels.isActive 2 ∧
      (run served external).core.cpu.levels.isActive 2 = false ∧
        (run served external).core.cpu.levels.isEnabled 2 = true :=
  ⟨⟨by decide +kernel, by decide +kernel⟩,
    (levels_agree levelsClear_external keepsEntries_served 2 (by decide +kernel)).2, by decide +kernel, by decide +kernel⟩

end Hardware
end Concept32
