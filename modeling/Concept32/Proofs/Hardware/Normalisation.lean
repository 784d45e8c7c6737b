import Concept32.Proofs.Hardware.Overflow
import Concept32.Proofs.Hardware.Returning
import Concept32.Proofs.Instructions.Places
import Concept32.Proofs.Normalising

/-!
# Normalisation instructions

An instruction that normalises a register or a pair leaves the number of turns in another register, so that nothing of the
number is lost.
-/

namespace Concept32

/-- The instructions that normalise, with what they normalise and how many turns they take at most. -/
inductive Operand.Normalises (o : Operand) : Opcode → Place → (most : Nat) → Prop
  | register : o.Normalises .nor (.register o.register) 7
  | pair (heven : o.register.val % 2 = 0) : o.Normalises .nord (.pair o.register) 15

namespace Core
variable {s s' t : Core} {place : Place} {source : RegisterNumber} {most : Nat}

/-- What a place holds has been normalised, and a register tells in how many turns. -/
structure Normalises (place : Place) (source : RegisterNumber) (most : Nat) (s s' : Core) : Prop where
  digits : s.valueAt place ≠ 0 → s.valueAt place ≠ BitVec.allOnes place.width →
    Normalised (s.valueAt place) (s'.valueAt place) (s'.cpu.gpr.get source).toNat ∧
      (s'.cpu.gpr.get source).toNat ≤ most
  alike : s.valueAt place = 0 ∨ s.valueAt place = BitVec.allOnes place.width →
    s'.valueAt place = s.valueAt place ∧ s'.cpu.gpr.get source = 0
  overflow : s'.cpu.psd.codes.cc1 = false
  positive : s'.cpu.psd.codes.cc2 = true ↔ 0 < (s'.valueAt place).toInt
  negative : s'.cpu.psd.codes.cc3 = true ↔ (s'.valueAt place).toInt < 0
  zero : s'.cpu.psd.codes.cc4 = true ↔ (s'.valueAt place).toInt = 0
  registers : ∀ r, ¬place.HasRegister r → r ≠ source → s'.cpu.gpr.get r = s.cpu.gpr.get r
  memory : s'.memory = s.memory
  processor : ∃ gpr address count, s'.cpu =
    { s.cpu with
      gpr := gpr, psd := s.cpu.psd.withCodes s'.cpu.psd.codes, faultAddress := address, indirections := count }

theorem Normalises.of_same (hsame : Same s t) (h : Normalises place source most t s') :
    Normalises place source most s s' := by
  obtain ⟨_, _, rfl⟩ := hsame
  exact ⟨h.digits, h.alike, h.overflow, h.positive, h.negative, h.zero, h.registers, h.memory, h.processor⟩

/-- A register that a place does not have can be set without a change to what the place holds. -/
theorem valueAt_setRegister {w : Word} (h : ¬place.HasRegister source) :
    valueAt ⟨{ s.cpu with gpr := s.cpu.gpr.set source.val w source.isLt }, s.memory⟩ place = s.valueAt place := by
  cases place with
  | register r => exact get_set_of_ne fun hr => h hr.symm
  | pair r =>
    show joinWords (Vector.get _ r) (Vector.get _ (Exec.nextRegister r)) = s.cpu.pairAt r
    rw [get_set_of_ne fun hr => h (.inl hr.symm), get_set_of_ne fun hr => h (.inr hr.symm)]
    rfl
  | field n bytes => rfl

/-- A normalised value that is in its place, and the number of turns outside it. -/
theorem normalises_of_puts
    (hdigits : s.valueAt place ≠ 0 → s.valueAt place ≠ BitVec.allOnes place.width →
      Normalised (s.valueAt place) (normalised (s.valueAt place)).1 (normalised (s.valueAt place)).2 ∧
        (normalised (s.valueAt place)).2 ≤ most)
    (hmost : most ≤ 15) (hsource : ¬place.HasRegister source)
    (hputs : Puts place (normalised (s.valueAt place)).1
      (s.cpu.psd.withCodes (.ofResult (normalised (s.valueAt place)).1 false)) s t)
    (hmemory : t.memory = s.memory) :
    Normalises place source most s
      ⟨{ t.cpu with gpr := t.cpu.gpr.set source.val (.ofNat 32 (normalised (s.valueAt place)).2) source.isLt },
        t.memory⟩ := by
  generalize hw : BitVec.ofNat 32 (normalised (s.valueAt place)).2 = w
  have hvalue := (valueAt_setRegister (w := w) hsource).trans hputs.value
  have hcodes : t.cpu.psd.codes = .ofResult (normalised (s.valueAt place)).1 false := by
    rw [hputs.psd, Psd.codes_withCodes]
  obtain ⟨hover, hpositive, hnegative, hzero⟩ :=
    ConditionCodes.codes_ofSigned (normalised (s.valueAt place)).1.toInt false
  rw [← ConditionCodes.ofResult, ← hcodes] at hover hpositive hnegative hzero
  constructor
  case digits =>
    intro hzero hones
    obtain ⟨hnormalised, hle⟩ := hdigits hzero hones
    have hcount : w.toNat = (normalised (s.valueAt place)).2 := by
      rw [← hw, BitVec.toNat_ofNat]
      exact Nat.mod_eq_of_lt (by omega)
    rw [hvalue, get_set_self, hcount]
    exact ⟨hnormalised, hle⟩
  case alike =>
    intro halike
    rw [normalised_of_alike halike] at hvalue hw
    exact ⟨hvalue, get_set_self.trans hw.symm⟩
  case overflow => exact hover
  case positive => rw [hvalue, hpositive, decide_eq_true_iff]
  case negative => rw [hvalue, hnegative, decide_eq_true_iff]
  case zero => rw [hvalue, hzero, decide_eq_true_iff]
  case registers => exact fun r hplace hne => (get_set_of_ne hne).trans (hputs.registers r hplace)
  case memory => exact hmemory
  case processor =>
    obtain ⟨_, _, _, hcpu⟩ := hputs.processor
    rw [hcodes, hcpu]
    exact ⟨_, _, _, rfl⟩

end Core

namespace Exec
open Concept32.Core EStateM
variable {s : Core} {o : Operand} {opcode : Opcode} {place : Place} {most : Nat}

theorem normalisePair_of_even (heven : o.register.val % 2 = 0) :
    normalisePair o = (do
      let (value, count) := normalised (← pair o.register)
      setGpr o.register (highWord value)
      setGpr (nextRegister o.register) (lowWord value)
      setGpr o.source (BitVec.ofNat 32 count)
      setCodes (.ofResult value false)
      return .next) := by
  simp only [normalisePair, setPair_of_even heven, bind_assoc]

theorem perform_normalises (h : o.Normalises opcode place most) (hsource : ¬place.HasRegister o.source) :
    opcode ≠ .io ∧ ∃ s', perform opcode o s = .ok .next s' ∧ Normalises place o.source most s s' := by
  cases h with
  | register =>
    refine ⟨Opcode.noConfusion, _, rfl, ?_⟩
    exact normalises_of_puts (fun hzero hones => normalised_normalised (m := 6) hzero hones) (by decide) hsource
      puts_register rfl
  | pair heven =>
    refine ⟨Opcode.noConfusion, _, (congrFun (normalisePair_of_even heven) s).trans (bind_of_ok (pair_of_even heven)), ?_⟩
    exact normalises_of_puts (fun hzero hones => normalised_normalised (m := 14) hzero hones) (by decide) hsource
      puts_pair rfl

end Exec

/-! ### Normalisation instructions -/

namespace Hardware
open Concept32.Core EStateM
variable {δ ω : Type} {s : Hardware δ ω} {core : Core} {i : Instruction} {next : Word} {opcode : Opcode}
  {o : Operand} {place : Place} {most : Nat}

/-- An instruction that normalises a register or a pair and counts its turns in a register outside always comes to its
end. A number with unequal bits comes to be the number times sixteen to the number of turns, with its first five bits not
all equal, after no more turns than that takes and never more than seven, or fifteen for a pair. Zero and minus one stay
as they are. The condition codes give the sign of the result, and nothing else has changed. -/
theorem normalises_exactly [Peripheral δ ω] (now : Nat) (hprepare : prepare i next s.core = .ok (opcode, o) core)
    (hnormalises : o.Normalises opcode place most) (hsource : ¬place.HasRegister o.source) :
    ∃ s', dispatch now i next s = .ok .next s' ∧ s'.channels = s.channels ∧
      Core.Normalises place o.source most s.core s'.core := by
  obtain ⟨hio, core', hperform, hends⟩ := Concept32.Exec.perform_normalises (s := core) hnormalises hsource
  exact ⟨⟨core', s.channels⟩, dispatch_of_perform hprepare hio hperform, rfl, hends.of_same (reads_prepare.ok hprepare)⟩

/-- A machine with a number in register 1 whose bits are nearly all ones, and NOR of that register at address zero. -/
def nearlyAlike : Hardware StandardDevice Char where
  core :=
    { cpu := { Cpu.initial .c3227 0 with gpr := #v[0, 0xFFFFFF80#32, 0, 0, 0, 0, 0, 0] }
      memory := ⟨#[0x60A00000#32], by decide⟩ }
  channels := .empty

/-- The NOR, which counts in register 2. -/
def normaliseFirst : Instruction := ⟨0x60A00000#32⟩

/-- The loop comes to its end with the sign alone in the first digit. -/
theorem normalises_exactly_nearlyAlike :
    prepare normaliseFirst 2 nearlyAlike.core = .ok (.nor, .withoutAddress normaliseFirst 2) nearlyAlike.core ∧
    ¬(Place.register ⟨1, by decide⟩).HasRegister ⟨2, by decide⟩ ∧
    ∃ s', dispatch 0 normaliseFirst 2 nearlyAlike = .ok .next s' ∧
      (s'.core.cpu.gpr.get ⟨1, by decide⟩).toInt = -0x80000000 ∧ (s'.core.cpu.gpr.get ⟨2, by decide⟩).toNat = 6 ∧
      s'.core.cpu.psd.codes.cc3 = true := by
  have hprepare : prepare normaliseFirst 2 nearlyAlike.core =
      .ok (.nor, .withoutAddress normaliseFirst 2) nearlyAlike.core := rfl
  have hsource : ¬(Place.register ⟨1, by decide⟩).HasRegister ⟨2, by decide⟩ := fun h => by cases h
  obtain ⟨s', hdispatch, -, hends⟩ := normalises_exactly 0 hprepare .register hsource
  obtain ⟨hnormalised, -⟩ := hends.digits (by decide) (by decide)
  generalize hcount : (s'.core.cpu.gpr.get (Operand.withoutAddress normaliseFirst 2).source).toNat = count at hnormalised
  have hsix : count = 6 := by
    refine Nat.le_antisymm (Nat.le_of_not_lt fun hmore => ?_) (Nat.le_of_not_lt fun hfewer => ?_)
    · exact (hnormalised.least 6 hmore).2 ⟨0, 1, by decide⟩
    · have hgoesOn : ∀ k : Fin 6, ((afterSteps? normaliseStep? k 0xFFFFFF80#32).bind normaliseStep?).isSome := by decide
      have hover := hgoesOn ⟨count, hfewer⟩
      rw [show afterSteps? normaliseStep? count 0xFFFFFF80#32 = _ from hnormalised.turns] at hover
      exact absurd hnormalised.ended (Option.ne_none_iff_isSome.mpr hover)
  subst hsix
  have hvalue : (s'.core.cpu.gpr.get ⟨1, by decide⟩).toInt = -0x80000000 := hnormalised.value
  refine ⟨hprepare, hsource, s', hdispatch, hvalue, hcount, hends.negative.mpr ?_⟩
  exact Int.lt_of_le_of_lt (Int.le_of_eq hvalue) (by decide)

end Hardware
end Concept32
