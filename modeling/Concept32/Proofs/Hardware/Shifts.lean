import Concept32.Proofs.Hardware.Overflow
import Concept32.Proofs.Hardware.Returning
import Concept32.Proofs.Instructions.Places
import Concept32.Proofs.Shifting

/-!
# Shift instructions

Each shift instruction of either addressing mode puts into its register or pair what its name says, by as many places as
it says. Only the arithmetic ones set the condition codes, and one that overflows may trap instead, having changed
nothing.
-/

namespace Concept32

/-! ### The instructions -/

namespace Instruction
variable {i : Instruction} {based : Bool} {shift : Shift}

/-- What an opcode byte means, whatever follows it. -/
theorem opcode?_of_opcodeByte {b : Byte} (h : i.opcodeByte = b) :
    i.opcode? based = opcode? ⟨b.setWidth 32 <<< 24⟩ based := by
  have hindices : ∀ n : Fin 64,
      opcodeIndex ⟨((BitVec.ofFin n : BitVec 6).setWidth 8 <<< 2).setWidth 32 <<< 24⟩ = n := by decide
  have hindex : opcodeIndex ⟨b.setWidth 32 <<< 24⟩ = i.opcodeIndex := by
    rw [← h, opcodeByte_eq]
    exact hindices i.opcodeIndex
  rw [opcode?, opcode?, hindex]

/-- The shifts that instructions ask for, without base registers and with them. -/
inductive Shifts (i : Instruction) : (based : Bool) → Shift → Prop
  | arithmetic (hopcode : i.opcodeByte = 0x6C#8) : Shifts i false ⟨.arithmetic, false, i.bits.getLsbD 22⟩
  | logical (hopcode : i.opcodeByte = 0x70#8) : Shifts i false ⟨.logical, false, i.bits.getLsbD 22⟩
  | circular (hopcode : i.opcodeByte = 0x74#8) : Shifts i false ⟨.circular, false, i.bits.getLsbD 22⟩
  | arithmeticPair (hopcode : i.opcodeByte = 0x78#8) : Shifts i false ⟨.arithmetic, true, i.bits.getLsbD 22⟩
  | logicalPair (hopcode : i.opcodeByte = 0x7C#8) : Shifts i false ⟨.logical, true, i.bits.getLsbD 22⟩
  | based (hopcode : i.opcodeByte = 0x1C#8) :
    Shifts i true ⟨if i.bits.getLsbD 21 then .logical else .arithmetic, false, i.bits.getLsbD 22⟩
  | basedPair (hopcode : i.opcodeByte = 0x20#8) :
    Shifts i true ⟨if i.bits.getLsbD 21 then .logical else .arithmetic, true, i.bits.getLsbD 22⟩
  | basedCircular (hopcode : i.opcodeByte = 0x24#8) : Shifts i true ⟨.circular, false, i.bits.getLsbD 22⟩

theorem shiftsLeft_eq : i.shiftsLeft = i.bits.getLsbD 22 := by
  have hbit : 0x00400000#32 = BitVec.twoPow 32 22 := by decide
  rw [shiftsLeft, hbit, hasAny_twoPow (by decide)]

theorem ofSelector_eq {double : Bool} : Shift.ofSelector double (i.selector 21) =
    ⟨if i.bits.getLsbD 21 then .logical else .arithmetic, double, i.bits.getLsbD 22⟩ := by
  have hselectors : ∀ n : Fin 4, Shift.ofSelector double n.val =
      ⟨if (BitVec.ofFin n : BitVec 2).getLsbD 0 then .logical else .arithmetic, double,
        (BitVec.ofFin n : BitVec 2).getLsbD 1⟩ := by
    cases double <;> decide
  have hplaces : ∀ k < 2, (i.bits.extractLsb' 21 2).getLsbD k = i.bits.getLsbD (21 + k) := fun k hk => by
    rw [BitVec.getLsbD_extractLsb', decide_eq_true hk, Bool.true_and]
  have hselector := hselectors (i.bits.extractLsb' 21 2).toFin
  rw [BitVec.ofFin_toFin, hplaces 0 (by decide), hplaces 1 (by decide)] at hselector
  exact hselector

theorem shiftCount_lt : i.shiftCount < 32 := (i.bits.extractLsb' 16 5).isLt

end Instruction

/-- Where a shift finds its value and leaves its result. -/
def Shift.place (shift : Shift) (r : RegisterNumber) : Place := if shift.double then .pair r else .register r

/-- No instruction shifts by the width of its value, and the container has room for that. -/
theorem Shift.width_place {shift : Shift} {r : RegisterNumber} :
    32 ≤ (shift.place r).width ∧ (shift.place r).width ≤ 64 := by
  rw [place]
  split
  · exact ⟨Nat.le_add_left 32 32, Nat.le_refl 64⟩
  · exact ⟨Nat.le_refl 32, Nat.le_add_left 32 32⟩

namespace Core
variable {s : Core} {o : Operand} {shift : Shift}

/-- What a shift instruction makes of its register or pair, with its overflow. -/
def shifted (s : Core) (o : Operand) (shift : Shift) : BitVec (shift.place o.register).width × Bool :=
  shift.apply (s.valueAt (shift.place o.register)) o.instruction.shiftCount

/-- The status doubleword after a shift instruction that has not trapped. -/
def shiftedPsd (s : Core) (o : Operand) (shift : Shift) : Psd :=
  if shift.kind = .arithmetic then s.cpu.psd.withCodes (.ofResult (s.shifted o shift).1 (s.shifted o shift).2)
  else s.cpu.psd

/-- How a shift instruction ends. -/
inductive ShiftEnds (s : Core) (o : Operand) (shift : Shift) : EStateM.Result Trap Core Flow → Prop
  | traps (hover : (s.shifted o shift).2 = true) (hon : s.cpu.psd.exceptionsEnabled = true) :
    ShiftEnds s o shift (.error .arithmeticException s)
  | shifts {s' : Core} (hopen : (s.shifted o shift).2 = false ∨ s.cpu.psd.exceptionsEnabled = false)
      (h : Puts (shift.place o.register) (s.shifted o shift).1 (s.shiftedPsd o shift) s s') :
    ShiftEnds s o shift (.ok .next s')

theorem ShiftEnds.of_open {result : EStateM.Result Trap Core Flow} (h : s.ShiftEnds o shift result)
    (hopen : (s.shifted o shift).2 = false ∨ s.cpu.psd.exceptionsEnabled = false) :
    ∃ s', result = .ok .next s' ∧
      Puts (shift.place o.register) (s.shifted o shift).1 (s.shiftedPsd o shift) s s' := by
  cases h with
  | traps hover hon =>
    rcases hopen with hkept | hoff
    · cases hover.symm.trans hkept
    · cases hon.symm.trans hoff
  | shifts _ hputs => exact ⟨_, rfl, hputs⟩

theorem ShiftEnds.of_over {result : EStateM.Result Trap Core Flow} (h : s.ShiftEnds o shift result)
    (hover : (s.shifted o shift).2 = true) (hon : s.cpu.psd.exceptionsEnabled = true) :
    result = .error .arithmeticException s := by
  cases h with
  | traps => rfl
  | shifts hopen =>
    rcases hopen with hkept | hoff
    · cases hover.symm.trans hkept
    · cases hon.symm.trans hoff

end Core

namespace Exec
open Concept32.Core EStateM
variable {s : Core} {o : Operand} {shift : Shift} {opcode : Opcode}

theorem perform_of_shifts {based : Bool} (h : o.instruction.Shifts based shift)
    (hopcode : o.instruction.opcode? based = some opcode) :
    opcode ≠ .io ∧ perform opcode o = Exec.shift o shift := by
  cases h with
  | arithmetic hbyte | logical hbyte | circular hbyte | arithmeticPair hbyte | logicalPair hbyte
  | basedCircular hbyte =>
    cases (Instruction.opcode?_of_opcodeByte hbyte).symm.trans hopcode
    exact ⟨Opcode.noConfusion, by rw [perform, Instruction.shiftsLeft_eq]⟩
  | based hbyte | basedPair hbyte =>
    cases (Instruction.opcode?_of_opcodeByte hbyte).symm.trans hopcode
    exact ⟨Opcode.noConfusion, by rw [perform, Instruction.ofSelector_eq]⟩

/-- Only an arithmetic shift overflows. -/
theorem shifted_of_ne (h : shift.kind ≠ .arithmetic) : (s.shifted o shift).2 = false := by
  have hcount : o.instruction.shiftCount < (shift.place o.register).width :=
    Nat.lt_of_lt_of_le Instruction.shiftCount_lt Shift.width_place.1
  rw [shifted, Shift.apply_eq_direct Shift.width_place.2 hcount]
  obtain ⟨kind, double, left⟩ := shift
  cases kind with
  | arithmetic => exact absurd rfl h
  | logical => cases left <;> rfl
  | circular => cases left <;> rfl

theorem shiftEnds_of_check {commit : Exec Flow} {s' : Core} (hcommit : commit s = .ok .next s')
    (h : Puts (shift.place o.register) (s.shifted o shift).1 (s.shiftedPsd o shift) s s') :
    s.ShiftEnds o shift ((checkOverflow (s.shifted o shift).2 >>= fun _ => commit) s) := by
  have hcheck : checkOverflow (s.shifted o shift).2 s = _ := checkOverflow_eq
  split at hcheck
  · next hboth =>
    rw [bind_of_error hcheck]
    rw [Bool.and_eq_true] at hboth
    exact .traps hboth.1 hboth.2
  · next hboth =>
    rw [bind_of_ok hcheck, hcommit]
    exact .shifts (Bool.and_eq_false_iff.mp (Bool.eq_false_iff.mpr hboth)) h

theorem shift_ends (heven : shift.double = true → o.register.val % 2 = 0) :
    s.ShiftEnds o shift (Exec.shift o shift s) := by
  rw [Exec.shift]
  dsimp only
  obtain ⟨kind, double, left⟩ := shift
  cases double with
  | true =>
    rw [if_pos rfl, bind_of_ok (pair_of_even (heven rfl))]
    by_cases hkind : kind = .arithmetic
    · subst hkind
      rw [if_pos rfl]
      exact congrFun (putPairResult_next (heven rfl)) s ▸ shiftEnds_of_check rfl puts_pair
    · rw [if_neg hkind, setPair_of_even (heven rfl)]
      refine .shifts (.inl (shifted_of_ne hkind)) ?_
      rw [shiftedPsd, if_neg hkind]
      exact puts_pair
  | false =>
    rw [if_neg Bool.false_ne_true, bind_of_ok gpr_eq]
    by_cases hkind : kind = .arithmetic
    · subst hkind
      rw [if_pos rfl]
      exact congrFun putResult_next s ▸ shiftEnds_of_check rfl puts_register
    · rw [if_neg hkind]
      refine .shifts (.inl (shifted_of_ne hkind)) ?_
      rw [shiftedPsd, if_neg hkind]
      exact puts_register

end Exec

/-! ### Shift instructions -/

namespace Hardware
open Concept32.Core EStateM
variable {δ ω : Type} {s : Hardware δ ω} {core : Core} {i : Instruction} {next : Word} {opcode : Opcode}
  {o : Operand} {shift : Shift}

theorem shiftEnds_of_prepare (hprepare : prepare i next s.core = .ok (opcode, o) core)
    (hshift : o.instruction.Shifts s.core.cpu.psd.based shift)
    (heven : shift.double = true → o.register.val % 2 = 0) :
    opcode ≠ .io ∧ core.ShiftEnds o shift (Concept32.Exec.perform opcode o core) := by
  obtain ⟨hio, hperform⟩ := Concept32.Exec.perform_of_shifts hshift (prepared_of_prepare hprepare).opcode?
  rw [hperform]
  exact ⟨hio, Concept32.Exec.shift_ends heven⟩

/-- A shift instruction of either addressing mode puts into its register or its pair what its shift means. An arithmetic
one sets the condition codes to the overflow and the sign of that, and no other changes them. If it overflows with
arithmetic exceptions enabled it traps, and has changed nothing. Circular shifts by a number of places below the width
undo each other, and one to the left is one to the right by the rest of the width. -/
theorem shifts_as_named [Peripheral δ ω] (now : Nat) (hprepare : prepare i next s.core = .ok (opcode, o) core)
    (hshift : o.instruction.Shifts s.core.cpu.psd.based shift)
    (heven : shift.double = true → o.register.val % 2 = 0) :
    o.instruction.shiftCount < 32 ∧
    shift.Means (s.core.valueAt (shift.place o.register)) o.instruction.shiftCount (s.core.shifted o shift) ∧
    ((s.core.shifted o shift).2 = false ∨ s.core.cpu.psd.exceptionsEnabled = false →
      ∃ s', dispatch now i next s = .ok .next s' ∧ s'.channels = s.channels ∧
        Puts (shift.place o.register) (s.core.shifted o shift).1 (s.core.shiftedPsd o shift) s.core s'.core ∧
        (shift.kind = .arithmetic → s'.core.cpu.psd.codes.cc1 = (s.core.shifted o shift).2)) ∧
    ((s.core.shifted o shift).2 = true → s.core.cpu.psd.exceptionsEnabled = true →
      ∃ s', dispatch now i next s = .error .arithmeticException s' ∧ s'.channels = s.channels ∧ Same s.core s'.core) ∧
    ∀ (n : Nat) (v : BitVec n) (double : Bool) (count : Nat), n ≤ 64 → count < n →
      let left := fun (v : BitVec n) count => (Shift.apply ⟨.circular, double, true⟩ v count).1
      let right := fun (v : BitVec n) count => (Shift.apply ⟨.circular, double, false⟩ v count).1
      right (left v count) count = v ∧ left (right v count) count = v ∧
        (0 < count → left v count = right v (n - count)) := by
  have hcount : o.instruction.shiftCount < (shift.place o.register).width :=
    Nat.lt_of_lt_of_le Instruction.shiftCount_lt Shift.width_place.1
  obtain ⟨hio, hends⟩ := shiftEnds_of_prepare hprepare hshift heven
  have hsame : Same s.core core := reads_prepare.ok hprepare
  refine ⟨Instruction.shiftCount_lt, shift.means_apply Shift.width_place.2 hcount, fun hopen => ?_, fun hover hon => ?_,
    fun n v double count hn hcount => Shift.circular_undo hn hcount⟩
  · obtain ⟨_, _, rfl⟩ := hsame
    obtain ⟨core', hperform, hputs⟩ := hends.of_open hopen
    refine ⟨⟨core', s.channels⟩, dispatch_of_perform hprepare hio hperform, rfl, hputs.of_same ⟨_, _, rfl⟩,
      fun hkind => ?_⟩
    rw [hputs.psd, shiftedPsd, if_pos hkind, Psd.codes_withCodes]
    exact (ConditionCodes.codes_ofSigned _ _).1
  · obtain ⟨_, _, rfl⟩ := hsame
    have hperform := hends.of_over hover hon
    exact ⟨⟨_, s.channels⟩, dispatch_of_perform_error hprepare hio hperform, rfl, ⟨_, _, rfl⟩⟩

/-- A machine with a number in register 1 and SLA of that register at address zero, with arithmetic exceptions enabled or
not. -/
def holding (w : Word) (on : Bool) : Hardware StandardDevice Char where
  core :=
    { cpu := { Cpu.initial .c3227 0 with
        gpr := #v[0, w, 0, 0, 0, 0, 0, 0]
        psd := Psd.initial.withExceptions on }
      memory := ⟨#[0x6CC10000#32], by decide⟩ }
  channels := .empty

/-- SLA of register 1 by one place. -/
def doubling : Instruction := ⟨0x6CC10000#32⟩

/-- Twice the number does not fit, and the sign stays; or it traps. -/
theorem shifts_as_named_doubling :
    (∀ on, prepare doubling 2 (holding 0x40000000 on).core =
      .ok (.sra, .withoutAddress doubling 2) (holding 0x40000000 on).core ∧
        doubling.Shifts (holding 0x40000000 on).core.cpu.psd.based ⟨.arithmetic, false, true⟩) ∧
    (∃ s', dispatch 0 doubling 2 (holding 0x40000000 false) = .ok .next s' ∧
      s'.core.cpu.gpr.get ⟨1, by decide⟩ = 0 ∧ s'.core.cpu.psd.codes.cc1 = true) ∧
    ∃ s', dispatch 0 doubling 2 (holding 0x40000000 true) = .error .arithmeticException s' ∧
      s'.core.cpu.gpr = (holding 0x40000000 true).core.cpu.gpr := by
  have hprepare : ∀ on, prepare doubling 2 (holding 0x40000000 on).core =
      .ok (.sra, .withoutAddress doubling 2) (holding 0x40000000 on).core := fun on => by
    cases on <;> rfl
  have hshifts : ∀ on, doubling.Shifts (holding 0x40000000 on).core.cpu.psd.based ⟨.arithmetic, false, true⟩ :=
    fun on => by
      have hbased : (holding 0x40000000 on).core.cpu.psd.based = false := by cases on <;> rfl
      rw [hbased]
      exact .arithmetic (by decide)
  refine ⟨fun on => ⟨hprepare on, hshifts on⟩, ?_, ?_⟩
  · obtain ⟨-, -, hopen, -⟩ := shifts_as_named 0 (hprepare false) (hshifts false) Bool.noConfusion
    obtain ⟨s', hdispatch, -, hputs, hcodes⟩ := hopen (.inr rfl)
    exact ⟨s', hdispatch, hputs.value.trans rfl, (hcodes rfl).trans rfl⟩
  · obtain ⟨-, -, -, htraps, -⟩ := shifts_as_named 0 (hprepare true) (hshifts true) Bool.noConfusion
    obtain ⟨s', hdispatch, -, hsame⟩ := htraps (by decide) rfl
    refine ⟨s', hdispatch, ?_⟩
    obtain ⟨_, _, heq⟩ := hsame
    rw [heq]

end Hardware
end Concept32
