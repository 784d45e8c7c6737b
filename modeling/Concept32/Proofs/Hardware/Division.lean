import Concept32.Instructions.Dispatch
import Concept32.Proofs.Addressing
import Concept32.Proofs.Hardware.Operands
import Concept32.Proofs.Instructions.Places
import Concept32.Proofs.Signed

/-!
# Multiplication and division of register pairs

A multiplication leaves its exact product in a register pair. A division cuts the quotient toward zero and leaves it
beside the remainder, or leaves both registers as they were if there is no quotient that fits a word. So a product that
is divided by one of its factors is the other factor again, without a remainder.
-/

namespace Concept32

/-- The two operations on a register pair and a word. -/
inductive Scaling
  | multiply
  | divide

namespace Scaling

/-- What is done to a pair, which begins with a register, by a word. -/
def run : Scaling → RegisterNumber → Word → Exec Flow
  | .multiply => Exec.multiply
  | .divide => Exec.divide

/-- The instructions of an operation, with the word by which each of them multiplies or divides. An operand in memory is
accessible and lies at a physical address. -/
inductive Takes (scaling : Scaling) (s : Core) (o : Operand) : Opcode → Word → Prop
  | register : Takes scaling s o (match scaling with | .multiply => .mpr | .divide => .dvr) (s.cpu.gpr.get o.source)
  | memory {physical : Word} (hfield : o.field ≠ .double)
      (hread : s.Allows .read o.operandAddress o.field.bytes physical) :
    Takes scaling s o (match scaling with | .multiply => .mpm | .divide => .dvm)
      (o.field.widen (s.memory.fieldAt physical.toNat o.field.bytes))
  | immediate (haugment : o.augment = match scaling with | .multiply => 3 | .divide => 4) :
    Takes scaling s o .imm o.immediate
  | base (hbased : s.cpu.psd.based = true) (haugment : o.augment = match scaling with | .multiply => 2 | .divide => 0xA) :
    Takes scaling s o .adr (s.cpu.base.get o.source)

end Scaling

namespace Core
variable {s s' t : Core} {r : RegisterNumber} {v : Word}

/-- The second register of a pair has been multiplied into the pair. -/
structure Multiplied (r : RegisterNumber) (v : Word) (s s' : Core) : Prop where
  exact : (s'.cpu.pairAt r).toInt = (s.cpu.gpr.get (Exec.nextRegister r)).toInt * v.toInt
  rest : KeepsRest (.pair r) s s'
  fits : s'.cpu.psd.codes.cc1 = false

/-- A pair has been divided: the remainder is in the first register and the quotient, cut toward zero, in the second. -/
structure Divided (r : RegisterNumber) (v : Word) (s s' : Core) : Prop where
  quotient : (s'.cpu.gpr.get (Exec.nextRegister r)).toInt = (s.cpu.pairAt r).toInt.tdiv v.toInt
  sum : (s.cpu.pairAt r).toInt =
    (s'.cpu.gpr.get (Exec.nextRegister r)).toInt * v.toInt + (s'.cpu.gpr.get r).toInt
  lt : (s'.cpu.gpr.get r).toInt.natAbs < v.toInt.natAbs
  sign : (s'.cpu.gpr.get r).toInt = 0 ∨ (s'.cpu.gpr.get r).toInt.sign = (s.cpu.pairAt r).toInt.sign
  rest : KeepsRest (.pair r) s s'
  fits : s'.cpu.psd.codes.cc1 = false

/-- Nothing has changed but the condition codes, of which CC1 alone is set, and the notes about the current
instruction. -/
def Undivided (s s' : Core) : Prop :=
  ∃ address count, s' = ⟨{ s.cpu with
    psd := s.cpu.psd.withCodes .overflow, faultAddress := address, indirections := count }, s.memory⟩

theorem Multiplied.of_same (hsame : Same s t) (h : Multiplied r v t s') : Multiplied r v s s' := by
  obtain ⟨_, _, rfl⟩ := hsame
  exact ⟨h.exact, h.rest.of_same ⟨_, _, rfl⟩, h.fits⟩

theorem Divided.of_same (hsame : Same s t) (h : Divided r v t s') : Divided r v s s' := by
  obtain ⟨_, _, rfl⟩ := hsame
  exact ⟨h.quotient, h.sum, h.lt, h.sign, h.rest.of_same ⟨_, _, rfl⟩, h.fits⟩

theorem Undivided.of_same (hsame : Same s t) (h : Undivided t s') : Undivided s s' := by
  obtain ⟨_, _, rfl⟩ := hsame
  exact h

end Core

namespace Exec
open Concept32.Core EStateM
variable {s s' : Core} {r : RegisterNumber} {v : Word} {o : Operand} {opcode : Opcode} {scaling : Scaling}

theorem multiply_of_even (heven : r.val % 2 = 0) : ∃ s', multiply r v s = .ok .next s' ∧ Multiplied r v s s' := by
  have hputs := puts_pair (s := s) (r := r) (d := (s.cpu.gpr.get (nextRegister r)).signExtend 64 * v.signExtend 64)
    (p := s.cpu.psd.withCodes (.ofResult ((s.cpu.gpr.get (nextRegister r)).signExtend 64 * v.signExtend 64) false))
  refine ⟨_, ?_, ?_, hputs.keepsRest, ?_⟩
  · rw [multiply, bind_of_ok (requireEven_of_even heven)]
    simp only [putPairResult, setPair_of_even heven]
    rfl
  · exact (congrArg BitVec.toInt hputs.value).trans toInt_product
  · rw [hputs.psd, Psd.codes_withCodes]
    exact (ConditionCodes.codes_ofSigned _ _).1

/-- The remainder and the quotient in a pair are those of a division. -/
theorem divided_of_puts (hv : v ≠ 0) (hfits : FitsSigned 32 ((s.cpu.pairAt r).toInt.tdiv v.toInt))
    (h : Puts (.pair r)
      (joinWords (.ofInt 32 ((s.cpu.pairAt r).toInt.tmod v.toInt)) (.ofInt 32 ((s.cpu.pairAt r).toInt.tdiv v.toInt)))
      (s.cpu.psd.withCodes (.ofResult (BitVec.ofInt 32 ((s.cpu.pairAt r).toInt.tdiv v.toInt)) false)) s s') :
    Divided r v s s' := by
  obtain ⟨hremainder, hquotient⟩ := h.words
  have hremainder : (s'.cpu.gpr.get r).toInt = (s.cpu.pairAt r).toInt.tmod v.toInt := by
    rw [hremainder]
    exact toInt_ofInt_of_fits (by decide) (fits_tmod hv)
  have hquotient : (s'.cpu.gpr.get (nextRegister r)).toInt = (s.cpu.pairAt r).toInt.tdiv v.toInt := by
    rw [hquotient]
    exact toInt_ofInt_of_fits (by decide) hfits
  have hne : v.toInt ≠ 0 := fun h => hv (BitVec.toInt_inj.mp (h.trans BitVec.toInt_zero.symm))
  refine ⟨hquotient, ?_, ?_, ?_, h.keepsRest, ?_⟩
  · rw [hquotient, hremainder, Int.tdiv_mul_add_tmod]
  · rw [hremainder, Int.natAbs_tmod]
    exact Nat.mod_lt _ (Int.natAbs_pos.mpr hne)
  · rw [hremainder, Int.sign_tmod]
    by_cases hdvd : v.toInt ∣ (s.cpu.pairAt r).toInt
    · exact .inl (Int.tmod_eq_zero_of_dvd hdvd)
    · exact .inr (if_neg hdvd)
  · rw [h.psd, Psd.codes_withCodes]
    exact (ConditionCodes.codes_ofSigned _ _).1

/-- A division with a quotient. -/
theorem divide_of_fits (heven : r.val % 2 = 0) (hv : v ≠ 0)
    (hfits : FitsSigned 32 ((s.cpu.pairAt r).toInt.tdiv v.toInt)) :
    ∃ s', divide r v s = .ok .next s' ∧ Divided r v s s' := by
  refine ⟨_, ?_, divided_of_puts hv hfits puts_words⟩
  rw [divide, bind_of_ok (pair_of_even heven), signedQuotient?_eq, if_neg fun h => h.elim hv fun h => h hfits]
  rfl

/-- A division without a quotient. -/
theorem divide_of_not_fits (heven : r.val % 2 = 0) (hv : v = 0 ∨ ¬FitsSigned 32 ((s.cpu.pairAt r).toInt.tdiv v.toInt)) :
    (s.cpu.psd.exceptionsEnabled = false → ∃ s', divide r v s = .ok .next s' ∧ Undivided s s') ∧
      (s.cpu.psd.exceptionsEnabled = true → divide r v s = .error .arithmeticException s) := by
  have hquotient : signedQuotient? (s.cpu.pairAt r) v = none := by rw [signedQuotient?_eq, if_pos hv]
  have hrun : divide r v s = (do checkOverflow true; setCodes .overflow; return .next : Exec Flow) s := by
    rw [divide, bind_of_ok (pair_of_even heven), hquotient]
  constructor
  · intro hoff
    have hcheck : checkOverflow true s = .ok () s := by
      rw [checkOverflow_eq, hoff]
      rfl
    exact ⟨_, hrun.trans (bind_of_ok hcheck), _, _, rfl⟩
  · intro hon
    have hcheck : checkOverflow true s = .error .arithmeticException s := by
      rw [checkOverflow_eq, hon]
      rfl
    exact hrun.trans (bind_of_error hcheck)

/-! ### Their instructions -/

theorem addGroup_of_multiply (h : o.augment = 2) :
    addGroup o = (do if ← based then multiply o.register (← base o.source) else undefined : Exec Flow) := by
  rw [addGroup, h]
  rfl

theorem addGroup_of_divide (h : o.augment = 0xA) :
    addGroup o = (do if ← based then divide o.register (← base o.source) else undefined : Exec Flow) := by
  rw [addGroup, h]
  rfl

theorem perform_of_takes (h : scaling.Takes s o opcode v) : perform opcode o s = scaling.run o.register v s := by
  cases scaling with
  | multiply =>
    cases h with
    | register => rfl
    | memory hfield hread => exact bind_of_ok (readOperand_of_allows hfield hread)
    | immediate haugment =>
      rw [perform, immediateGroup, haugment]
      rfl
    | base hbased haugment =>
      have hbased : based s = .ok true s := congrArg (Result.ok · s) hbased
      rw [perform, addGroup_of_multiply haugment, bind_of_ok hbased]
      rfl
  | divide =>
    cases h with
    | register => rfl
    | memory hfield hread => exact bind_of_ok (readOperand_of_allows hfield hread)
    | immediate haugment =>
      rw [perform, immediateGroup, haugment]
      rfl
    | base hbased haugment =>
      have hbased : based s = .ok true s := congrArg (Result.ok · s) hbased
      rw [perform, addGroup_of_divide haugment, bind_of_ok hbased]
      rfl

theorem takes_of_same {t : Core} (h : scaling.Takes s o opcode v) (hsame : Same s t) : scaling.Takes t o opcode v := by
  have hallows : ∀ {access a bytes physical}, s.Allows access a bytes physical → t.Allows access a bytes physical :=
    fun h => h.of_same hsame
  obtain ⟨_, _, rfl⟩ := hsame
  cases h with
  | register => exact .register
  | memory hfield hread => exact .memory hfield (hallows hread)
  | immediate haugment => exact .immediate haugment
  | base hbased haugment => exact .base hbased haugment

theorem ne_io_of_takes (h : scaling.Takes s o opcode v) : opcode ≠ .io := by
  cases scaling with
  | multiply => cases h <;> exact Opcode.noConfusion
  | divide => cases h <;> exact Opcode.noConfusion

end Exec

namespace Hardware
open Concept32.Core EStateM
variable {δ ω : Type} [Peripheral δ ω] {s : Hardware δ ω} {core : Core} {i : Instruction} {next : Word} {opcode : Opcode}
  {o : Operand} {v : Word}

/-- A multiplication leaves the exact product in the pair. -/
theorem dispatch_of_multiply (now : Nat) (hprepare : prepare i next s.core = .ok (opcode, o) core)
    (heven : o.register.val % 2 = 0) (htakes : Scaling.multiply.Takes s.core o opcode v) :
    ∃ s', dispatch now i next s = .ok .next s' ∧ s'.channels = s.channels ∧
      Multiplied o.register v s.core s'.core := by
  have hsame : Same s.core core := reads_prepare.ok hprepare
  obtain ⟨t, hrun, hmultiplied⟩ := Concept32.Exec.multiply_of_even (s := core) (v := v) heven
  have hperform := (Concept32.Exec.perform_of_takes (Concept32.Exec.takes_of_same htakes hsame)).trans hrun
  exact ⟨⟨t, s.channels⟩, dispatch_of_perform hprepare (Concept32.Exec.ne_io_of_takes htakes) hperform, rfl,
    hmultiplied.of_same hsame⟩

theorem pairAt_of_same {s t : Core} (hsame : Same s t) (r : RegisterNumber) : t.cpu.pairAt r = s.cpu.pairAt r := by
  obtain ⟨_, _, rfl⟩ := hsame
  rfl

/-- A division whose quotient fits a word leaves the quotient and the remainder in the pair. -/
theorem dispatch_of_divide (now : Nat) (hprepare : prepare i next s.core = .ok (opcode, o) core)
    (heven : o.register.val % 2 = 0) (htakes : Scaling.divide.Takes s.core o opcode v) (hv : v ≠ 0)
    (hfits : FitsSigned 32 ((s.core.cpu.pairAt o.register).toInt.tdiv v.toInt)) :
    ∃ s', dispatch now i next s = .ok .next s' ∧ s'.channels = s.channels ∧ Divided o.register v s.core s'.core := by
  have hsame : Same s.core core := reads_prepare.ok hprepare
  rw [← pairAt_of_same hsame] at hfits
  obtain ⟨t, hrun, hdivided⟩ := Concept32.Exec.divide_of_fits heven hv hfits
  have hperform := (Concept32.Exec.perform_of_takes (Concept32.Exec.takes_of_same htakes hsame)).trans hrun
  exact ⟨⟨t, s.channels⟩, dispatch_of_perform hprepare (Concept32.Exec.ne_io_of_takes htakes) hperform, rfl,
    hdivided.of_same hsame⟩

/-- A division without a quotient sets CC1 alone or traps. -/
theorem dispatch_of_no_quotient (now : Nat) (hprepare : prepare i next s.core = .ok (opcode, o) core)
    (heven : o.register.val % 2 = 0) (htakes : Scaling.divide.Takes s.core o opcode v)
    (hnone : v = 0 ∨ ¬FitsSigned 32 ((s.core.cpu.pairAt o.register).toInt.tdiv v.toInt)) :
    (s.core.cpu.psd.exceptionsEnabled = false →
      ∃ s', dispatch now i next s = .ok .next s' ∧ s'.channels = s.channels ∧ Undivided s.core s'.core) ∧
    (s.core.cpu.psd.exceptionsEnabled = true →
      ∃ s', dispatch now i next s = .error .arithmeticException s' ∧ s'.channels = s.channels ∧
        Same s.core s'.core) := by
  have hsame : Same s.core core := reads_prepare.ok hprepare
  have hpsd : core.cpu.psd = s.core.cpu.psd := psd_of_same hsame
  have hio := Concept32.Exec.ne_io_of_takes htakes
  have hperform := Concept32.Exec.perform_of_takes (Concept32.Exec.takes_of_same htakes hsame)
  rw [← pairAt_of_same hsame] at hnone
  obtain ⟨hruns, htraps⟩ := Concept32.Exec.divide_of_not_fits heven hnone
  rw [hpsd] at hruns htraps
  constructor
  · intro hoff
    obtain ⟨t, hrun, hundivided⟩ := hruns hoff
    exact ⟨⟨t, s.channels⟩, dispatch_of_perform hprepare hio (hperform.trans hrun), rfl, hundivided.of_same hsame⟩
  · intro hon
    exact ⟨⟨core, s.channels⟩, dispatch_of_perform_error hprepare hio (hperform.trans (htraps hon)), rfl, hsame⟩

/-- A product divided by one of its factors is the other factor, without a remainder. -/
theorem factor_of_divide {t : Hardware δ ω} {r : RegisterNumber} {a : Word} (later : Nat)
    (hprepare : prepare i next t.core = .ok (opcode, o) core) (heven : o.register.val % 2 = 0)
    (htakes : Scaling.divide.Takes t.core o opcode v) (hregister : o.register = r)
    (hproduct : (t.core.cpu.pairAt r).toInt = a.toInt * v.toInt) (hv : v ≠ 0) :
    ∃ t', dispatch later i next t = .ok .next t' ∧ t'.core.cpu.gpr.get r = 0 ∧
      t'.core.cpu.gpr.get (Concept32.Exec.nextRegister r) = a := by
  subst hregister
  have hne : v.toInt ≠ 0 := fun h => hv (BitVec.toInt_inj.mp (h.trans BitVec.toInt_zero.symm))
  have hfactor : (t.core.cpu.pairAt o.register).toInt.tdiv v.toInt = a.toInt := by
    rw [hproduct, Int.mul_tdiv_cancel _ hne]
  obtain ⟨t', hdispatch, -, hdivided⟩ :=
    dispatch_of_divide later hprepare heven htakes hv (by rw [hfactor]; exact fits_toInt)
  have hquotient := hdivided.quotient.trans hfactor
  have hremainder : (t'.core.cpu.gpr.get o.register).toInt = 0 := by
    have hsum := hdivided.sum
    rw [hquotient, hproduct] at hsum
    omega
  exact ⟨t', hdispatch, BitVec.toInt_inj.mp (hremainder.trans BitVec.toInt_zero.symm), BitVec.toInt_inj.mp hquotient⟩

/-- The multiplications leave the exact product, and from any state with that pair a division by the same word gives the
multiplicand back. The divisions leave the quotient and the remainder if there is a quotient that fits a word, and
otherwise the registers as they were. -/
theorem scales_pairs (now : Nat) (hprepare : prepare i next s.core = .ok (opcode, o) core)
    (heven : o.register.val % 2 = 0) :
    (Scaling.multiply.Takes s.core o opcode v → ∃ s', dispatch now i next s = .ok .next s' ∧ s'.channels = s.channels ∧
      Multiplied o.register v s.core s'.core ∧
      ∀ (later : Nat) (t : Hardware δ ω) (j : Instruction) (next' : Word) (opcode' : Opcode) (o' : Operand)
        (core' : Core),
        prepare j next' t.core = .ok (opcode', o') core' → Scaling.divide.Takes t.core o' opcode' v →
        o'.register = o.register → t.core.cpu.pairAt o.register = s'.core.cpu.pairAt o.register → v ≠ 0 →
        ∃ t', dispatch later j next' t = .ok .next t' ∧ t'.core.cpu.gpr.get o.register = 0 ∧
          t'.core.cpu.gpr.get (Concept32.Exec.nextRegister o.register) =
            s.core.cpu.gpr.get (Concept32.Exec.nextRegister o.register)) ∧
    (Scaling.divide.Takes s.core o opcode v →
      (v ≠ 0 → FitsSigned 32 ((s.core.cpu.pairAt o.register).toInt.tdiv v.toInt) →
        ∃ s', dispatch now i next s = .ok .next s' ∧ s'.channels = s.channels ∧
          Divided o.register v s.core s'.core) ∧
      (v = 0 ∨ ¬FitsSigned 32 ((s.core.cpu.pairAt o.register).toInt.tdiv v.toInt) →
        (s.core.cpu.psd.exceptionsEnabled = false → ∃ s', dispatch now i next s = .ok .next s' ∧
          s'.channels = s.channels ∧ Undivided s.core s'.core) ∧
        (s.core.cpu.psd.exceptionsEnabled = true → ∃ s', dispatch now i next s = .error .arithmeticException s' ∧
          s'.channels = s.channels ∧ Same s.core s'.core))) := by
  refine ⟨fun htakes => ?_, fun htakes => ⟨dispatch_of_divide now hprepare heven htakes,
    dispatch_of_no_quotient now hprepare heven htakes⟩⟩
  obtain ⟨s', hdispatch, hchannels, hmultiplied⟩ := dispatch_of_multiply now hprepare heven htakes
  refine ⟨s', hdispatch, hchannels, hmultiplied, ?_⟩
  intro later t j next' opcode' o' core' hprepare' htakes' hregister hpair hv
  refine factor_of_divide later hprepare' (hregister ▸ heven) htakes' hregister ?_ hv
  rw [hpair]
  exact hmultiplied.exact

/-- A machine with the least word in register 3. -/
def leastWord : Hardware StandardDevice Char where
  core :=
    { cpu := { Cpu.initial .c3227 0 with gpr := (Vector.replicate 8 0).set 3 0x80000000#32 }
      memory := ⟨#[], by simp⟩ }
  channels := .empty

/-- MPI of registers 2 and 3 by minus one. -/
def negatePair : Instruction := ⟨0xC903FFFF#32⟩

/-- DVI of registers 2 and 3 by minus one. -/
def negateQuotient : Instruction := ⟨0xC904FFFF#32⟩

/-- The machine with the product. -/
def leastProduct : Hardware StandardDevice Char := after (dispatch 0 negatePair 4) leastWord

/-- The negative of the least word fits a pair and no word, and divided again it is the least word. -/
theorem scales_pairs_least :
    prepare negatePair 4 leastWord.core = .ok (.imm, .withoutAddress negatePair 4) leastWord.core ∧
      dispatch 0 negatePair 4 leastWord = .ok .next leastProduct ∧
      (leastProduct.core.cpu.pairAt ⟨2, by decide⟩).toInt = 0x80000000 ∧
      ∃ t, dispatch 0 negateQuotient 8 leastProduct = .ok .next t ∧ t.core.cpu.gpr.get ⟨2, by decide⟩ = 0 ∧
        t.core.cpu.gpr.get ⟨3, by decide⟩ = 0x80000000#32 := by
  have hprepare : prepare negatePair 4 leastWord.core = .ok (.imm, .withoutAddress negatePair 4) leastWord.core := rfl
  have hprepare' : prepare negateQuotient 8 leastProduct.core =
      .ok (.imm, .withoutAddress negateQuotient 8) leastProduct.core := rfl
  have hproduct : dispatch 0 negatePair 4 leastWord = .ok .next leastProduct := rfl
  obtain ⟨s', hdispatch, -, hmultiplied, hfactor⟩ := (scales_pairs 0 hprepare rfl).1 (.immediate rfl)
  cases hproduct.symm.trans hdispatch
  refine ⟨hprepare, hproduct, hmultiplied.exact.trans (by decide +kernel), ?_⟩
  exact hfactor 0 leastProduct _ _ _ _ _ hprepare' (.immediate rfl) rfl rfl (by decide)

end Hardware
end Concept32
