import Concept32.ConditionCodes
import Concept32.Instructions.Arithmetic

/-!
# Signed numbers of a width

A sum, a difference or a negative is its exact result cut to the width, and it overflows exactly if the exact result does
not fit the width.
-/

namespace Concept32

/-- A signed number fits into a number of bits. -/
def FitsSigned (w : Nat) (r : Int) : Prop := -Int.pow 2 (w - 1) ≤ r ∧ r < Int.pow 2 (w - 1)

instance {w : Nat} {r : Int} : Decidable (FitsSigned w r) := inferInstanceAs (Decidable (_ ∧ _))

/-- An exact result cut to a width, and whether it overflowed. -/
def wrapped (w : Nat) (r : Int) : BitVec w × Bool := (.ofInt w r, !decide (FitsSigned w r))

section
variable {w : Nat} {a b : BitVec w} {r : Int}

theorem fits_toInt : FitsSigned w a.toInt := ⟨BitVec.le_toInt a, BitVec.toInt_lt⟩

theorem toInt_ofInt_of_fits (hw : 0 < w) (h : FitsSigned w r) : (BitVec.ofInt w r).toInt = r :=
  BitVec.toInt_ofInt_eq_self hw h.1 h.2

end

/-! ### Doublewords -/

/-- The product of two words is exact in a doubleword. -/
theorem toInt_product {a b : Word} : (a.signExtend 64 * b.signExtend 64).toInt = a.toInt * b.toInt := by
  have hnatAbs : ∀ w : Word, w.toInt.natAbs ≤ 0x80000000 := fun w => by
    obtain ⟨hle, hlt⟩ : FitsSigned 32 w.toInt := fits_toInt
    have hpower : Int.pow 2 (32 - 1) = 0x80000000 := rfl
    omega
  have hproduct : (a.toInt * b.toInt).natAbs ≤ 0x80000000 * 0x80000000 := by
    rw [Int.natAbs_mul]
    exact Nat.mul_le_mul (hnatAbs a) (hnatAbs b)
  rw [BitVec.toInt_mul, BitVec.toInt_signExtend_of_le (by decide), BitVec.toInt_signExtend_of_le (by decide)]
  exact Int.bmod_eq_of_le (by omega) (by omega)

/-- There are a quotient and a remainder just if the divisor is not zero and the quotient fits a word. -/
theorem signedQuotient?_eq {dividend : Double} {divisor : Word} : signedQuotient? dividend divisor =
    if divisor = 0 ∨ ¬FitsSigned 32 (dividend.toInt.tdiv divisor.toInt) then none
    else some (.ofInt 32 (dividend.toInt.tdiv divisor.toInt), .ofInt 32 (dividend.toInt.tmod divisor.toInt)) := by
  have hpower : Int.pow 2 (32 - 1) = 0x80000000 := rfl
  generalize hquotient : dividend.toInt.tdiv divisor.toInt = q
  have hnone : (divisor = 0 || q < -0x80000000 || 0x80000000 ≤ q) = true ↔ divisor = 0 ∨ ¬FitsSigned 32 q := by
    rw [FitsSigned, hpower, Bool.or_eq_true, Bool.or_eq_true, decide_eq_true_iff, decide_eq_true_iff, decide_eq_true_iff,
      or_assoc]
    exact or_congr Iff.rfl (by omega)
  rw [signedQuotient?, hquotient]
  by_cases h : divisor = 0 ∨ ¬FitsSigned 32 q
  · rw [if_pos h]
    exact if_pos (hnone.mpr h)
  · rw [if_neg h]
    exact if_neg fun hsome => h (hnone.mp hsome)

/-- A remainder fits where its divisor does. -/
theorem fits_tmod {dividend : Double} {divisor : Word} (hdivisor : divisor ≠ 0) :
    FitsSigned 32 (dividend.toInt.tmod divisor.toInt) := by
  obtain ⟨hle, hlt⟩ : FitsSigned 32 divisor.toInt := fits_toInt
  have hne : divisor.toInt ≠ 0 := fun h => hdivisor (BitVec.toInt_inj.mp (h.trans BitVec.toInt_zero.symm))
  have hpower : Int.pow 2 (32 - 1) = 0x80000000 := rfl
  have hmod : (dividend.toInt.tmod divisor.toInt).natAbs < divisor.toInt.natAbs := by
    rw [Int.natAbs_tmod]
    exact Nat.mod_lt _ (by omega)
  rw [FitsSigned, hpower]
  omega

/-! ### Condition codes of a result -/

namespace ConditionCodes

theorem codes_ofSigned (value : Int) (overflowed : Bool) : (ofSigned value overflowed).cc1 = overflowed ∧
    (ofSigned value overflowed).cc2 = decide (0 < value) ∧ (ofSigned value overflowed).cc3 = decide (value < 0) ∧
      (ofSigned value overflowed).cc4 = decide (value = 0) := by
  rw [ofSigned]
  rcases Int.lt_trichotomy value 0 with hnegative | rfl | hpositive
  · have hpositive : ¬0 < value := by omega
    have hzero : value ≠ 0 := by omega
    rw [Int.compare_eq_lt.mpr hnegative, decide_eq_true hnegative, decide_eq_false hpositive, decide_eq_false hzero]
    cases overflowed <;> decide
  · cases overflowed <;> decide
  · have hnegative : ¬value < 0 := by omega
    have hzero : value ≠ 0 := by omega
    rw [Int.compare_eq_gt.mpr hpositive, decide_eq_true hpositive, decide_eq_false hnegative, decide_eq_false hzero]
    cases overflowed <;> decide

end ConditionCodes
end Concept32
