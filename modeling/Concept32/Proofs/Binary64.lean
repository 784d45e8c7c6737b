import Mathlib.Algebra.Order.Field.Power
import Mathlib.Algebra.Order.Floor.Semifield
import Mathlib.Data.Rat.Floor
import Mathlib.Tactic.FieldSimp
import Mathlib.Tactic.Linarith
import Mathlib.Tactic.NormNum
import Mathlib.Tactic.Positivity
import Mathlib.Tactic.Ring
import Concept32.Float.Binary64

/-!
# Exact binary64 arithmetic

Rounding leaves a number of the format at its value, so an operation with a result that the format has is
exact. Scaling by a power of two is such an operation as long as the exponent stays in range.
-/

namespace Concept32.Binary64
variable {x y : Binary64} {negative : Bool} {m n k : Nat} {e f j : Int} {q r : ℚ}

/-- The exact value of a finite number. -/
def value? : Binary64 → Option ℚ
  | .finite negative significand exponent =>
    some ((if negative then -1 else 1) * (significand * (2 : ℚ) ^ exponent))
  | _ => none

/-! ### Binary digits -/

theorem bitLength_le (h : m < 2 ^ k) : bitLength m ≤ k := by
  rw [bitLength]
  split
  · exact Nat.zero_le k
  · next hne => exact (Nat.log2_lt hne).mpr h

theorem lt_two_pow_bitLength (m : Nat) : m < 2 ^ bitLength m := by
  rw [bitLength]
  split
  · next hm => subst hm; decide
  · exact Nat.lt_log2_self

theorem le_mul_two_zpow (hm : m ≠ 0) : (2 : ℚ) ^ (e + bitLength m - 1) ≤ m * 2 ^ e := by
  have hlow : ((2 ^ Nat.log2 m : Nat) : ℚ) ≤ m := Nat.cast_le.mpr (Nat.log2_self_le hm)
  have hlength : (bitLength m : Int) = Nat.log2 m + 1 := by rw [bitLength, if_neg hm]; rfl
  have hplace : e + bitLength m - 1 = (Nat.log2 m : Int) + e := by omega
  rw [hplace, zpow_add₀ (by norm_num), zpow_natCast]
  push_cast at hlow
  exact mul_le_mul_of_nonneg_right hlow (by positivity)

theorem mul_two_zpow_lt : m * (2 : ℚ) ^ e < 2 ^ (e + bitLength m) := by
  have hhigh : (m : ℚ) < ((2 ^ bitLength m : Nat) : ℚ) := Nat.cast_lt.mpr (lt_two_pow_bitLength m)
  rw [add_comm, zpow_add₀ (by norm_num), zpow_natCast]
  push_cast at hhigh
  exact mul_lt_mul_of_pos_right hhigh (by positivity)

theorem significand_ne_zero (h : m * (2 : ℚ) ^ e = q) (hq : 0 < q) : m ≠ 0 := by
  rintro rfl
  simp [← h] at hq

/-- The place of the first digit depends on the value alone. -/
theorem add_bitLength_le (hm : m ≠ 0) (h : m * (2 : ℚ) ^ e ≤ n * 2 ^ f) : e + bitLength m ≤ f + bitLength n := by
  have hlt : (2 : ℚ) ^ (e + bitLength m - 1) < 2 ^ (f + bitLength n) :=
    (le_mul_two_zpow hm).trans_lt (h.trans_lt mul_two_zpow_lt)
  have := (zpow_lt_zpow_iff_right₀ (by norm_num)).mp hlt
  omega

/-! ### Rounding -/

theorem roundShift_mul (m k : Nat) : roundShift (m * 2 ^ k) k = m := by
  have hquotient : (m * 2 ^ k) >>> k = m := by
    rw [Nat.shiftRight_eq_div_pow, Nat.mul_div_cancel _ (Nat.two_pow_pos k)]
  have hpos := Nat.two_pow_pos k
  simp only [roundShift, hquotient, Nat.shiftLeft_eq, Nat.sub_self, Nat.mul_zero, Nat.one_mul]
  refine if_neg ?_
  simp only [Bool.or_eq_true, Bool.and_eq_true, decide_eq_true_eq]
  omega

/-- A significand and an exponent that the format has a place for. -/
structure Fits (m : Nat) (e : Int) : Prop where
  digits : m < 2 ^ 53
  low : -1074 ≤ e
  high : e + bitLength m ≤ 1024

/-- The number is `q`, held exactly. -/
def Holds (x : Binary64) (q : ℚ) : Prop := ∃ m e, x = .finite false m e ∧ Fits m e ∧ m * (2 : ℚ) ^ e = q

/-- The format has a number of this value. -/
def Representable (q : ℚ) : Prop := ∃ m e, Fits m e ∧ m * (2 : ℚ) ^ e = q

theorem Holds.representable (h : Holds x q) : Representable q :=
  let ⟨m, e, _, hfits, hvalue⟩ := h
  ⟨m, e, hfits, hvalue⟩

theorem mul_two_pow_eq (hle : e ≤ f) (h : m * (2 : ℚ) ^ e = n * 2 ^ f) : m = n * 2 ^ (f - e).toNat := by
  have hsplit : f = (f - e).toNat + e := by omega
  rw [hsplit, zpow_add₀ (by norm_num), zpow_natCast, ← mul_assoc] at h
  have hcast := mul_right_cancel₀ (by positivity) h
  exact_mod_cast hcast

/-- A number that the format has is not changed by rounding. -/
theorem round_of_representable (hm : m ≠ 0) (hr : Representable (m * (2 : ℚ) ^ e)) :
    Holds (round false m e) (m * (2 : ℚ) ^ e) := by
  obtain ⟨n, f, hfits, hvalue⟩ := hr
  have hn : n ≠ 0 := significand_ne_zero hvalue (by positivity)
  have hplace : e + bitLength m = f + bitLength n :=
    le_antisymm (add_bitLength_le hm hvalue.ge) (add_bitLength_le hn hvalue.le)
  have hlength := bitLength_le hfits.digits
  have hlow := hfits.low
  have hhigh := hfits.high
  rw [round]
  generalize hunit : max (e + bitLength m - 53) (-1074) = unit
  by_cases hlt : e < unit
  · -- The digits below the unit are zeros, as those of the number of the format are.
    have hup : unit ≤ f := by omega
    have hmoved : m = n * 2 ^ (f - unit).toNat * 2 ^ (unit - e).toNat := by
      rw [Nat.mul_assoc, ← Nat.pow_add, mul_two_pow_eq (by omega) hvalue.symm]
      congr 2
      omega
    have hsame : (n * 2 ^ (f - unit).toNat : Nat) * (2 : ℚ) ^ unit = m * 2 ^ e := by
      rw [hmoved]
      push_cast
      rw [mul_assoc, mul_assoc, mul_assoc, ← zpow_natCast (2 : ℚ) (unit - e).toNat, ← zpow_add₀ (by norm_num)]
      congr 3
      omega
    have hne : n * 2 ^ (f - unit).toNat ≠ 0 := by positivity
    have hnew : unit + bitLength (n * 2 ^ (f - unit).toNat) = f + bitLength n :=
      (le_antisymm (add_bitLength_le hne hsame.le) (add_bitLength_le hm hsame.ge)).trans hplace
    rw [if_pos hlt]
    dsimp only
    rw [hmoved, roundShift_mul, ← hmoved, if_neg (by omega)]
    refine ⟨_, _, rfl, ⟨?_, by omega, by omega⟩, hsame⟩
    exact (lt_two_pow_bitLength _).trans_le (Nat.pow_le_pow_right (by decide) (by omega))
  · rw [if_neg hlt]
    dsimp only
    rw [if_neg (by omega)]
    refine ⟨_, _, rfl, ⟨?_, by omega, by omega⟩, rfl⟩
    exact (lt_two_pow_bitLength m).trans_le (Nat.pow_le_pow_right (by decide) (by omega))

theorem round_zero (hlow : -1074 ≤ e) (hhigh : e ≤ 1024) : round negative 0 e = .finite negative 0 e := by
  have hlength : bitLength 0 = 0 := rfl
  have hunit : ¬e < max (e + bitLength 0 - 53) (-1074) := by omega
  have hrange : ¬(1024 : Int) < e + bitLength 0 := by omega
  rw [round, if_neg hunit, if_neg hrange]

/-! ### Scaling by powers of two -/

theorem holds_ofInt (hm : m ≠ 0) (h : m < 2 ^ 53) : Holds (ofInt m) m := by
  have hfits : Fits m 0 := ⟨h, by decide, by have := bitLength_le h; omega⟩
  have hholds := round_of_representable hm ⟨m, 0, hfits, rfl⟩
  rw [zpow_zero, mul_one] at hholds
  exact hholds

theorem holds_twoPow (hlow : -1074 ≤ j) (hhigh : j < 1024) : Holds (twoPow j) (2 ^ j) :=
  ⟨1, j, rfl, ⟨by decide, hlow, by rw [show bitLength 1 = 1 by decide]; omega⟩, by rw [Nat.cast_one, one_mul]⟩

theorem Holds.mul_twoPow (h : Holds x q) (hq : 0 < q) (hr : Representable (q * 2 ^ j)) :
    Holds (x.mul (twoPow j)) (q * 2 ^ j) := by
  obtain ⟨m, e, rfl, -, rfl⟩ := h
  have hm : m ≠ 0 := significand_ne_zero rfl hq
  rw [mul_assoc, ← zpow_add₀ (by norm_num)] at hr ⊢
  have hmul : (finite false m e).mul (twoPow j) = round false (m * 1) (e + j) := rfl
  rw [hmul, Nat.mul_one]
  exact round_of_representable hm hr

theorem Holds.div_twoPow (h : Holds x q) (hq : 0 < q) (hr : Representable (q / 2 ^ j)) :
    Holds (x.div (twoPow j)) (q / 2 ^ j) := by
  obtain ⟨m, e, rfl, -, rfl⟩ := h
  have hm : m ≠ 0 := significand_ne_zero rfl hq
  have hdiv : (finite false m e).div (twoPow j) = round false (2 ^ 66 * m) (e - j - 66) := by
    have hplaces : 64 + bitLength 1 = 65 := by decide
    simp only [div, twoPow, hplaces, Nat.div_one, Nat.mod_one, Nat.shiftLeft_eq]
    rw [if_neg (by decide), if_pos trivial]
    congr 1
    · omega
    · omega
  have hvalue : m * (2 : ℚ) ^ e / 2 ^ j = (2 ^ 66 * m : Nat) * (2 : ℚ) ^ (e - j - 66) := by
    rw [zpow_sub₀ (by norm_num), zpow_sub₀ (by norm_num)]
    push_cast
    field_simp
  rw [hvalue] at hr ⊢
  rw [hdiv]
  exact round_of_representable (by positivity) hr

/-- A number scaled by a power of two has a place in the format if its exponents have. -/
theorem Fits.representable (h : Fits m e) (hlow : -1074 ≤ e + j) (hhigh : e + j + bitLength m ≤ 1024) :
    Representable (m * (2 : ℚ) ^ e * 2 ^ j) :=
  ⟨m, e + j, ⟨h.digits, hlow, hhigh⟩, by rw [zpow_add₀ (by norm_num), mul_assoc]⟩

/-- The exponent of a number is at most 53 below that of any power of two it reaches. -/
theorem Fits.lt_of_le (h : Fits m e) (hle : (2 : ℚ) ^ j ≤ m * 2 ^ e) : j - 53 < e := by
  have hlt := (zpow_lt_zpow_iff_right₀ (by norm_num)).mp (hle.trans_lt (mul_two_zpow_lt (m := m) (e := e)))
  have := bitLength_le h.digits
  omega

theorem add_bitLength_le_of_lt (hm : m ≠ 0) (hlt : m * (2 : ℚ) ^ e < 2 ^ j) : e + bitLength m ≤ j := by
  have := (zpow_lt_zpow_iff_right₀ (by norm_num)).mp ((le_mul_two_zpow hm).trans_lt hlt)
  omega

/-! ### Order and whole part -/

theorem mul_two_zpow_eq (hle : f ≤ e) : m * (2 : ℚ) ^ e = (m <<< (e - f).toNat : Nat) * 2 ^ f := by
  have hsplit : e = (e - f).toNat + f := by omega
  conv_lhs => rw [hsplit, zpow_add₀ (by norm_num), zpow_natCast, ← mul_assoc]
  rw [Nat.shiftLeft_eq]
  push_cast
  rfl

theorem order?_of_holds (hx : Holds x q) (hy : Holds y r) : x.order? y = some (compare q r) := by
  obtain ⟨m, e, rfl, -, rfl⟩ := hx
  obtain ⟨n, f, rfl, -, rfl⟩ := hy
  have hpos : (0 : ℚ) < 2 ^ min e f := by positivity
  rw [mul_two_zpow_eq (min_le_left e f), mul_two_zpow_eq (min_le_right e f)]
  simp only [order?, signed, Bool.false_eq_true, if_false]
  generalize m <<< (e - min e f).toNat = a
  generalize n <<< (f - min e f).toNat = b
  obtain hlt | heq | hgt := lt_trichotomy a b
  · rw [compare_lt_iff_lt.mpr (Int.ofNat_lt.mpr hlt), compare_lt_iff_lt.mpr]
    exact mul_lt_mul_of_pos_right (Nat.cast_lt.mpr hlt) hpos
  · rw [heq, compare_eq_iff_eq.mpr rfl, compare_eq_iff_eq.mpr rfl]
  · rw [compare_gt_iff_gt.mpr (Int.ofNat_lt.mpr hgt), compare_gt_iff_gt.mpr]
    exact mul_lt_mul_of_pos_right (Nat.cast_lt.mpr hgt) hpos

theorem Holds.less_iff (hx : Holds x q) (hy : Holds y r) : x.less y = true ↔ q < r := by
  rw [less, order?_of_holds hx hy, ← compare_lt_iff_lt]
  cases compare q r <;> decide

theorem Holds.atLeast_iff (hx : Holds x q) (hy : Holds y r) : x.atLeast y = true ↔ r ≤ q := by
  rw [atLeast, order?_of_holds hx hy, ← not_lt, ← compare_lt_iff_lt]
  cases compare q r <;> decide

theorem floor_mul_two_zpow :
    ⌊(m : ℚ) * 2 ^ e⌋₊ = if 0 ≤ e then m <<< e.toNat else m >>> (-e).toNat := by
  split
  · next he =>
    rw [mul_two_zpow_eq he, zpow_zero, mul_one, Nat.floor_natCast, Int.sub_zero]
  · next he =>
    have hsplit : e = -((-e).toNat : Int) := by omega
    conv_lhs => rw [hsplit, zpow_neg, zpow_natCast, ← div_eq_mul_inv]
    rw [Nat.shiftRight_eq_div_pow, ← Nat.floor_div_eq_div (K := ℚ)]
    push_cast
    rfl

theorem Holds.saturated_eq (h : Holds x q) (width : Nat) : x.saturated width = min ⌊q⌋₊ (2 ^ width - 1) := by
  obtain ⟨m, e, rfl, -, rfl⟩ := h
  rw [floor_mul_two_zpow, ← Nat.one_shiftLeft]
  rfl

end Concept32.Binary64
