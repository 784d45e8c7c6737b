import Mathlib.Data.Int.Log
import Mathlib.Data.Nat.Log
import Concept32.Float.Hexadecimal
import Concept32.Proofs.Binary64

/-!
# The round trip of floating-point words

A word stands for a fraction of 24 bits times a power of 16, with a sign. It is read exactly, and what is written for the
number that has been read is the word again if its first hexadecimal digit is not zero, and otherwise the word of the same
value with its digits moved up to that place, as far as the exponent allows.

The exponent is found by dividing or multiplying by 16 until the fraction is in place. Each of these steps is exact, so the
loops find the exponent of the value itself, and they leave early just for the values out of range.
-/

namespace Concept32

namespace Hexadecimal

/-! ### The fields of a word -/

/-- The word itself, or its complement if it stands for a negative number. -/
def magnitude (w : Word) : Word := if w.msb then -w else w

/-- The exponent of 16, which the word holds with 64 added. -/
def power (w : Word) : Int := ((magnitude w).extractLsb' 24 7).toNat - 64

def fraction (w : Word) : Nat := ((magnitude w).extractLsb' 0 24).toNat

/-- The first hexadecimal digit of the fraction. -/
def firstDigit (w : Word) : Nat := ((magnitude w).extractLsb' 20 4).toNat

/-- The number that a word stands for. -/
def value (w : Word) : ℚ :=
  (if w.msb then -1 else 1) * (fraction w / 0x1000000 * (16 : ℚ) ^ power w)

variable {w : Word} {negative : Bool} {m k n x : Nat} {p e : Int} {number : Binary64} {q : ℚ}

theorem toNat_magnitude_lt (h : w ≠ 0x80000000#32) : (magnitude w).toNat < 0x80000000 := by
  have hne : w.toNat ≠ 0x80000000 := fun heq => h (BitVec.eq_of_toNat_eq heq)
  have hlt := w.isLt
  have hmsb := BitVec.msb_eq_decide w
  rw [magnitude]
  split
  · next hsign =>
    rw [hsign, eq_comm, decide_eq_true_iff] at hmsb
    rw [BitVec.toNat_neg]
    omega
  · next hsign =>
    rw [Bool.eq_false_iff.mpr hsign, eq_comm, decide_eq_false_iff_not] at hmsb
    omega

theorem fraction_eq : fraction w = (magnitude w).toNat % 0x1000000 := by
  rw [fraction, BitVec.extractLsb'_toNat]
  rfl

theorem fraction_lt : fraction w < 0x1000000 := by
  rw [fraction_eq]
  exact Nat.mod_lt _ (by decide)

theorem power_eq (h : w ≠ 0x80000000#32) : power w = ((magnitude w).toNat / 0x1000000 : Nat) - 64 := by
  have hlt := toNat_magnitude_lt h
  rw [power, BitVec.extractLsb'_toNat, Nat.shiftRight_eq_div_pow]
  omega

theorem firstDigit_eq : firstDigit w = fraction w / 0x100000 := by
  rw [firstDigit, fraction_eq, BitVec.extractLsb'_toNat, Nat.shiftRight_eq_div_pow]
  omega

theorem abs_value : |value w| = fraction w / 0x1000000 * (16 : ℚ) ^ power w := by
  have hsign : |(if w.msb then -1 else 1 : ℚ)| = 1 := by split <;> norm_num
  rw [value, abs_mul, hsign, one_mul, abs_of_nonneg (by positivity)]

/-! ### Reading -/

theorem ofWord_eq_decode (h : w ≠ 0x80000000#32) (hzero : w ≠ 0) :
    ofWord w = decode w.msb (power w + 64).toNat ((Binary64.ofInt (fraction w)).div (.twoPow 24)) := by
  have hmsb : (magnitude w).msb = false := by
    rw [BitVec.msb_eq_decide]
    exact decide_eq_false (Nat.not_le.mpr (toNat_magnitude_lt h))
  have hexponent : (power w + 64).toNat = ((magnitude w).extractLsb' 24 7).toNat := by
    rw [power]
    omega
  have hform : ofForm w = if (magnitude w).msb then (Binary64.twoPow 252).neg
      else decode w.msb ((magnitude w).extractLsb' 24 7).toNat ((Binary64.ofInt (fraction w)).div (.twoPow 24)) :=
    if_neg hzero
  rw [ofWord, hform, hmsb, if_neg Bool.false_ne_true, hexponent]

/-- A word with a fraction other than zero is read exactly. -/
theorem ofWord_eq (h : w ≠ 0x80000000#32) (hfraction : fraction w ≠ 0) :
    ∃ m e, ofWord w = .finite w.msb m e ∧ Binary64.Fits m e ∧
      m * (2 : ℚ) ^ e = |value w| := by
  have hzero : w ≠ 0 := fun heq => hfraction (by rw [heq]; decide)
  have hpower := power_eq h
  have hmagnitude := toNat_magnitude_lt h
  have hlt : fraction w < 0x1000000 := fraction_lt
  have hlength : Binary64.bitLength (fraction w) ≤ 24 := Binary64.bitLength_le hlt
  have hpos : (0 : ℚ) < fraction w := Nat.cast_pos.mpr (Nat.pos_of_ne_zero hfraction)
  have hfits : Binary64.Fits (fraction w) (-24) := ⟨by omega, by decide, by omega⟩
  have hsixteen : (2 : ℚ) ^ (4 * power w) = 16 ^ power w := by
    rw [zpow_mul]
    norm_num
  have hdigits : (fraction w : ℚ) * 2 ^ (-24 : Int) = fraction w / 2 ^ (24 : Int) := by
    rw [zpow_neg, div_eq_mul_inv]
  have hread := (Binary64.holds_ofInt hfraction (by omega)).div_twoPow hpos ⟨_, _, hfits, hdigits⟩
  have hscaled := hread.mul_twoPow (by positivity)
    (hdigits ▸ hfits.representable (j := 4 * power w) (by omega) (by omega))
  obtain ⟨m, e, hnumber, hfits, hvalue⟩ := hscaled
  have hexponent : 4 * (((power w + 64).toNat : Int) - 64) = 4 * power w := by omega
  refine ⟨m, e, ?_, hfits, ?_⟩
  · rw [ofWord_eq_decode h hzero, decode, hexponent, hnumber]
    cases w.msb with
    | true => rfl
    | false => rfl
  · rw [hvalue, hsixteen, abs_value]
    norm_num

theorem ofWord_of_fraction (h : w ≠ 0x80000000#32) (hfraction : fraction w = 0) :
    ∃ negative e, ofWord w = .finite negative 0 e := by
  by_cases hzero : w = 0
  · exact ⟨false, 0, by rw [ofWord, ofForm, if_pos hzero]⟩
  · have hpower := power_eq h
    have hmagnitude := toNat_magnitude_lt h
    have hread : (Binary64.ofInt (0 : Nat)).div (.twoPow 24) = .finite false 0 (-90) := by rfl
    have hscaled : (Binary64.finite false 0 (-90)).mul (.twoPow (4 * (((power w + 64).toNat : Int) - 64))) =
        .finite false 0 (-90 + 4 * (((power w + 64).toNat : Int) - 64)) := by
      exact Binary64.round_zero (by omega) (by omega)
    rw [ofWord_eq_decode h hzero, hfraction, hread, decode, hscaled]
    cases w.msb with
    | true => exact ⟨true, _, rfl⟩
    | false => exact ⟨false, _, rfl⟩

theorem value_ofWord (h : w ≠ 0x80000000#32) : (ofWord w).value? = some (value w) := by
  by_cases hfraction : fraction w = 0
  · obtain ⟨negative, e, hread⟩ := ofWord_of_fraction h hfraction
    rw [hread, Binary64.value?, value, hfraction]
    simp
  · obtain ⟨m, e, hread, -, hvalue⟩ := ofWord_eq h hfraction
    rw [hread, Binary64.value?, value, hvalue, abs_value]

/-! ### The exponent -/

theorem holds_div_sixteen (h : number.Holds q) (hq : 1 ≤ q) : (number.div (.twoPow 4)).Holds (q / 16) := by
  have hrepresentable : Binary64.Representable (q / 2 ^ (4 : Int)) := by
    obtain ⟨m, e, -, hfits, rfl⟩ := h
    have := hfits.lt_of_le (j := 0) (by rwa [zpow_zero])
    have := hfits.high
    rw [div_eq_mul_inv, ← zpow_neg]
    exact hfits.representable (by omega) (by omega)
  have hdivided := h.div_twoPow (by linarith) hrepresentable
  norm_num at hdivided
  exact hdivided

theorem holds_mul_sixteen (h : number.Holds q) (hq : 0 < q) (hlt : q < 1 / 16) :
    (number.mul (.twoPow 4)).Holds (q * 16) := by
  have hrepresentable : Binary64.Representable (q * 2 ^ (4 : Int)) := by
    obtain ⟨m, e, -, hfits, rfl⟩ := h
    have := Binary64.add_bitLength_le_of_lt (j := -4) (Binary64.significand_ne_zero rfl hq) (by norm_num at hlt ⊢; exact hlt)
    have := hfits.low
    exact hfits.representable (by omega) (by omega)
  have hmultiplied := h.mul_twoPow hq hrepresentable
  norm_num at hmultiplied
  exact hmultiplied

theorem sixteen_zpow_succ (i : Int) : (16 : ℚ) ^ (i + 1) = 16 ^ i * 16 := zpow_add_one₀ (by norm_num) i

/-- Dividing goes on until the number lies below one, and it is given up for just the numbers that do not with an exponent in
range. -/
theorem scaleDown_eq (negative : Bool) (h : number.Holds q) (hq : 0 < q) (hp : p ≤ 63) :
    if 16 ^ (63 - p) ≤ q then scaleDown negative p number = .error (.overflow negative)
    else ∃ i fraction, scaleDown negative p number = .ok (i, fraction) ∧ p ≤ i ∧ i ≤ 63 ∧
      fraction.Holds (q * 16 ^ (p - i)) ∧ q * 16 ^ (p - i) < 1 := by
  induction p, number using scaleDown.induct generalizing q with
  | case1 p number hge hlast =>
    have hone := (h.atLeast_iff (Binary64.holds_twoPow (by decide) (by decide))).mp hge
    have hzero : 63 - p = 0 := by omega
    rw [hzero, if_pos (by simpa using hone), scaleDown, if_pos hge, if_pos hlast]
  | case2 p number hge hmore ih =>
    have hone := (h.atLeast_iff (Binary64.holds_twoPow (by decide) (by decide))).mp hge
    rw [zpow_zero] at hone
    have hnext := ih (holds_div_sixteen h hone) (by positivity) (by omega)
    have hlimit : (16 : ℚ) ^ (63 - (p + 1)) ≤ q / 16 ↔ 16 ^ (63 - p) ≤ q := by
      rw [le_div_iff₀ (by norm_num), ← sixteen_zpow_succ, show 63 - (p + 1) + 1 = 63 - p by omega]
    have hvalue : ∀ i, q / 16 * (16 : ℚ) ^ (p + 1 - i) = q * 16 ^ (p - i) := fun i => by
      rw [show p + 1 - i = p - i + 1 by omega, sixteen_zpow_succ]
      ring
    rw [scaleDown, if_pos hge, if_neg hmore]
    simp only [hlimit, hvalue] at hnext
    split
    · next hlarge => rwa [if_pos hlarge] at hnext
    · next hsmall =>
      rw [if_neg hsmall] at hnext
      obtain ⟨i, fraction, hscaled, hlow, hrest⟩ := hnext
      exact ⟨i, fraction, hscaled, by omega, hrest⟩
  | case3 p number hbelow =>
    have hlt : q < 1 := by
      have := (h.atLeast_iff (Binary64.holds_twoPow (by decide) (by decide))).not.mp hbelow
      simpa using this
    have hone : (1 : ℚ) ≤ 16 ^ (63 - p) := one_le_zpow₀ (by norm_num) (by omega)
    rw [if_neg (by linarith), scaleDown, if_neg hbelow]
    refine ⟨p, number, rfl, le_rfl, hp, ?_⟩
    rw [Int.sub_self, zpow_zero, mul_one]
    exact ⟨h, hlt⟩

/-- Multiplying goes on until the number no longer lies below a sixteenth, and it is given up for just the numbers that do
with every exponent in range. -/
theorem scaleUp_eq (negative : Bool) (h : number.Holds q) (hq : 0 < q) (hlt : q < 1) (hp : -64 ≤ p) :
    if q < 16 ^ (-65 - p) then scaleUp negative p number = .error (.underflow negative)
    else ∃ i fraction, scaleUp negative p number = .ok (i, fraction) ∧ -64 ≤ i ∧ i ≤ p ∧
      fraction.Holds (q * 16 ^ (p - i)) ∧ 1 / 16 ≤ q * 16 ^ (p - i) ∧ q * 16 ^ (p - i) < 1 := by
  have hsixteenth : ((2 : ℚ) ^ (-4 : Int)) = 1 / 16 := by norm_num
  induction p, number using scaleUp.induct generalizing q with
  | case1 p number hless hlast =>
    have hsmall := (h.less_iff (Binary64.holds_twoPow (by decide) (by decide))).mp hless
    have hlimit : (16 : ℚ) ^ (-65 - p) = 1 / 16 := by
      rw [show -65 - p = -1 by omega]
      norm_num
    rw [hlimit, if_pos (hsixteenth ▸ hsmall), scaleUp, if_pos hless, if_pos hlast]
  | case2 p number hless hmore ih =>
    have hsmall := (h.less_iff (Binary64.holds_twoPow (by decide) (by decide))).mp hless
    rw [hsixteenth] at hsmall
    have hnext := ih (holds_mul_sixteen h hq hsmall) (by positivity) (by linarith) (by omega)
    have hlimit : q * 16 < (16 : ℚ) ^ (-65 - (p - 1)) ↔ q < 16 ^ (-65 - p) := by
      rw [show -65 - (p - 1) = -65 - p + 1 by omega, sixteen_zpow_succ]
      exact mul_lt_mul_iff_left₀ (by norm_num)
    have hvalue : ∀ i, q * 16 * (16 : ℚ) ^ (p - 1 - i) = q * 16 ^ (p - i) := fun i => by
      rw [show p - i = p - 1 - i + 1 by omega, sixteen_zpow_succ]
      ring
    rw [scaleUp, if_pos hless, if_neg hmore]
    simp only [hlimit, hvalue] at hnext
    split
    · next htiny => rwa [if_pos htiny] at hnext
    · next hlarge =>
      rw [if_neg hlarge] at hnext
      obtain ⟨i, fraction, hscaled, hlow, hhigh, hrest⟩ := hnext
      exact ⟨i, fraction, hscaled, hlow, by omega, hrest⟩
  | case3 p number hplace =>
    have hle : 1 / 16 ≤ q := by
      have := (h.less_iff (Binary64.holds_twoPow (by decide) (by decide))).not.mp hplace
      rwa [hsixteenth, not_lt] at this
    have hlimit : (16 : ℚ) ^ (-65 - p) ≤ 16 ^ (-1 : Int) := zpow_le_zpow_right₀ (by norm_num) (by omega)
    norm_num at hlimit
    rw [if_neg (by linarith), scaleUp, if_neg hplace]
    refine ⟨p, number, rfl, hp, le_rfl, ?_⟩
    rw [Int.sub_self, zpow_zero, mul_one]
    exact ⟨h, hle, hlt⟩

/-- The exponent of 16 of the normalised form of a value. -/
def hexExponent (q : ℚ) : Int := Int.log 16 q + 1

theorem hexExponent_eq (hlow : (16 : ℚ) ^ (p - 1) ≤ q) (hhigh : q < 16 ^ p) : hexExponent q = p := by
  have hpos : 0 < q := lt_of_lt_of_le (by positivity) hlow
  have hle := (Int.zpow_le_iff_le_log (b := 16) (by decide) hpos).mp (by exact_mod_cast hlow)
  have hlt := (Int.lt_zpow_iff_log_lt (b := 16) (by decide) hpos).mp (by exact_mod_cast hhigh)
  rw [hexExponent]
  omega

/-- The exponent is the one with which the fraction is in place. -/
theorem hexExponent_of_fraction (hlow : 1 / 16 ≤ q * (16 : ℚ) ^ (-p)) (hhigh : q * (16 : ℚ) ^ (-p) < 1) :
    hexExponent q = p := by
  rw [zpow_neg, ← div_eq_mul_inv] at hlow hhigh
  refine hexExponent_eq ?_ ((div_lt_one (by positivity)).mp hhigh)
  rw [le_div_iff₀ (by positivity)] at hlow
  rw [zpow_sub_one₀ (by norm_num)]
  linarith

/-- The two loops find the exponent of the value, unless it is out of range. -/
theorem normalise_eq (negative : Bool) (h : number.Holds q) (hq : 0 < q) :
    if 16 ^ (63 : Int) ≤ q then normalise negative number = .error (.overflow negative)
    else if q < 16 ^ (-65 : Int) then normalise negative number = .error (.underflow negative)
    else -64 ≤ hexExponent q ∧ hexExponent q ≤ 63 ∧
      ∃ fraction, normalise negative number = .ok ((hexExponent q + 64).toNat, fraction) ∧
        fraction.Holds (q * 16 ^ (-hexExponent q)) ∧ q * 16 ^ (-hexExponent q) < 1 := by
  have hdown := scaleDown_eq negative (p := 0) h hq (by decide)
  rw [Int.sub_zero] at hdown
  split
  · next hlarge =>
    rw [if_pos hlarge] at hdown
    rw [normalise, hdown]
    rfl
  next hopen =>
  rw [if_neg hopen] at hdown
  obtain ⟨i, scaled, hdown, hlow, hhigh, hscaled, hlt⟩ := hdown
  have hup := scaleUp_eq negative (p := i) hscaled (by positivity) hlt (by omega)
  have hlimit : q * 16 ^ (0 - i) < (16 : ℚ) ^ (-65 - i) ↔ q < 16 ^ (-65 : Int) := by
    rw [show -65 - i = -65 + (0 - i) by omega, zpow_add₀ (by norm_num)]
    exact mul_lt_mul_iff_left₀ (by positivity)
  have hvalue : ∀ j, q * (16 : ℚ) ^ (0 - i) * 16 ^ (i - j) = q * 16 ^ (-j) := fun j => by
    rw [mul_assoc, ← zpow_add₀ (by norm_num), show 0 - i + (i - j) = -j by omega]
  simp only [hlimit, hvalue] at hup
  split
  · next hsmall =>
    rw [if_pos hsmall] at hup
    rw [normalise, hdown]
    dsimp only [bind, Except.bind]
    rw [hup]
  · next hlarge =>
    rw [if_neg hlarge] at hup
    obtain ⟨j, fraction, hup, hlow', hhigh', hholds, hge, hlt'⟩ := hup
    rw [hexExponent_of_fraction hge hlt']
    refine ⟨hlow', by omega, fraction, ?_, hholds, hlt'⟩
    rw [normalise, hdown]
    dsimp only [bind, Except.bind]
    rw [hup]
    dsimp only
    rw [if_neg (by omega)]
    rfl

/-! ### Writing -/

/-- The exponent and the digits of a form stand side by side. -/
theorem shiftLeft_or (hn : 8 ≤ n) (hk : k < 128) (hm : m < 2 ^ (n - 8)) :
    BitVec.ofNat n k <<< (n - 8) ||| BitVec.ofNat n m = BitVec.ofNat n (k * 2 ^ (n - 8) + m) := by
  have hroom : k * 2 ^ (n - 8) + m < 2 ^ n :=
    calc k * 2 ^ (n - 8) + m < (k + 1) * 2 ^ (n - 8) := by rw [Nat.add_mul]; omega
      _ ≤ 2 ^ 8 * 2 ^ (n - 8) := Nat.mul_le_mul_right _ (by omega)
      _ = 2 ^ n := by rw [← Nat.pow_add]; congr 1; omega
  have hone : 1 ≤ 2 ^ (n - 8) := Nat.one_le_two_pow
  have hk' : k < 2 ^ n := by nlinarith
  apply BitVec.eq_of_toNat_eq
  rw [BitVec.toNat_or, BitVec.toNat_shiftLeft, BitVec.toNat_ofNat, BitVec.toNat_ofNat, BitVec.toNat_ofNat,
    Nat.mod_eq_of_lt hk', Nat.mod_eq_of_lt (by omega : m < 2 ^ n), Nat.mod_eq_of_lt hroom, Nat.shiftLeft_eq,
    Nat.mod_eq_of_lt (by omega), ← Nat.shiftLeft_eq, Nat.shiftLeft_add_eq_or_of_lt hm]

/-- What is written for a number other than zero. -/
theorem toForm_eq (negative : Bool) (hn : 8 ≤ n) (hn' : n ≤ 1024) (hm : m ≠ 0) (hfits : Binary64.Fits m e)
    (hq : m * (2 : ℚ) ^ e = q) :
    (toForm (.finite negative m e) : Except FloatException (BitVec n)) =
      if 16 ^ (63 : Int) ≤ q then .error (.overflow negative)
      else if q < 16 ^ (-65 : Int) then .error (.underflow negative)
      else
        let form := BitVec.ofNat n
          ((hexExponent q + 64).toNat * 2 ^ (n - 8) + ⌊q * 16 ^ (-hexExponent q) * 2 ^ (n - 8)⌋₊)
        .ok (if negative then -form else form) := by
  have hpos : 0 < q := by rw [← hq]; positivity
  have hnumber : (Binary64.finite false m e).Holds q := ⟨m, e, rfl, hfits, hq⟩
  have hloops := normalise_eq negative hnumber hpos
  rw [toForm, classify, if_neg hm]
  dsimp only [bind, Except.bind]
  split at hloops
  · next hlarge => rw [hloops, if_pos hlarge]
  next hopen =>
  split at hloops
  · next hsmall => rw [hloops, if_neg hopen, if_pos hsmall]
  next hopen' =>
  obtain ⟨hlow, hhigh, fraction, hloops, hfraction, hlt⟩ := hloops
  have hplaces : (2 : ℚ) ^ ((n - 8 : Nat) : Int) = 2 ^ (n - 8) := zpow_natCast _ _
  have hrepresentable : Binary64.Representable (q * 16 ^ (-hexExponent q) * 2 ^ ((n - 8 : Nat) : Int)) := by
    obtain ⟨d, f, -, hfits, hvalue⟩ := hfraction
    have hd : d ≠ 0 := Binary64.significand_ne_zero hvalue (by positivity)
    have := Binary64.add_bitLength_le_of_lt (j := 0) hd (by rwa [hvalue, zpow_zero])
    have := hfits.low
    rw [← hvalue]
    exact hfits.representable (by omega) (by omega)
  have hdigits := (hfraction.mul_twoPow (by positivity) hrepresentable).saturated_eq n
  rw [hplaces] at hdigits
  have hbound : ⌊q * 16 ^ (-hexExponent q) * 2 ^ (n - 8)⌋₊ < 2 ^ (n - 8) := by
    rw [Nat.floor_lt (by positivity)]
    push_cast
    exact mul_lt_of_lt_one_left (by positivity) hlt
  have hroom : 2 ^ (n - 8) ≤ 2 ^ n := Nat.pow_le_pow_right (by decide) (by omega)
  rw [hloops, if_neg hopen, if_neg hopen']
  dsimp only
  rw [hdigits, Nat.one_shiftLeft, Nat.min_assoc, Nat.min_eq_left (by omega), shiftLeft_or hn (by omega) hbound]
  rfl

/-- The word with a sign and a magnitude. -/
def signedWord (negative : Bool) (x : Nat) : Word := if negative then -BitVec.ofNat 32 x else BitVec.ofNat 32 x

theorem signedWord_magnitude : signedWord w.msb (magnitude w).toNat = w := by
  rw [signedWord, magnitude, BitVec.ofNat_toNat, BitVec.setWidth_eq]
  split
  · exact BitVec.neg_neg
  · rfl

theorem magnitude_signedWord (hpos : 0 < x) (hlt : x < 0x80000000) :
    (signedWord negative x).msb = negative ∧ (magnitude (signedWord negative x)).toNat = x := by
  have hnat : (BitVec.ofNat 32 x).toNat = x := Nat.mod_eq_of_lt (Nat.lt_trans hlt (by decide))
  have hneg : (-BitVec.ofNat 32 x).toNat = 0x100000000 - x := by
    rw [BitVec.toNat_neg, hnat]
    omega
  have hmsb : (signedWord negative x).msb = negative := by
    rw [signedWord, BitVec.msb_eq_decide]
    cases negative with
    | true => rw [if_pos rfl, hneg]; exact decide_eq_true (by omega)
    | false => rw [if_neg Bool.false_ne_true, hnat]; exact decide_eq_false (by omega)
  refine ⟨hmsb, ?_⟩
  rw [magnitude, hmsb, signedWord]
  cases negative with
  | true => rw [if_pos rfl, if_pos rfl, BitVec.neg_neg, hnat]
  | false => rw [if_neg Bool.false_ne_true, if_neg Bool.false_ne_true, hnat]

/-! ### The value of what is written -/

/-- A word has the fields of which its magnitude is put together. -/
theorem fields_signedWord (negative : Bool) (hlow : -64 ≤ p) (hhigh : p ≤ 63) (hm : 0x100000 ≤ m) (hm' : m < 0x1000000) :
    let v := signedWord negative ((p + 64).toNat * 0x1000000 + m)
    v.msb = negative ∧ power v = p ∧ fraction v = m ∧ firstDigit v ≠ 0 := by
  intro v
  obtain ⟨hmsb, hmagnitude⟩ : v.msb = negative ∧ (magnitude v).toNat = (p + 64).toNat * 0x1000000 + m :=
    magnitude_signedWord (by omega) (by omega)
  have hne : v ≠ 0x80000000#32 := fun heq => by
    have hleast : (magnitude v).toNat = 0x80000000 := by rw [heq]; decide
    omega
  have hfraction : fraction v = m := by
    rw [fraction_eq, hmagnitude]
    omega
  refine ⟨hmsb, ?_, hfraction, ?_⟩
  · rw [power_eq hne, hmagnitude]
    omega
  · rw [firstDigit_eq, hfraction]
    omega

theorem value_of_fields {v : Word} (hmsb : v.msb = w.msb) (hk : k ≤ 5) (hpower : power v = power w + k - 5)
    (hfraction : fraction v = fraction w * 16 ^ (5 - k)) : value v = value w := by
  have hmoved : (16 : ℚ) ^ (5 - k) * 16 ^ (power w + k - 5) = 16 ^ power w := by
    rw [← zpow_natCast, ← zpow_add₀ (by norm_num)]
    congr 1
    omega
  rw [value, value, hmsb, hpower, hfraction, ← hmoved]
  push_cast
  ring

theorem value_eq_zero_iff : value w = 0 ↔ fraction w = 0 := by
  rw [← abs_eq_zero, abs_value, mul_eq_zero, or_iff_left (zpow_ne_zero _ (by norm_num)), div_eq_zero_iff,
    or_iff_left (by norm_num), Nat.cast_eq_zero]

/-- The value of a word by the place of its first digit that is not zero. -/
theorem abs_value_bounds (hfraction : fraction w ≠ 0) :
    (16 : ℚ) ^ (power w + Nat.log 16 (fraction w) - 5 - 1) ≤ |value w| ∧
      |value w| < 16 ^ (power w + Nat.log 16 (fraction w) - 5) := by
  have hlow := Nat.pow_log_le_self 16 hfraction
  have hhigh := Nat.lt_pow_succ_log_self (b := 16) (by decide) (fraction w)
  generalize Nat.log 16 (fraction w) = k at hlow hhigh ⊢
  have hlow' : (16 : ℚ) ^ (k : Int) ≤ fraction w := by
    rw [zpow_natCast]
    exact_mod_cast hlow
  have hhigh' : (fraction w : ℚ) < 16 ^ ((k : Int) + 1) := by
    rw [← Int.natCast_succ, zpow_natCast]
    exact_mod_cast hhigh
  have hunit : (0x1000000 : ℚ) = 16 ^ (6 : Int) := by norm_num
  have hplace : |value w| = fraction w * (16 : ℚ) ^ (power w - 6) := by
    rw [abs_value, hunit, zpow_sub₀ (by norm_num)]
    ring
  have hpos : (0 : ℚ) < 16 ^ (power w - 6) := by positivity
  have hfirst : power w + k - 5 - 1 = k + (power w - 6) := by omega
  have hnext : power w + k - 5 = k + 1 + (power w - 6) := by omega
  rw [hplace, hfirst, hnext, zpow_add₀ (by norm_num), zpow_add₀ (by norm_num)]
  exact ⟨mul_le_mul_of_nonneg_right hlow' hpos.le, mul_lt_mul_of_pos_right hhigh' hpos⟩

/-- Whether a number is too close to zero is told by the place of its first digit. -/
theorem abs_value_lt_iff (hfraction : fraction w ≠ 0) :
    |value w| < (16 : ℚ) ^ (-65 : Int) ↔ power w < 5 - Nat.log 16 (fraction w) - 64 := by
  obtain ⟨hlow, hhigh⟩ := abs_value_bounds hfraction
  constructor
  · intro hlt
    have := (zpow_lt_zpow_iff_right₀ (by norm_num)).mp (hlow.trans_lt hlt)
    omega
  · intro hlt
    exact hhigh.trans_le (zpow_le_zpow_right₀ (by norm_num) (by omega))

/-- What comes of a word with a fraction other than zero, by the place of the first digit that is not zero. -/
theorem toWord_ofWord_eq (h : w ≠ 0x80000000#32) (hfraction : fraction w ≠ 0) :
    toWord (ofWord w) =
      if power w < 5 - Nat.log 16 (fraction w) - 64 then .error (.underflow w.msb)
      else .ok (signedWord w.msb ((power w + Nat.log 16 (fraction w) + 59).toNat * 0x1000000 +
        fraction w * 16 ^ (5 - Nat.log 16 (fraction w)))) := by
  obtain ⟨m, e, hread, hfits, hvalue⟩ := ofWord_eq h hfraction
  obtain ⟨hlow, hhigh⟩ := abs_value_bounds hfraction
  have hdigits : Nat.log 16 (fraction w) < 6 := Nat.log_lt_of_lt_pow hfraction fraction_lt
  have hpower := power_eq h
  have hmagnitude := toNat_magnitude_lt h
  have hsmall : |value w| < 16 ^ (63 : Int) := hhigh.trans_le (zpow_le_zpow_right₀ (by norm_num) (by omega))
  have hm : m ≠ 0 := Binary64.significand_ne_zero hvalue (lt_of_lt_of_le (by positivity) hlow)
  have hplace : power w + Nat.log 16 (fraction w) - 5 + 64 = power w + Nat.log 16 (fraction w) + 59 := by omega
  -- The digits move up to the first place, and there are no others below them.
  have hmoved : |value w| * 16 ^ (-(power w + Nat.log 16 (fraction w) - 5)) * 2 ^ 24 =
      (fraction w * 16 ^ (5 - Nat.log 16 (fraction w)) : Nat) := by
    have hmove : (16 : ℚ) ^ power w * 16 ^ (-(power w + Nat.log 16 (fraction w) - 5)) =
        16 ^ (5 - Nat.log 16 (fraction w)) := by
      rw [← zpow_add₀ (by norm_num), ← zpow_natCast]
      congr 1
      omega
    push_cast
    rw [abs_value, ← hmove]
    ring
  have hwritten := toForm_eq w.msb (n := 32) (by decide) (by decide) hm hfits hvalue
  rw [if_neg (not_le.mpr hsmall), hexExponent_eq hlow hhigh, hmoved, Nat.floor_natCast, hplace] at hwritten
  rw [hread, toWord, hwritten]
  simp only [abs_value_lt_iff hfraction]
  rfl

/-- A word of which the value is not too close to zero comes back as a word of that value, normalised. -/
theorem toWord_ofWord_of_le (h : w ≠ 0x80000000#32) (hfraction : fraction w ≠ 0)
    (hle : (16 : ℚ) ^ (-65 : Int) ≤ |value w|) :
    ∃ v, toWord (ofWord w) = .ok v ∧ value v = value w ∧ firstDigit v ≠ 0 := by
  have hopen := (abs_value_lt_iff hfraction).not.mp (not_lt.mpr hle)
  have hdigits : Nat.log 16 (fraction w) < 6 := Nat.log_lt_of_lt_pow hfraction fraction_lt
  have hlow := Nat.pow_log_le_self 16 hfraction
  have hhigh := Nat.lt_pow_succ_log_self (b := 16) (by decide) (fraction w)
  have hwritten := toWord_ofWord_eq h hfraction
  rw [if_neg hopen] at hwritten
  have hpower := power_eq h
  have hmagnitude := toNat_magnitude_lt h
  generalize Nat.log 16 (fraction w) = k at hopen hdigits hlow hhigh hwritten
  -- The digits of the fraction move up until the first of them is not zero.
  have hfirst : 0x100000 ≤ fraction w * 16 ^ (5 - k) :=
    calc 0x100000 = 16 ^ 5 := by norm_num
      _ = 16 ^ k * 16 ^ (5 - k) := by rw [← pow_add, Nat.add_sub_cancel' (by omega)]
      _ ≤ fraction w * 16 ^ (5 - k) := Nat.mul_le_mul_right _ hlow
  have hlast : fraction w * 16 ^ (5 - k) < 0x1000000 :=
    calc fraction w * 16 ^ (5 - k) < 16 ^ (k + 1) * 16 ^ (5 - k) := Nat.mul_lt_mul_of_pos_right hhigh (by positivity)
      _ = 16 ^ 6 := by rw [← pow_add, show k + 1 + (5 - k) = 6 by omega]
      _ = 0x1000000 := by norm_num
  have hplace : power w + k + 59 = power w + k - 5 + 64 := by omega
  rw [hplace] at hwritten
  obtain ⟨hmsb, hpower', hfraction', hdigit⟩ :=
    fields_signedWord w.msb (p := power w + k - 5) (by omega) (by omega) hfirst hlast
  exact ⟨_, hwritten, value_of_fields hmsb (by omega) hpower' hfraction', hdigit⟩

/-- A word with a first digit other than zero comes back as it was. -/
theorem toWord_ofWord_of_firstDigit (h : w ≠ 0x80000000#32) (hdigit : firstDigit w ≠ 0) :
    toWord (ofWord w) = .ok w := by
  rw [firstDigit_eq] at hdigit
  have hlt : fraction w < 0x1000000 := fraction_lt
  have hfraction : fraction w ≠ 0 := by omega
  have hlog : Nat.log 16 (fraction w) = 5 := Nat.log_eq_of_pow_le_of_lt_pow (by omega) (by omega)
  have hpower := power_eq h
  have hmagnitude : (power w + (5 : Nat) + 59).toNat * 0x1000000 + fraction w * 16 ^ (5 - 5) = (magnitude w).toNat := by
    rw [fraction_eq]
    omega
  rw [toWord_ofWord_eq h hfraction, hlog, if_neg (by omega), hmagnitude, signedWord_magnitude]

theorem toWord_ofWord_of_fraction (h : w ≠ 0x80000000#32) (hfraction : fraction w = 0) :
    toWord (ofWord w) = .ok 0 := by
  obtain ⟨negative, e, hread⟩ := ofWord_of_fraction h hfraction
  rw [hread]
  rfl

theorem msb_iff_value_lt (hfraction : fraction w ≠ 0) : w.msb = true ↔ value w < 0 := by
  have hpos : (0 : ℚ) < fraction w / 0x1000000 * 16 ^ power w := by positivity
  rw [value]
  split
  · next hmsb => exact iff_of_true hmsb (by linarith)
  · next hmsb => exact iff_of_false hmsb (by linarith)

/-! ### Negative numbers -/

/-- What is written for a number, turned into what is to be written for its negative. -/
def opposite : Except FloatException Word → Except FloatException Word
  | .ok v => .ok (-v)
  | .error (.overflow negative) => .error (.overflow !negative)
  | .error (.underflow negative) => .error (.underflow !negative)

theorem toWord_neg (hm : m ≠ 0) (hfits : Binary64.Fits m e) :
    toWord (.finite (!negative) m e) = opposite (toWord (.finite negative m e)) := by
  rw [toWord, toWord, toForm_eq _ (by decide) (by decide) hm hfits rfl, toForm_eq _ (by decide) (by decide) hm hfits rfl]
  dsimp only
  split
  · rfl
  split
  · rfl
  cases negative with
  | true => exact congrArg Except.ok (BitVec.neg_neg (x := _)).symm
  | false => rfl

/-! ### The round trip -/

/-- Every word but the one without a positive counterpart is read exactly. If its first fraction digit is not zero it comes
back as it was; otherwise it comes back normalised, with the same value, unless that is too close to zero, and then it is
an underflow with its sign. The negative of the number is written as the complement. -/
theorem word_round_trip (h : w ≠ 0x80000000#32) :
    (ofWord w).value? = some (value w) ∧
    (firstDigit w ≠ 0 → toWord (ofWord w) = .ok w) ∧
    (value w = 0 ∨ (16 : ℚ) ^ (-65 : Int) ≤ |value w| →
      ∃ v, toWord (ofWord w) = .ok v ∧ value v = value w ∧ (v = 0 ∨ firstDigit v ≠ 0)) ∧
    (value w ≠ 0 → |value w| < (16 : ℚ) ^ (-65 : Int) →
      ∃ negative, toWord (ofWord w) = .error (.underflow negative) ∧ (negative = true ↔ value w < 0)) ∧
    toWord (ofWord w).neg = opposite (toWord (ofWord w)) := by
  refine ⟨value_ofWord h, toWord_ofWord_of_firstDigit h, fun hlarge => ?_, fun hne hsmall => ?_, ?_⟩
  · by_cases hfraction : fraction w = 0
    · have hvalue := value_eq_zero_iff.mpr hfraction
      exact ⟨0, toWord_ofWord_of_fraction h hfraction, (value_eq_zero_iff.mpr (by decide)).trans hvalue.symm, .inl rfl⟩
    · have hle := hlarge.resolve_left (value_eq_zero_iff.not.mpr hfraction)
      obtain ⟨v, hwritten, hvalue, hdigit⟩ := toWord_ofWord_of_le h hfraction hle
      exact ⟨v, hwritten, hvalue, .inr hdigit⟩
  · have hfraction := value_eq_zero_iff.not.mp hne
    have hunder := (abs_value_lt_iff hfraction).mp hsmall
    refine ⟨w.msb, ?_, msb_iff_value_lt hfraction⟩
    rw [toWord_ofWord_eq h hfraction, if_pos hunder]
  · by_cases hfraction : fraction w = 0
    · obtain ⟨negative, e, hread⟩ := ofWord_of_fraction h hfraction
      rw [hread]
      rfl
    · obtain ⟨m, e, hread, hfits, hvalue⟩ := ofWord_eq h hfraction
      have hm : m ≠ 0 := Binary64.significand_ne_zero hvalue (abs_pos.mpr (value_eq_zero_iff.not.mpr hfraction))
      rw [hread]
      exact toWord_neg hm hfits

/-- A negative number with its first five fraction digits zero. -/
theorem word_round_trip_unnormalised :
    0xBFFFFFFF#32 ≠ 0x80000000#32 ∧ toWord (ofWord 0xBFFFFFFF#32) = .ok 0xC4F00000#32 ∧
      value 0xC4F00000#32 = value 0xBFFFFFFF#32 ∧ toWord (ofWord 0xBFFFFFFF#32).neg = .ok 0x3B100000#32 := by
  have hne : 0xBFFFFFFF#32 ≠ 0x80000000#32 := by decide
  have hpower : power 0xBFFFFFFF#32 = 0 := by decide
  have hfraction : fraction 0xBFFFFFFF#32 = 1 := by decide
  have hwritten : toWord (ofWord 0xBFFFFFFF#32) = .ok 0xC4F00000#32 := by
    rw [toWord_ofWord_eq hne (by rw [hfraction]; decide), hpower, hfraction, Nat.log_one_right]
    rfl
  obtain ⟨-, -, hlarge, -, hneg⟩ := word_round_trip hne
  have hle : (16 : ℚ) ^ (-65 : Int) ≤ |value 0xBFFFFFFF#32| := by
    rw [abs_value, hpower, hfraction]
    norm_num
  obtain ⟨v, hv, hvalue, -⟩ := hlarge (.inr hle)
  cases hwritten.symm.trans hv
  exact ⟨hne, hwritten, hvalue, hneg.trans (by rw [hwritten]; rfl)⟩

end Hexadecimal
end Concept32
