import Concept32.Instructions.Shifts
import Concept32.Proofs.Signed
import Concept32.Proofs.Words

/-!
# Shifts as arithmetic

All shifts are done by one routine, in a container of 64 bits of which a shorter value has the low ones; it comes to the
shifts of bit vectors. A shift multiplies or divides by a power of two. To the right an arithmetic shift divides the
signed number and rounds down; to the left it multiplies, if the product fits. A logical shift does the same with the
number without a sign, cut to the width. What a circular shift moves out at one end it moves in at the other.
-/

namespace Concept32

/-- What a shift of a value by a number of places is to come to, with its overflow. -/
def Shift.Means {n : Nat} (shift : Shift) (v : BitVec n) (count : Nat) (result : BitVec n × Bool) : Prop :=
  match shift.kind, shift.left with
  | .arithmetic, true =>
    result.1.msb = v.msb ∧ (result.2 = true ↔ ¬FitsSigned n (v.toInt * Int.pow 2 count)) ∧
      (result.2 = false → result.1.toInt = v.toInt * Int.pow 2 count)
  | .arithmetic, false => result.1.toInt = v.toInt / Int.pow 2 count ∧ result.2 = false
  | .logical, true => result.1.toNat = v.toNat * Nat.pow 2 count % Nat.pow 2 n ∧ result.2 = false
  | .logical, false => result.1.toNat = v.toNat / Nat.pow 2 count ∧ result.2 = false
  | .circular, true =>
    result.1.toNat = v.toNat * Nat.pow 2 count % Nat.pow 2 n + v.toNat / Nat.pow 2 (n - count) ∧ result.2 = false
  | .circular, false =>
    result.1.toNat = v.toNat / Nat.pow 2 count + v.toNat * Nat.pow 2 (n - count) % Nat.pow 2 n ∧ result.2 = false

/-- A shift in terms of the shifts of bit vectors. What an arithmetic shift to the left loses is told by shifting it
back. -/
def Shift.direct {n : Nat} (s : Shift) (v : BitVec n) (count : Nat) : BitVec n × Bool :=
  match s.kind, s.left with
  | .logical, true => (v <<< count, false)
  | .logical, false => (v >>> count, false)
  | .circular, true => (v.rotateLeft count, false)
  | .circular, false => (v.rotateRight count, false)
  | .arithmetic, false => (v.sshiftRight count, false)
  | .arithmetic, true => (replaceBits (v <<< count) (BitVec.intMin n) v, (v <<< count).sshiftRight count != v)

section
variable {n count : Nat} {v : BitVec n}

/-! ### Arithmetic shifts -/

theorem toInt_sshiftRight_eq : (v.sshiftRight count).toInt = v.toInt / Int.pow 2 count := by
  rw [BitVec.toInt_sshiftRight, Int.shiftRight_eq_div_pow, Int.natCast_pow]
  rfl

/-- A shift to the left is the product, cut to the width. -/
theorem shiftLeft_eq_ofInt : v <<< count = BitVec.ofInt n (v.toInt * Int.pow 2 count) := by
  have hpower : BitVec.twoPow n count = BitVec.ofInt n (Int.pow 2 count) := by
    have hcast : Int.pow 2 count = ((2 ^ count : Nat) : Int) := (Int.natCast_pow 2 count).symm
    rw [hcast, BitVec.ofInt_natCast]
    exact BitVec.eq_of_toNat_eq (by rw [BitVec.toNat_twoPow, BitVec.toNat_ofNat])
  rw [BitVec.shiftLeft_eq_mul_twoPow, hpower, BitVec.ofInt_mul, BitVec.ofInt_toInt]

/-- A product that fits is not lost when it is shifted back, and any other is. -/
theorem shiftLeft_back_iff (hcount : count < n) :
    (v <<< count).sshiftRight count = v ↔ FitsSigned n (v.toInt * Int.pow 2 count) := by
  have hpositive : 0 < Int.pow 2 count := Int.pow_pos (by decide)
  rw [← BitVec.toInt_inj, toInt_sshiftRight_eq, shiftLeft_eq_ofInt]
  constructor
  · intro hback
    -- What the width has cut off is a multiple of the power, so nothing has been cut off.
    have hdvd : Int.pow 2 count ∣ (BitVec.ofInt n (v.toInt * Int.pow 2 count)).toInt := by
      have hwidth : Int.pow 2 count ∣ ((2 ^ n : Nat) : Int) := by
        have hpower := Int.natCast_dvd_natCast.mpr (Nat.pow_dvd_pow 2 (Nat.le_of_lt hcount))
        rwa [Int.natCast_pow 2 count] at hpower
      rw [BitVec.toInt_ofInt, (Int.dvd_add_left (Int.dvd_mul_of_dvd_left hwidth)).symm, Int.bmod_add_bdiv]
      exact Int.dvd_mul_left ..
    have hexact := Int.ediv_mul_cancel hdvd
    rw [hback] at hexact
    rw [hexact]
    exact fits_toInt
  · intro hfits
    rw [toInt_ofInt_of_fits (Nat.zero_lt_of_lt hcount) hfits, Int.mul_ediv_cancel _ (Int.ne_of_gt hpositive)]

/-- The sign is that of the value which it is taken from. -/
theorem msb_replaceBits_intMin {w : BitVec n} (hn : 0 < n) : (replaceBits w (BitVec.intMin n) v).msb = v.msb := by
  rw [BitVec.msb_eq_getLsbD_last, BitVec.msb_eq_getLsbD_last, getLsbD_replaceBits, BitVec.getLsbD_intMin,
    decide_eq_true (Nat.sub_add_cancel hn), if_pos rfl]

/-- A sign that is the same already is not replaced. -/
theorem replaceBits_intMin_of_msb {w : BitVec n} (h : w.msb = v.msb) : replaceBits w (BitVec.intMin n) v = w := by
  refine BitVec.eq_of_getLsbD_eq fun k hk => ?_
  rw [getLsbD_replaceBits, BitVec.getLsbD_intMin]
  split
  · next hlast =>
    have hk : k = n - 1 := by
      have := of_decide_eq_true hlast
      omega
    rw [hk, ← BitVec.msb_eq_getLsbD_last, ← BitVec.msb_eq_getLsbD_last, h]
  · rfl

/-- Nothing is lost, so the sign is that of the product. -/
theorem toInt_arithmeticLeft (hcount : count < n) (hback : (v <<< count).sshiftRight count = v) :
    (replaceBits (v <<< count) (BitVec.intMin n) v).toInt = v.toInt * Int.pow 2 count := by
  have hsign : (v <<< count).msb = v.msb := by rw [← BitVec.msb_sshiftRight (x := v <<< count), hback]
  rw [replaceBits_intMin_of_msb hsign, shiftLeft_eq_ofInt,
    toInt_ofInt_of_fits (Nat.zero_lt_of_lt hcount) ((shiftLeft_back_iff hcount).mp hback)]

/-! ### Circular shifts -/

/-- What goes out at one end and what stays have no bits in common. -/
theorem shifted_or_shifted {a b : Nat} (h : a + b = n) :
    v.toNat <<< a % Nat.pow 2 n ||| v.toNat >>> b = v.toNat * Nat.pow 2 a % Nat.pow 2 n + v.toNat / Nat.pow 2 b := by
  have hout : v.toNat >>> b < 2 ^ a := by
    rw [Nat.shiftRight_eq_div_pow, Nat.div_lt_iff_lt_mul (Nat.two_pow_pos b), ← Nat.pow_add, h]
    exact v.isLt
  have hstays : v.toNat <<< a % Nat.pow 2 n = (v.toNat % 2 ^ b) <<< a := by
    have hwidth : Nat.pow 2 n = 2 ^ b * 2 ^ a := by
      rw [← h, Nat.add_comm]
      exact Nat.pow_add 2 b a
    rw [Nat.shiftLeft_eq, Nat.shiftLeft_eq, hwidth, Nat.mul_mod_mul_right]
  rw [hstays, ← Nat.shiftLeft_add_eq_or_of_lt hout, ← hstays, Nat.shiftLeft_eq, Nat.shiftRight_eq_div_pow]
  rfl

/-- To the left is to the right the rest of the way round. -/
theorem rotateLeft_eq_rotateRight (hpositive : 0 < count) (hcount : count < n) :
    v.rotateLeft count = v.rotateRight (n - count) := by
  rw [BitVec.rotateLeft_def, BitVec.rotateRight_def, Nat.mod_eq_of_lt hcount, Nat.mod_eq_of_lt (by omega),
    Nat.sub_sub_self (Nat.le_of_lt hcount), BitVec.or_comm]

theorem rotateRight_rotateLeft : (v.rotateLeft count).rotateRight count = v := by
  refine BitVec.eq_of_getLsbD_eq fun k hk => ?_
  have hlt : count % n < n := Nat.mod_lt _ (Nat.zero_lt_of_lt hk)
  rw [BitVec.getLsbD_rotateRight]
  by_cases hstays : k < n - count % n
  · rw [decide_eq_true hstays, cond_true, BitVec.getLsbD_rotateLeft, decide_eq_false (by omega), cond_false,
      decide_eq_true (by omega), Bool.true_and, Nat.add_sub_cancel_left]
  · rw [decide_eq_false hstays, cond_false, decide_eq_true hk, Bool.true_and, BitVec.getLsbD_rotateLeft,
      decide_eq_true (by omega), cond_true, Nat.add_sub_cancel' (Nat.le_of_not_lt hstays)]

theorem rotateLeft_rotateRight : (v.rotateRight count).rotateLeft count = v := by
  refine BitVec.eq_of_getLsbD_eq fun k hk => ?_
  have hlt : count % n < n := Nat.mod_lt _ (Nat.zero_lt_of_lt hk)
  rw [BitVec.getLsbD_rotateLeft]
  by_cases hout : k < count % n
  · rw [decide_eq_true hout, cond_true, BitVec.getLsbD_rotateRight, decide_eq_false (by omega), cond_false,
      decide_eq_true (by omega), Bool.true_and, Nat.add_sub_cancel_left]
  · rw [decide_eq_false hout, cond_false, decide_eq_true hk, Bool.true_and, BitVec.getLsbD_rotateRight,
      decide_eq_true (by omega), cond_true, Nat.add_sub_cancel' (Nat.le_of_not_lt hout)]

/-! ### The container -/

namespace Shift
variable {k : Nat} {shift : Shift}

/-- The part of a container in which a value lies. -/
theorem mask_eq (hn : n ≤ 64) : mask n = (BitVec.allOnes n).setWidth 64 := by
  rw [mask]
  split
  · next hfull =>
    subst hfull
    rw [BitVec.setWidth_eq]
  · next hpart =>
    have hlt : n < 64 := Nat.lt_of_le_of_ne hn hpart
    have hpower : (1#64 <<< n).toNat = 2 ^ n := by rw [← BitVec.twoPow_eq, BitVec.toNat_twoPow_of_lt hlt]
    have hne : 1#64 <<< n ≠ 0 := fun hzero => by
      rw [hzero] at hpower
      exact Nat.ne_of_lt (Nat.two_pow_pos n) hpower
    have hnat := toNat_sub_one hne
    rw [hpower] at hnat
    refine BitVec.eq_of_toNat_eq ?_
    rw [Nat.eq_sub_of_add_eq hnat, BitVec.toNat_setWidth, BitVec.toNat_allOnes, Nat.mod_eq_of_lt]
    exact Nat.lt_of_le_of_lt (Nat.sub_le _ 1) (Nat.pow_lt_pow_right Nat.one_lt_two hlt)

theorem setWidth_container (hn : n ≤ 64) : (v.setWidth 64).setWidth n = v := by
  rw [BitVec.setWidth_setWidth_of_le v hn, BitVec.setWidth_eq]

theorem setWidth_mask (hn : n ≤ 64) : (mask n).setWidth n = BitVec.allOnes n := by
  rw [mask_eq hn, setWidth_container hn]

theorem setWidth_and_mask {c : Double} (hn : n ≤ 64) : (c &&& mask n).setWidth n = c.setWidth n := by
  rw [BitVec.setWidth_and, setWidth_mask hn, BitVec.and_allOnes]

theorem container_and_mask (hn : n ≤ 64) : v.setWidth 64 &&& mask n = v.setWidth 64 := by
  rw [mask_eq hn, ← BitVec.setWidth_and, BitVec.and_allOnes]

theorem setWidth_shiftLeft (hn : n ≤ 64) : (v.setWidth 64 <<< k).setWidth n = v <<< k := by
  rw [BitVec.setWidth_shiftLeft_of_le hn, setWidth_container hn]

theorem setWidth_shiftRight (hn : n ≤ 64) : (v.setWidth 64 >>> k).setWidth n = v >>> k := by
  rw [← BitVec.setWidth_ushiftRight hn, setWidth_container hn]

theorem setWidth_signBit (hn : n ≤ 64) : (1#64 <<< (n - 1)).setWidth n = BitVec.intMin n := by
  rw [BitVec.setWidth_shiftLeft_of_le hn, BitVec.setWidth_ofNat_of_le hn, ← BitVec.twoPow_eq]
  rfl

theorem hasAny_signBit (hn : n ≤ 64) (hpos : 0 < n) : hasAny (v.setWidth 64) (1#64 <<< (n - 1)) = v.msb := by
  rw [← BitVec.twoPow_eq, hasAny_twoPow (by omega), BitVec.getLsbD_setWidth, decide_eq_true (by omega), Bool.true_and,
    BitVec.msb_eq_getLsbD_last]

/-- The places that a shift to the right empties. -/
theorem mask_and_not (hn : n ≤ 64) :
    mask n &&& ~~~(mask n >>> k) = (~~~(BitVec.allOnes n >>> k)).setWidth 64 := by
  rw [mask_eq hn, ← BitVec.setWidth_ushiftRight hn]
  refine BitVec.eq_of_getLsbD_eq fun j hj => ?_
  simp only [BitVec.getLsbD_and, BitVec.getLsbD_not, BitVec.getLsbD_setWidth, BitVec.getLsbD_allOnes, decide_eq_true hj,
    Bool.true_and]

/-- An arithmetic shift to the right fills those places with the sign. -/
theorem fill_eq : v >>> k ||| (if v.msb then ~~~(BitVec.allOnes n >>> k) else 0#n) = v.sshiftRight k := by
  cases hsign : v.msb with
  | false => rw [if_neg Bool.false_ne_true, BitVec.sshiftRight_eq_of_msb_false hsign, BitVec.or_zero]
  | true =>
    rw [if_pos rfl, BitVec.sshiftRight_eq_of_msb_true hsign]
    refine BitVec.eq_of_getLsbD_eq fun j hj => ?_
    simp only [BitVec.getLsbD_or, BitVec.getLsbD_not, BitVec.getLsbD_ushiftRight, BitVec.getLsbD_allOnes,
      decide_eq_true hj, Bool.true_and]
    by_cases hin : k + j < n
    · rw [decide_eq_true hin, Bool.true_and, Bool.not_not, Bool.not_true, Bool.or_false]
    · rw [decide_eq_false hin, Bool.false_and, Bool.not_false, Bool.or_true]

/-- The first places, one more than those that a shift to the left moves out, all hold the sign. -/
theorem examined_iff :
    v &&& ~~~(BitVec.allOnes n >>> (k + 1)) = (if v.msb then ~~~(BitVec.allOnes n >>> (k + 1)) else 0#n) ↔
      ∀ j < n, n ≤ j + k + 1 → v.getLsbD j = v.msb := by
  have hbit : ∀ j < n, (~~~(BitVec.allOnes n >>> (k + 1))).getLsbD j = decide (n ≤ j + k + 1) := fun j hj => by
    rw [BitVec.getLsbD_not, BitVec.getLsbD_ushiftRight, BitVec.getLsbD_allOnes, decide_eq_true hj, Bool.true_and,
      ← decide_not, decide_eq_decide]
    omega
  have hexpected : ∀ j < n, (if v.msb then ~~~(BitVec.allOnes n >>> (k + 1)) else 0#n).getLsbD j =
      (v.msb && decide (n ≤ j + k + 1)) := fun j hj => by
    cases v.msb with
    | false => exact BitVec.getLsbD_zero
    | true => rw [if_pos rfl, hbit j hj, Bool.true_and]
  constructor
  · intro h j hj hout
    have heq := congrArg (fun w => w.getLsbD j) h
    rwa [BitVec.getLsbD_and, hbit j hj, hexpected j hj, decide_eq_true hout, Bool.and_true, Bool.and_true] at heq
  · intro h
    refine BitVec.eq_of_getLsbD_eq fun j hj => ?_
    rw [BitVec.getLsbD_and, hbit j hj, hexpected j hj]
    by_cases hout : n ≤ j + k + 1
    · rw [h j hj hout]
    · rw [decide_eq_false hout, Bool.and_false, Bool.and_false]

/-- They do if shifting back brings back what there was. -/
theorem shiftLeft_back_iff_msb (hk : k < n) :
    (v <<< k).sshiftRight k = v ↔ ∀ j < n, n ≤ j + k + 1 → v.getLsbD j = v.msb := by
  have hnext : (v <<< k).msb = v.getLsbD (n - 1 - k) := by
    rw [BitVec.msb_eq_getLsbD_last, BitVec.getLsbD_shiftLeft, decide_eq_true (by omega), decide_eq_false (by omega)]
    rfl
  have hbit : ∀ j < n, ((v <<< k).sshiftRight k).getLsbD j = if k + j < n then v.getLsbD j else v.getLsbD (n - 1 - k) :=
    fun j hj => by
      rw [BitVec.getLsbD_sshiftRight, decide_eq_false (by omega), hnext]
      split
      · next hin =>
        rw [BitVec.getLsbD_shiftLeft, decide_eq_true hin, decide_eq_false (by omega), Nat.add_sub_cancel_left]
        rfl
      · rfl
  rw [BitVec.msb_eq_getLsbD_last]
  constructor
  · intro h
    have hmoved : ∀ j < n, n ≤ j + k → v.getLsbD j = v.getLsbD (n - 1 - k) := fun j hj hout => by
      have heq := hbit j hj
      rwa [h, if_neg (by omega)] at heq
    intro j hj hout
    -- The first place that stays is compared with the sign by way of the places that go.
    rcases Nat.eq_or_lt_of_le hout with hfirst | hgone
    · rcases Nat.eq_zero_or_pos k with rfl | hpositive
      · rw [show j = n - 1 by omega]
      · rw [show j = n - 1 - k by omega, hmoved (n - 1) (by omega) (by omega)]
    · rw [hmoved j hj (by omega), hmoved (n - 1) (by omega) (by omega)]
  · intro h
    refine BitVec.eq_of_getLsbD_eq fun j hj => ?_
    rw [hbit j hj]
    split
    · rfl
    · rw [h j hj (by omega), h (n - 1 - k) (by omega) (by omega)]

theorem direct_zero : shift.direct v 0 = (v, false) := by
  obtain ⟨kind, double, left⟩ := shift
  cases kind with
  | logical =>
    cases left with
    | true => exact Prod.ext (BitVec.shiftLeft_zero v) rfl
    | false => exact Prod.ext (BitVec.ushiftRight_zero v) rfl
  | circular =>
    cases left with
    | true =>
      refine Prod.ext ?_ rfl
      show v.rotateLeft 0 = v
      rw [BitVec.rotateLeft_def, Nat.zero_mod, BitVec.shiftLeft_zero, Nat.sub_zero,
        BitVec.ushiftRight_eq_zero (Nat.le_refl n), BitVec.or_zero]
    | false =>
      refine Prod.ext ?_ rfl
      show v.rotateRight 0 = v
      rw [BitVec.rotateRight_def, Nat.zero_mod, BitVec.ushiftRight_zero, Nat.sub_zero,
        BitVec.shiftLeft_eq_zero (Nat.le_refl n), BitVec.or_zero]
  | arithmetic =>
    cases left with
    | true =>
      have hkept : v <<< 0 = v := BitVec.shiftLeft_zero v
      refine Prod.ext ((replaceBits_intMin_of_msb (congrArg BitVec.msb hkept)).trans hkept) ?_
      show ((v <<< 0).sshiftRight 0 != v) = false
      rw [hkept, BitVec.sshiftRight_zero, bne_self_eq_false]
    | false => exact Prod.ext BitVec.sshiftRight_zero rfl

/-- Where a container has the sign, or else nothing. -/
theorem filled_eq (hn : n ≤ 64) : (if v.msb then mask n &&& ~~~(mask n >>> k) else 0) =
    (if v.msb then ~~~(BitVec.allOnes n >>> k) else 0#n).setWidth 64 := by
  cases v.msb with
  | false => exact (BitVec.setWidth_zero ..).symm
  | true => exact mask_and_not hn

/-- A shift to the left overflows in its container when shifting back tells so. -/
theorem overflowed_eq (hn : n ≤ 64) (hk : k < n) :
    (v.setWidth 64 &&& (mask n &&& ~~~(mask n >>> (k + 1))) !=
      if v.msb then mask n &&& ~~~(mask n >>> (k + 1)) else 0) = ((v <<< k).sshiftRight k != v) := by
  have hinjective : ∀ a b : BitVec n, a.setWidth 64 = b.setWidth 64 ↔ a = b := fun a b =>
    ⟨fun h => by rw [← setWidth_container (v := a) hn, h, setWidth_container hn], fun h => h ▸ rfl⟩
  rw [Bool.eq_iff_iff, bne_iff_ne, bne_iff_ne, Ne, Ne, shiftLeft_back_iff_msb hk, ← examined_iff, filled_eq hn,
    mask_and_not hn, ← BitVec.setWidth_and, hinjective]

/-- The shifts in the container are the shifts of bit vectors. -/
theorem apply_eq_direct (hn : n ≤ 64) (hcount : count < n) : shift.apply v count = shift.direct v count := by
  rw [apply, inContainer]
  dsimp only
  rw [container_and_mask hn, hasAny_signBit hn (Nat.zero_lt_of_lt hcount)]
  split
  · next hzero =>
    rw [hzero, direct_zero]
    exact Prod.ext (setWidth_container hn) rfl
  · obtain ⟨kind, double, left⟩ := shift
    cases kind with
    | logical =>
      cases left with
      | true => exact Prod.ext ((setWidth_and_mask hn).trans (setWidth_shiftLeft hn)) rfl
      | false => exact Prod.ext (setWidth_shiftRight hn) rfl
    | circular =>
      cases left with
      | true =>
        refine Prod.ext ((setWidth_and_mask hn).trans ?_) rfl
        rw [BitVec.setWidth_or, setWidth_shiftLeft hn, setWidth_shiftRight hn]
        exact (BitVec.rotateLeft_eq_rotateLeftAux_of_lt hcount).symm
      | false =>
        refine Prod.ext ((setWidth_and_mask hn).trans ?_) rfl
        rw [BitVec.setWidth_or, setWidth_shiftLeft hn, setWidth_shiftRight hn]
        exact (BitVec.rotateRight_eq_rotateRightAux_of_lt hcount).symm
    | arithmetic =>
      cases left with
      | true =>
        refine Prod.ext ?_ (overflowed_eq hn hcount)
        show (_ ||| _ : Double).setWidth n = _
        rw [BitVec.setWidth_or, BitVec.setWidth_and, setWidth_and_mask hn, setWidth_shiftLeft hn, BitVec.setWidth_not hn,
          BitVec.setWidth_and, setWidth_signBit hn, setWidth_container hn]
        rfl
      | false =>
        refine Prod.ext ?_ rfl
        show (_ ||| ite _ _ _ : Double).setWidth n = _
        rw [filled_eq hn, BitVec.setWidth_or, setWidth_shiftRight hn, setWidth_container hn]
        exact fill_eq

end Shift

/-! ### All shifts -/

theorem Shift.means_direct (shift : Shift) (hcount : count < n) : shift.Means v count (shift.direct v count) := by
  have hn : 0 < n := Nat.zero_lt_of_lt hcount
  obtain ⟨kind, double, left⟩ := shift
  cases kind with
  | arithmetic =>
    cases left with
    | true =>
      refine ⟨msb_replaceBits_intMin hn, ?_, fun hkept => ?_⟩
      · show ((v <<< count).sshiftRight count != v) = true ↔ _
        rw [bne_iff_ne, ne_eq, shiftLeft_back_iff hcount]
      · exact toInt_arithmeticLeft hcount (bne_eq_false_iff_eq.mp hkept)
    | false => exact ⟨toInt_sshiftRight_eq, rfl⟩
  | logical =>
    cases left with
    | true =>
      refine ⟨?_, rfl⟩
      show (v <<< count).toNat = _
      rw [BitVec.toNat_shiftLeft, Nat.shiftLeft_eq]
      rfl
    | false => exact ⟨Nat.shiftRight_eq_div_pow .., rfl⟩
  | circular =>
    cases left with
    | true =>
      refine ⟨?_, rfl⟩
      show (v.rotateLeft count).toNat = _
      rw [BitVec.toNat_rotateLeft, Nat.mod_eq_of_lt hcount]
      exact shifted_or_shifted (Nat.add_sub_cancel' (Nat.le_of_lt hcount))
    | false =>
      refine ⟨?_, rfl⟩
      show (v.rotateRight count).toNat = _
      rw [BitVec.toNat_rotateRight, Nat.mod_eq_of_lt hcount, Nat.or_comm, Nat.add_comm]
      exact shifted_or_shifted (Nat.sub_add_cancel (Nat.le_of_lt hcount))

theorem Shift.means_apply (shift : Shift) (hn : n ≤ 64) (hcount : count < n) :
    shift.Means v count (shift.apply v count) := by
  rw [apply_eq_direct hn hcount]
  exact shift.means_direct hcount

/-- Circular shifts to the left and to the right undo each other, and each is the other by the rest of the width. -/
theorem Shift.circular_undo {double : Bool} (hn : n ≤ 64) (hcount : count < n) :
    let left := fun (v : BitVec n) count => (apply ⟨.circular, double, true⟩ v count).1
    let right := fun (v : BitVec n) count => (apply ⟨.circular, double, false⟩ v count).1
    right (left v count) count = v ∧ left (right v count) count = v ∧
      (0 < count → left v count = right v (n - count)) := by
  intro left right
  have hleft : ∀ (w : BitVec n) {k : Nat}, k < n → left w k = w.rotateLeft k := fun w k hk =>
    congrArg Prod.fst (apply_eq_direct hn hk)
  have hright : ∀ (w : BitVec n) {k : Nat}, k < n → right w k = w.rotateRight k := fun w k hk =>
    congrArg Prod.fst (apply_eq_direct hn hk)
  refine ⟨?_, ?_, fun hpositive => ?_⟩
  · rw [hright _ hcount, hleft _ hcount, rotateRight_rotateLeft]
  · rw [hleft _ hcount, hright _ hcount, rotateLeft_rotateRight]
  · rw [hleft _ hcount, hright _ (Nat.sub_lt (Nat.zero_lt_of_lt hcount) hpositive),
      rotateLeft_eq_rotateRight hpositive hcount]

end
end Concept32
