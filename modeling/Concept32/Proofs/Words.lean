import Concept32.Memory

/-!
# Bits of words

Which bits a replacement leaves alone: bits under another mask, and the bytes of a word beside the one that is
stored.
-/

namespace Concept32
variable {n : Nat} {w mask value bit : BitVec n}

theorem getLsbD_replaceBits {i : Nat} :
    (replaceBits w mask value).getLsbD i = if mask.getLsbD i then value.getLsbD i else w.getLsbD i := by
  by_cases hi : i < n
  · simp only [replaceBits, BitVec.getLsbD_or, BitVec.getLsbD_and, BitVec.getLsbD_not, hi]
    cases mask.getLsbD i <;> simp
  · simp [BitVec.getLsbD_of_ge _ _ (Nat.le_of_not_lt hi)]

theorem withBits_eq_replaceBits {on : Bool} :
    withBits w mask on = replaceBits w mask (if on then BitVec.allOnes n else 0) := by
  ext i hi
  cases on <;> cases hm : mask[i] <;> simp [withBits, replaceBits, hm]

/-- One less, from a number that is not zero. -/
theorem toNat_sub_one (h : w ≠ 0) : (w - 1).toNat + 1 = w.toNat := by
  have hpositive : 0 < w.toNat := Nat.pos_of_ne_zero fun hzero =>
    h (BitVec.eq_of_toNat_eq (hzero.trans BitVec.toNat_zero.symm))
  have hone : 1 % 2 ^ n = 1 := Nat.mod_eq_of_lt (by have := w.isLt; omega)
  have hle : (1 : BitVec n) ≤ w := by
    rw [BitVec.le_def]
    show 1 % 2 ^ n ≤ w.toNat
    omega
  rw [BitVec.toNat_sub_of_le hle]
  show w.toNat - 1 % 2 ^ n + 1 = w.toNat
  omega

/-- Bits that are not replaced are as they were. -/
theorem replaceBits_and (h : mask &&& bit = 0) : replaceBits w mask value &&& bit = w &&& bit := by
  refine BitVec.eq_of_getLsbD_eq fun i _ => ?_
  have hbit : (mask.getLsbD i && bit.getLsbD i) = false := by
    simpa using congrArg (BitVec.getLsbD · i) h
  rw [BitVec.getLsbD_and, BitVec.getLsbD_and, getLsbD_replaceBits]
  cases hm : mask.getLsbD i with
  | false => rw [if_neg Bool.false_ne_true]
  | true =>
    rw [hm, Bool.true_and] at hbit
    rw [hbit, Bool.and_false, Bool.and_false]

/-- Bits that are replaced are the new ones. -/
theorem replaceBits_and_self : replaceBits w mask value &&& mask = value &&& mask := by
  refine BitVec.eq_of_getLsbD_eq fun i _ => ?_
  rw [BitVec.getLsbD_and, BitVec.getLsbD_and, getLsbD_replaceBits]
  cases hm : mask.getLsbD i with
  | false => rw [Bool.and_false, Bool.and_false]
  | true => rw [if_pos rfl]

theorem replaceBits_and_not : replaceBits w mask value &&& ~~~mask = w &&& ~~~mask :=
  replaceBits_and (by ext i hi; simp)

/-- Of two replacements of the same bits the second counts. -/
theorem replaceBits_replaceBits {value' : BitVec n} :
    replaceBits (replaceBits w mask value) mask value' = replaceBits w mask value' := by
  refine BitVec.eq_of_getLsbD_eq fun i _ => ?_
  rw [getLsbD_replaceBits, getLsbD_replaceBits, getLsbD_replaceBits]
  split <;> rfl

/-- One bit of a mask asks for one bit. -/
theorem hasAny_twoPow {k : Nat} (hk : k < n) : hasAny w (BitVec.twoPow n k) = w.getLsbD k := by
  have hne : BitVec.twoPow n k ≠ 0#n := fun hzero => by
    have hbit := BitVec.getLsbD_twoPow (w := n) k k
    rw [hzero, BitVec.getLsbD_zero, decide_eq_true hk, decide_eq_true rfl] at hbit
    cases hbit
  rw [hasAny, BitVec.and_twoPow]
  cases w.getLsbD k with
  | false => exact bne_self_eq_false _
  | true => exact bne_iff_ne.mpr hne

theorem hasAny_replaceBits (h : mask &&& bit = 0) : hasAny (replaceBits w mask value) bit = hasAny w bit := by
  rw [hasAny, hasAny, replaceBits_and h]

theorem hasAny_withBits {on : Bool} (h : mask &&& bit = 0) : hasAny (withBits w mask on) bit = hasAny w bit := by
  rw [withBits_eq_replaceBits, hasAny_replaceBits h]

/-- A bit that is set or cleared is found so. -/
theorem hasAny_withBits_self {on : Bool} (h : bit ≠ 0) : hasAny (withBits w bit on) bit = on := by
  cases on with
  | true =>
    have hkept : (w ||| bit) &&& bit = bit := by ext i hi; cases hb : bit[i] <;> simp [hb]
    rw [withBits, if_pos rfl, hasAny, hkept, bne_iff_ne]
    exact h
  | false =>
    have hgone : w &&& ~~~bit &&& bit = 0 := by ext i hi; simp
    rw [withBits, if_neg Bool.false_ne_true, hasAny, hgone]
    exact bne_self_eq_false _

/-! ### Bits that a shift clears -/

theorem shiftLeft_and_eq_zero {place : Nat} (h : mask >>> place = 0) : w <<< place &&& mask = 0 := by
  refine BitVec.eq_of_getLsbD_eq fun i _ => ?_
  rw [BitVec.getLsbD_and, BitVec.getLsbD_shiftLeft]
  by_cases hi : i < place
  · simp [hi]
  · have hbit : mask.getLsbD i = false := by
      have hshifted := congrArg (BitVec.getLsbD · (i - place)) h
      rw [BitVec.getLsbD_ushiftRight, Nat.add_sub_cancel' (Nat.le_of_not_lt hi)] at hshifted
      simpa using hshifted
    simp [hbit]

theorem getLsbD_field (len : Nat) {place i : Nat} (h : i < place ∨ place + len ≤ i) :
    ((BitVec.allOnes len).setWidth n <<< place).getLsbD i = false := by
  rw [BitVec.getLsbD_shiftLeft, BitVec.getLsbD_setWidth, BitVec.getLsbD_allOnes]
  rcases h with h | h
  · simp [h]
  · have hout : ¬i - place < len := by omega
    simp [hout]

theorem getLsbD_field_self (len : Nat) {place i : Nat} (hi : i < len) (hin : place + i < n) :
    ((BitVec.allOnes len).setWidth n <<< place).getLsbD (place + i) = true := by
  have hbeyond : ¬place + i < place := by omega
  have hbelow : i < n := by omega
  rw [BitVec.getLsbD_shiftLeft, Nat.add_sub_cancel_left, BitVec.getLsbD_setWidth, BitVec.getLsbD_allOnes]
  simp [hin, hbeyond, hbelow, hi]

/-! ### Two fields in a word -/

section
variable {k : Nat} {high : BitVec k} {low : BitVec n}

theorem extractLsb'_joined (h : k + n = 32) :
    ((high.setWidth 32 <<< n) ||| low.setWidth 32).extractLsb' n k = high := by
  ext i hi
  have hplace : n + i < 32 := by omega
  simp [hplace, BitVec.getLsbD_eq_getElem, hi]

theorem setWidth_joined (h : k + n = 32) : ((high.setWidth 32 <<< n) ||| low.setWidth 32).setWidth n = low := by
  ext i hi
  have hplace : i < 32 := by omega
  simp [hplace, BitVec.getLsbD_eq_getElem, hi]

end

/-- The boundary of the word in which a byte lies. -/
theorem toNat_wordBoundary {a : Word} : (wordBoundary a).toNat = 4 * (a.toNat / 4) := by
  have hbits : ∀ i < 32, (0xFFFFFFFC#32).getLsbD i = decide (2 ≤ i) := by decide
  have hshift : wordBoundary a = a >>> 2 <<< 2 := by
    ext i hi
    simp only [wordBoundary, ← BitVec.getLsbD_eq_getElem, BitVec.getLsbD_and, hbits i hi, BitVec.getLsbD_shiftLeft,
      BitVec.getLsbD_ushiftRight]
    by_cases h : i < 2
    · simp [h, Nat.not_le.mpr h]
    · simp [h, hi, Nat.le_of_not_lt h, show 2 + (i - 2) = i by omega]
  have hlt := a.isLt
  rw [hshift, BitVec.toNat_shiftLeft, BitVec.toNat_ushiftRight, Nat.shiftLeft_eq, Nat.shiftRight_eq_div_pow]
  omega

namespace Memory
variable {w : Word} {b : Byte} {h : Half} {place other : Nat}

/-! ### Bytes of a word -/

theorem byteOf_withByte_of_ne (hother : other < 4) (hplace : place < 4) (hne : other ≠ place) :
    byteOf (withByte w place b) other = byteOf w other := by
  refine BitVec.eq_of_getLsbD_eq fun i hi => ?_
  have hfield : (0xFF#32 <<< (8 * (3 - place))).getLsbD (8 * (3 - other) + i) = false :=
    getLsbD_field 8 (by omega)
  rw [byteOf, byteOf, withByte, BitVec.getLsbD_extractLsb', BitVec.getLsbD_extractLsb', getLsbD_replaceBits,
    hfield, if_neg Bool.false_ne_true]

theorem byteOf_withHalf_of_ne (hother : other < 4) (hplace : place ≤ 2) (hne : other ≠ place)
    (hnext : other ≠ place + 1) : byteOf (withHalf w place h) other = byteOf w other := by
  refine BitVec.eq_of_getLsbD_eq fun i hi => ?_
  have hfield : (0xFFFF#32 <<< (8 * (2 - place))).getLsbD (8 * (3 - other) + i) = false :=
    getLsbD_field 16 (by omega)
  rw [byteOf, byteOf, withHalf, BitVec.getLsbD_extractLsb', BitVec.getLsbD_extractLsb', getLsbD_replaceBits,
    hfield, if_neg Bool.false_ne_true]

theorem byteOf_withByte_self (hplace : place < 4) : byteOf (withByte w place b) place = b := by
  refine BitVec.eq_of_getLsbD_eq fun i hi => ?_
  have hin : 8 * (3 - place) + i < 32 := by omega
  have hfield : (0xFF#32 <<< (8 * (3 - place))).getLsbD (8 * (3 - place) + i) = true := getLsbD_field_self 8 hi hin
  rw [byteOf, withByte, BitVec.getLsbD_extractLsb', getLsbD_replaceBits, hfield, if_pos rfl, BitVec.getLsbD_shiftLeft,
    BitVec.getLsbD_setWidth]
  have hbelow : i < 32 := by omega
  simp [hi, hin, hbelow]

/-- The two bytes of a halfword that is stored. -/
theorem byteOf_withHalf_self (hplace : place ≤ 2) :
    byteOf (withHalf w place h) place = h.extractLsb' 8 8 ∧ byteOf (withHalf w place h) (place + 1) = h.extractLsb' 0 8 := by
  have hbyte : ∀ start, start ≤ 8 →
      (withHalf w place h).extractLsb' (8 * (2 - place) + start) 8 = h.extractLsb' start 8 := by
    intro start hstart
    refine BitVec.eq_of_getLsbD_eq fun i hi => ?_
    have hin : 8 * (2 - place) + (start + i) < 32 := by omega
    have hfield : (0xFFFF#32 <<< (8 * (2 - place))).getLsbD (8 * (2 - place) + (start + i)) = true :=
      getLsbD_field_self 16 (by omega) hin
    rw [withHalf, BitVec.getLsbD_extractLsb', getLsbD_replaceBits, Nat.add_assoc, hfield, if_pos rfl,
      BitVec.getLsbD_shiftLeft, BitVec.getLsbD_setWidth, BitVec.getLsbD_extractLsb']
    have hbelow : start + i < 32 := by omega
    have hbeyond : ¬8 * (2 - place) + (start + i) < 8 * (2 - place) := by omega
    simp [hin, hbelow, hbeyond]
  have hhigh : 8 * (3 - place) = 8 * (2 - place) + 8 := by omega
  have hlow : 8 * (3 - (place + 1)) = 8 * (2 - place) + 0 := by omega
  rw [byteOf, byteOf, hhigh, hlow]
  exact ⟨hbyte 8 (by omega), hbyte 0 (by omega)⟩

end Memory
end Concept32
