import Concept32.Instructions.Logic
import Concept32.Proofs.Recurrence
import Concept32.Proofs.Shifting

/-!
# Normalising

A number is normalised by moving it up four places at a time, for as long as its first five bits are all equal. No digit is
lost by that, and unless all bits are equal it comes to an end.
-/

namespace Concept32

/-- The first five bits are not all equal. -/
def Normal {n : Nat} (v : BitVec n) : Prop := ∃ j k : Fin 5, v.getMsbD j ≠ v.getMsbD k

/-- One turn of the loop that normalises a value; no turn for a value whose first five bits are not all equal. -/
def normaliseStep? {n : Nat} (v : BitVec n) : Option (BitVec n) :=
  let top : BitVec 5 := v.extractLsb' (n - 5) 5
  if top = 0 ∨ top = BitVec.allOnes 5 then some (v <<< 4) else none

/-- A value has been normalised in a number of turns: the loop ended after them, no digit was lost, and fewer turns would
not have been enough. -/
structure Normalised {n : Nat} (v result : BitVec n) (count : Nat) : Prop where
  turns : afterSteps? normaliseStep? count v = some result
  ended : normaliseStep? result = none
  value : result.toInt = v.toInt * Int.pow 16 count
  normal : Normal result
  least : ∀ k < count, (v <<< (4 * k)).toInt = v.toInt * Int.pow 16 k ∧ ¬Normal (v <<< (4 * k))

section
variable {n k steps : Nat} {v : BitVec n}

theorem normal_iff_top (hn : 5 ≤ n) :
    Normal v ↔ ¬(v.extractLsb' (n - 5) 5 = 0 ∨ v.extractLsb' (n - 5) 5 = BitVec.allOnes 5) := by
  have htops : ∀ x : Fin 32,
      (∃ j k : Fin 5, (BitVec.ofFin x : BitVec 5).getMsbD j ≠ (BitVec.ofFin x : BitVec 5).getMsbD k) ↔
        ¬((BitVec.ofFin x : BitVec 5) = 0 ∨ (BitVec.ofFin x : BitVec 5) = BitVec.allOnes 5) := by decide
  have hbits : ∀ j : Fin 5, (v.extractLsb' (n - 5) 5).getMsbD j = v.getMsbD j := fun j => by
    have hplace : n - 5 + (5 - 1 - j.val) = n - 1 - j.val := by omega
    rw [BitVec.getMsbD_eq_getLsbD, BitVec.getMsbD_eq_getLsbD, decide_eq_true j.isLt, decide_eq_true (by omega),
      Bool.true_and, Bool.true_and, BitVec.getLsbD_extractLsb', decide_eq_true (by omega), Bool.true_and, hplace]
  have htop := htops (v.extractLsb' (n - 5) 5).toFin
  rw [BitVec.ofFin_toFin] at htop
  simp only [hbits] at htop
  exact htop

/-- The first five bits are all equal just if the number has four bits to spare. -/
theorem not_normal_iff (hn : 5 ≤ n) : ¬Normal v ↔ FitsSigned (n - 4) v.toInt := by
  obtain ⟨m, rfl⟩ := Nat.exists_eq_add_of_le' hn
  have hlt := v.isLt
  have hwidth : 2 ^ (m + 5) = 32 * 2 ^ m := by rw [Nat.pow_add, Nat.mul_comm]
  have hpower : Int.pow 2 (m + 5 - 4 - 1) = ((2 ^ m : Nat) : Int) := (Int.natCast_pow 2 m).symm
  have htop : (v.extractLsb' (m + 5 - 5) 5).toNat = v.toNat / 2 ^ m := by
    rw [BitVec.extractLsb'_toNat, Nat.add_sub_cancel, Nat.shiftRight_eq_div_pow]
    exact Nat.mod_eq_of_lt ((Nat.div_lt_iff_lt_mul (Nat.two_pow_pos m)).mpr (by omega))
  have hzeros : v.extractLsb' (m + 5 - 5) 5 = 0 ↔ v.toNat < 2 ^ m := by
    rw [← BitVec.toNat_inj, htop]
    exact Nat.div_eq_zero_iff_lt (Nat.two_pow_pos m)
  have hones : v.extractLsb' (m + 5 - 5) 5 = BitVec.allOnes 5 ↔ 31 * 2 ^ m ≤ v.toNat := by
    rw [← BitVec.toNat_inj, htop, ← Nat.le_div_iff_mul_le (Nat.two_pow_pos m)]
    have hle : v.toNat / 2 ^ m < 32 := (Nat.div_lt_iff_lt_mul (Nat.two_pow_pos m)).mpr (by omega)
    show v.toNat / 2 ^ m = 31 ↔ _
    omega
  rw [normal_iff_top hn, Decidable.not_not, hzeros, hones, FitsSigned, hpower, BitVec.toInt_eq_toNat_cond]
  generalize 2 ^ m = power at *
  split
  · omega
  · omega

theorem toInt_shiftLeft_four (hn : 5 ≤ n) (h : ¬Normal v) : (v <<< 4).toInt = v.toInt * 16 := by
  obtain ⟨m, rfl⟩ := Nat.exists_eq_add_of_le' hn
  obtain ⟨hle, hlt⟩ := (not_normal_iff hn).mp h
  have hfits : FitsSigned (m + 5) (v.toInt * 16) := by
    have hpower : Int.pow 2 (m + 5 - 1) = Int.pow 2 (m + 5 - 4 - 1) * 16 := Int.pow_add 2 m 4
    rw [FitsSigned, hpower]
    omega
  have hsixteen : Int.pow 2 4 = 16 := rfl
  rw [shiftLeft_eq_ofInt, hsixteen, toInt_ofInt_of_fits (Nat.succ_pos _) hfits]

theorem mul_pow_sixteen_succ {x : Int} : x * Int.pow 16 (k + 1) = x * 16 * Int.pow 16 k := by
  rw [Int.mul_assoc, Int.mul_comm 16]
  rfl

/-- A number moved up in one turn has been multiplied by sixteen once. -/
theorem toInt_mul_pow_succ (hn : 5 ≤ n) (h : ¬Normal v) :
    v.toInt * Int.pow 16 (k + 1) = (v <<< 4).toInt * Int.pow 16 k := by
  rw [mul_pow_sixteen_succ, toInt_shiftLeft_four hn h]

/-! ### The loop -/

theorem normalise_of_normal (hn : 5 ≤ n) (h : Normal v) : normalise steps v = (v, 0) := by
  cases steps with
  | zero => rfl
  | succ steps =>
    rw [normalise]
    dsimp only
    rw [if_neg (by simpa using (normal_iff_top hn).mp h)]

theorem normalise_succ_of_not_normal (hn : 5 ≤ n) (h : ¬Normal v) :
    normalise (steps + 1) v = ((normalise steps (v <<< 4)).1, (normalise steps (v <<< 4)).2 + 1) := by
  rw [normalise]
  dsimp only
  rw [if_pos (by simpa using Decidable.not_not.mp (h ∘ (normal_iff_top hn).mpr))]

theorem Normalised.of_normal (hn : 5 ≤ n) (h : Normal v) : Normalised v v 0 where
  turns := rfl
  ended := if_neg ((normal_iff_top hn).mp h)
  value := (Int.mul_one _).symm
  normal := h
  least _ hk := absurd hk (Nat.not_lt_zero _)

/-- A value moved up in one turn, with no digit lost, is normalised in one turn more than what it is moved to. -/
theorem Normalised.step {result : BitVec n} {count : Nat} (hn : 5 ≤ n) (h : ¬Normal v)
    (hrest : Normalised (v <<< 4) result count) : Normalised v result (count + 1) where
  turns := by
    have hstep : normaliseStep? v = some (v <<< 4) := if_pos (Decidable.not_not.mp (h ∘ (normal_iff_top hn).mpr))
    rw [afterSteps?, hstep]
    exact hrest.turns
  ended := hrest.ended
  value := hrest.value.trans (toInt_mul_pow_succ hn h).symm
  normal := hrest.normal
  least k hk := by
    cases k with
    | zero =>
      rw [Nat.mul_zero, BitVec.shiftLeft_zero]
      exact ⟨(Int.mul_one _).symm, h⟩
    | succ k =>
      rw [Nat.mul_succ, Nat.add_comm, BitVec.shiftLeft_add, toInt_mul_pow_succ hn h]
      exact hrest.least k (Nat.lt_of_succ_lt_succ hk)

/-- A number that is too great to have four bits to spare after so many turns is normalised in no more. -/
theorem normalised_normalise (hn : 5 ≤ n) (hgreat : ¬FitsSigned (n - 4) (v.toInt * Int.pow 16 k)) (hsteps : k ≤ steps) :
    Normalised v (normalise steps v).1 (normalise steps v).2 ∧ (normalise steps v).2 ≤ k := by
  -- Every turn takes one of the sixteens over into the value.
  induction k generalizing v steps with
  | zero =>
    have hnormal : Normal v := by
      by_contra hv
      exact hgreat ((Int.mul_one v.toInt).symm ▸ (not_normal_iff hn).mp hv)
    rw [normalise_of_normal hn hnormal]
    exact ⟨.of_normal hn hnormal, Nat.le_refl 0⟩
  | succ k ih =>
    obtain ⟨steps, rfl⟩ := Nat.exists_eq_add_of_le' (Nat.lt_of_lt_of_le (Nat.succ_pos k) hsteps)
    by_cases hnormal : Normal v
    · rw [normalise_of_normal hn hnormal]
      exact ⟨.of_normal hn hnormal, Nat.zero_le _⟩
    · rw [toInt_mul_pow_succ hn hnormal] at hgreat
      obtain ⟨hrest, hle⟩ := ih hgreat (Nat.le_of_succ_le_succ hsteps)
      rw [normalise_succ_of_not_normal hn hnormal]
      exact ⟨hrest.step hn hnormal, Nat.succ_le_succ hle⟩

/-- A number other than zero is normalised before its last digit is the first. -/
theorem normalised_normalised {m : Nat} {v : BitVec (4 * (m + 2))} (hzero : v ≠ 0)
    (hones : v ≠ BitVec.allOnes (4 * (m + 2))) :
    Normalised v (normalised v).1 (normalised v).2 ∧ (normalised v).2 ≤ m + 1 := by
  have hlast : ¬FitsSigned (4 * (m + 2) - 4) (v.toInt * Int.pow 16 (m + 1)) := by
    have hpower : Int.pow 2 (4 * (m + 2) - 4 - 1) = Int.pow 16 m * 8 := by
      have hsixteen : Int.pow 2 (4 * m) = Int.pow 16 m := Int.pow_mul
      rw [← hsixteen]
      exact Int.pow_add 2 (4 * m) 3
    have hpositive : 0 < Int.pow 16 m := Int.pow_pos (by decide)
    have hnonzero : v.toInt ≠ 0 := fun h => hzero (BitVec.toInt_inj.mp (h.trans BitVec.toInt_zero.symm))
    rw [FitsSigned, hpower, mul_pow_sixteen_succ]
    rintro ⟨hle, hlt⟩
    rcases Int.lt_or_gt_of_ne hnonzero with h | h
    · have hless : v.toInt * 16 * Int.pow 16 m ≤ -16 * Int.pow 16 m :=
        Int.mul_le_mul_of_nonneg_right (by omega) (Int.le_of_lt hpositive)
      omega
    · have hmore : 16 * Int.pow 16 m ≤ v.toInt * 16 * Int.pow 16 m :=
        Int.mul_le_mul_of_nonneg_right (by omega) (Int.le_of_lt hpositive)
      omega
  have hsteps : m + 1 ≤ 4 * (m + 2) / 4 := by omega
  rw [normalised, if_neg (by simpa using ⟨hzero, hones⟩)]
  exact normalised_normalise (by omega) hlast hsteps

theorem normalised_of_alike (h : v = 0 ∨ v = BitVec.allOnes n) : normalised v = (v, 0) := by
  rw [normalised]
  exact if_pos (by simpa using h)

end
end Concept32
