import Concept32.Proofs.Instructions.Kinds
import Concept32.Proofs.Instructions.Loads
import Concept32.Proofs.RoundTrip

/-!
# What an addressing mode reaches

An addressing mode reaches the addresses up to its mask. Every effective address that is formed under a status doubleword
is one of them.
-/

namespace Concept32

/-- Words that have the bits of a field in common have every bit of it in common. -/
theorem hasAny_congr {n : Nat} {w w' field bit : BitVec n} (h : w' &&& field = w &&& field) (hbit : field &&& bit = bit) :
    hasAny w' bit = hasAny w bit := by
  rw [hasAny, hasAny, ← hbit, ← BitVec.and_assoc, ← BitVec.and_assoc, h]

namespace Psd
variable {p q : Psd} {a : Word} {on : Bool}

/-! ### The modes -/

theorem extended_congr (h : q.word1 &&& controlField = p.word1 &&& controlField) : q.extended = p.extended :=
  hasAny_congr h (by decide)

theorem based_congr (h : q.word1 &&& controlField = p.word1 &&& controlField) : q.based = p.based :=
  hasAny_congr h (by decide)

theorem addressMask_congr (hextended : q.extended = p.extended) (hbased : q.based = p.based) :
    q.addressMask = p.addressMask := by
  rw [addressMask, addressMask, hextended, hbased]

theorem extended_withAddress : (p.withAddress a).extended = p.extended := hasAny_replaceBits (by decide)

theorem based_withAddress : (p.withAddress a).based = p.based := hasAny_replaceBits (by decide)

theorem addressMask_withAddress : (p.withAddress a).addressMask = p.addressMask :=
  addressMask_congr extended_withAddress based_withAddress

theorem extended_withExtended : (p.withExtended on).extended = on := hasAny_withBits_self (by decide)

theorem based_withExtended : (p.withExtended on).based = p.based := hasAny_withBits (by decide)

/-! ### Addresses within a mode -/

/-- The addressing mode reaches an address. -/
def Reaches (p : Psd) (a : Word) : Prop := a ≤ p.addressMask

/-- A mask cuts an address to the size of the mode's address space. -/
theorem toNat_and_addressMask : (a &&& p.addressMask).toNat = a.toNat % (p.addressMask.toNat + 1) := by
  have hcut : ∀ n : Nat, a.toNat &&& (2 ^ n - 1) = a.toNat % (2 ^ n - 1 + 1) := fun n => by
    rw [Nat.and_two_pow_sub_one_eq_mod, Nat.sub_add_cancel Nat.one_le_two_pow]
  rw [BitVec.toNat_and, addressMask]
  split
  · exact hcut 24
  · split
    · exact hcut 20
    · exact hcut 19

theorem reaches_iff : p.Reaches a ↔ a &&& p.addressMask = a := by
  rw [Reaches, BitVec.le_def, ← BitVec.toNat_inj, toNat_and_addressMask]
  constructor
  · intro hle
    exact Nat.mod_eq_of_lt (Nat.lt_succ_of_le hle)
  · intro hcut
    rw [← hcut]
    exact Nat.le_of_lt_succ (Nat.mod_lt _ (Nat.succ_pos _))

theorem reaches_and_addressMask : p.Reaches (a &&& p.addressMask) :=
  reaches_iff.mpr (by rw [BitVec.and_assoc, BitVec.and_self])

theorem reaches_zero : p.Reaches 0 := Nat.zero_le _

theorem toNat_address_lt : p.address.toNat < 0x1000000 := by
  rw [address, BitVec.toNat_and]
  exact Nat.lt_succ_of_le Nat.and_le_right

theorem address_withAddress : (p.withAddress a).address = a &&& p.addressMask := by
  rw [withAddress, address, replaceBits_and_self, BitVec.and_assoc, addressMask_and_addressField]

/-- The program counter that is set is within the mode. -/
theorem reaches_withAddress : (p.withAddress a).Reaches (p.withAddress a).address := by
  rw [address_withAddress, Reaches, addressMask_withAddress]
  exact reaches_and_addressMask

end Psd

/-! ### Effective addresses -/

theorem Core.psd_of_same {s s' : Core} (h : Same s s') : s'.cpu.psd = s.cpu.psd := by
  obtain ⟨_, _, rfl⟩ := h
  rfl

namespace Exec
open Concept32.Core EStateM
variable {s s' : Core} {left : Nat} {r last : Reference} {a next : Word} {i : Instruction} {o : Operand} {isIndexed : Bool}
  {format : Format}

theorem reaches_indexed (h : indexed r s = .ok a s') : s.cpu.psd.Reaches a := by
  rw [indexed, bind_of_ok (show psd s = .ok s.cpu.psd s from rfl)] at h
  split at h
  · cases h
    exact Psd.reaches_and_addressMask
  · obtain ⟨_, _, hindex, h⟩ := bind_eq_ok.mp h
    cases hindex
    cases h
    exact Psd.reaches_and_addressMask

theorem reaches_follow (h : follow left r s = .ok (a, last) s') : s.cpu.psd.Reaches a := by
  induction left generalizing r s with
  | zero =>
    rw [follow] at h
    obtain ⟨b, t, hindexed, h⟩ := bind_eq_ok.mp h
    dsimp only at h
    split at h
    · cases h
      exact reaches_indexed hindexed
    · obtain ⟨_, _, -, h⟩ := bind_eq_ok.mp h
      cases h
  | succ left ih =>
    rw [follow] at h
    obtain ⟨b, t, hindexed, h⟩ := bind_eq_ok.mp h
    dsimp only at h
    split at h
    · cases h
      exact reaches_indexed hindexed
    · -- The indirect word is read under the same status doubleword.
      obtain ⟨_, _, hcount, h⟩ := bind_eq_ok.mp h
      cases hcount
      obtain ⟨w, u, hread, h⟩ := bind_eq_ok.mp h
      have hbefore : t.cpu.psd = s.cpu.psd := psd_of_same (reads_indexed.ok hindexed)
      have hpsd : u.cpu.psd = s.cpu.psd := (psd_of_same (reads_readWord.ok hread)).trans hbefore
      rw [← hpsd]
      exact ih h

theorem reaches_resolve (h : resolve i isIndexed next s = .ok o s') : s.cpu.psd.Reaches o.address := by
  rw [resolve, bind_of_ok (show based s = .ok s.cpu.psd.based s from rfl)] at h
  split at h
  · rw [bind_of_ok (show psd s = .ok s.cpu.psd s from rfl)] at h
    -- With an index and a base register or without, the sum is cut at the end.
    split at h
    all_goals
      obtain ⟨_, _, -, h⟩ := bind_eq_ok.mp h
      dsimp only at h
      split at h
      all_goals
        obtain ⟨_, _, -, h⟩ := bind_eq_ok.mp h
        cases h
        exact Psd.reaches_and_addressMask
  · obtain ⟨followed, _, hask, h⟩ := bind_eq_ok.mp h
    cases hask
    obtain ⟨⟨b, last⟩, t, hfollow, h⟩ := bind_eq_ok.mp h
    cases h
    exact reaches_follow hfollow

/-- An effective address is one that the addressing mode reaches. -/
theorem reaches_operandOf (h : operandOf i format next s = .ok o s') : s.cpu.psd.Reaches o.address := by
  cases format with
  | halfword => cases h; exact Psd.reaches_zero
  | immediate => cases h; exact Psd.reaches_zero
  | memory => exact reaches_resolve h
  | memoryNoIndex => exact reaches_resolve h

end Exec
end Concept32
