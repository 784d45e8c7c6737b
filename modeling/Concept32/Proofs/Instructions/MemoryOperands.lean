import Concept32.Proofs.Delivery
import Concept32.Proofs.Fields
import Concept32.Proofs.Instructions.Rights

/-!
# Operands in memory

An operand in memory that may be accessed is the field at its physical address: it is read as what the field holds, and a
store to it changes the bytes of the field and no others.
-/

namespace Concept32

namespace Core
variable {s t : Core} {access access' : Access} {a p q : Word} {bytes bytes' : Nat}

/-- The physical address of a logical one, as the program accesses it. -/
abbrev translated (s : Core) (access : Access) (a : Word) : Except AddressFault Word :=
  s.cpu.map.translate a access s.cpu.psd.mapped s.cpu.psd.privileged s.memory.sizeBytes

/-- The program may access the bytes from an aligned logical address on, the first of which lies at a physical one. -/
structure Allows (s : Core) (access : Access) (a : Word) (bytes : Nat) (p : Word) : Prop where
  aligned : a.toNat % bytes = 0
  first : s.translated access a = .ok p
  each : ∀ k < bytes, ∃ q, s.translated access (a + BitVec.ofNat 32 k) = .ok q

namespace Allows

/-- Only the map, the mode of the program and the size of memory decide about an access. -/
theorem congr (h : s.Allows access a bytes p) (hmap : t.cpu.map = s.cpu.map)
    (hmapped : t.cpu.psd.mapped = s.cpu.psd.mapped) (hprivileged : t.cpu.psd.privileged = s.cpu.psd.privileged)
    (hsize : t.memory.sizeBytes = s.memory.sizeBytes) : t.Allows access a bytes p := by
  have htranslated : ∀ b, t.translated access b = s.translated access b := fun b => by
    rw [translated, translated, hmap, hmapped, hprivileged, hsize]
  refine ⟨h.aligned, (htranslated a).trans h.first, fun k hk => ?_⟩
  rw [htranslated]
  exact h.each k hk

theorem of_same (h : s.Allows access a bytes p) (hsame : Same s t) : t.Allows access a bytes p := by
  obtain ⟨_, _, rfl⟩ := hsame
  exact h.congr rfl rfl rfl rfl

theorem lt (h : s.Allows access a bytes p) : p.toNat / 4 < s.memory.words.size := by
  have hlt := TranslationUnit.translate_lt h.first
  rw [Memory.sizeBytes] at hlt
  omega

theorem place_aligned (h : s.Allows access a bytes p) (hpos : 0 < bytes) (hdvd : bytes ∣ 4) : p.toNat % bytes = 0 :=
  (TranslationUnit.translate_add h.first h.aligned hdvd (Nat.dvd_mul_right 4 _) hpos).1

/-- The first word of a doubleword. -/
theorem high (h : s.Allows access a 8 p) : s.Allows access a 4 p :=
  ⟨by have := h.aligned; omega, h.first, fun k hk => h.each k (by omega)⟩

/-- The second word of a doubleword lies after the first. -/
theorem low (h : s.Allows access a 8 p) : ∃ q, s.Allows access (a + 4) 4 q ∧ q.toNat = p.toNat + 4 := by
  obtain ⟨q, hq⟩ := h.each 4 (by decide)
  have haligned := h.aligned
  have hnext : (a + 4).toNat = (a.toNat + 4) % 0x100000000 := BitVec.toNat_add ..
  refine ⟨q, ⟨by omega, hq, fun k hk => ?_⟩, TranslationUnit.toNat_of_translate_add haligned (by decide) h.first hq⟩
  have hplace : a + 4 + BitVec.ofNat 32 k = a + BitVec.ofNat 32 (4 + k) := by
    rw [BitVec.ofNat_add, BitVec.add_assoc]
    rfl
  rw [hplace]
  exact h.each (4 + k) (by omega)

end Allows
end Core

namespace Exec
open Concept32.Core EStateM
variable {s : Core} {access : Access} {a p w : Word} {o : Operand} {d : Double}

/-! ### Reading -/

theorem requireAligned_of_aligned {alignment : Nat} (h : a.toNat % alignment = 0) :
    requireAligned a alignment s = .ok () s := by
  rw [requireAligned, if_pos h]
  rfl

theorem readWord_of_allows (h : s.Allows access a 4 p) : readWord a access s = .ok (s.memory.fieldAt p.toNat 4) s := by
  have haligned := h.place_aligned (by decide) (Nat.dvd_refl 4)
  rw [readWord, bind_of_ok (requireAligned_of_aligned h.aligned), bind_of_ok (translate_eq_ok.mpr ⟨h.first, rfl⟩)]
  exact fromMemory_eq_ok.mpr ⟨Memory.readWord_eq_ok.mpr ⟨haligned, h.lt, Memory.fieldAt_four haligned⟩, rfl⟩

theorem readHalf_of_allows (h : s.Allows .read a 2 p) : readHalf a s = .ok (s.memory.fieldAt p.toNat 2) s := by
  have haligned := h.place_aligned (by decide) (by decide)
  rw [readHalf, bind_of_ok (requireAligned_of_aligned h.aligned), bind_of_ok (translate_eq_ok.mpr ⟨h.first, rfl⟩)]
  refine fromMemory_eq_ok.mpr ⟨?_, rfl⟩
  rw [Memory.readHalf, Memory.index_eq_ok.mpr ⟨haligned, h.lt, rfl⟩]
  exact congrArg Except.ok (Memory.fieldAt_two haligned).symm

theorem readByte_of_allows (h : s.Allows .read a 1 p) : readByte a s = .ok (s.memory.fieldAt p.toNat 1) s := by
  rw [readByte, bind_of_ok (translate_eq_ok.mpr ⟨h.first, rfl⟩)]
  refine fromMemory_eq_ok.mpr ⟨?_, rfl⟩
  rw [Memory.readByte, Memory.index_eq_ok.mpr ⟨Nat.mod_one _, h.lt, rfl⟩]
  exact congrArg Except.ok Memory.fieldAt_one.symm

theorem readDouble_of_allows (h : s.Allows .read a 8 p) : readDouble a s = .ok (s.memory.fieldAt p.toNat 8) s := by
  obtain ⟨q, hlow, hq⟩ := h.low
  have haligned := h.high.place_aligned (by decide) (Nat.dvd_refl 4)
  have hword : (p.toNat + 4) / 4 = p.toNat / 4 + 1 := by omega
  rw [readDouble, bind_of_ok (requireAligned_of_aligned h.aligned), bind_of_ok (readWord_of_allows h.high),
    bind_of_ok (readWord_of_allows hlow), Memory.fieldAt_eight haligned, ← hword, ← Memory.fieldAt_four haligned, hq,
    ← Memory.fieldAt_four (by omega)]
  rfl

/-- An operand of at most a word is read as its field, widened. -/
theorem readOperand_of_allows (hfield : o.field ≠ .double)
    (h : s.Allows .read o.operandAddress o.field.bytes p) :
    readOperand o s = .ok (o.field.widen (s.memory.fieldAt p.toNat o.field.bytes)) s := by
  obtain ⟨i, address, fBit, field, codes, next⟩ := o
  cases field with
  | byte offset => exact bind_of_ok (readByte_of_allows h)
  | leftHalf => exact bind_of_ok (readHalf_of_allows h)
  | rightHalf => exact bind_of_ok (readHalf_of_allows h)
  | word => exact (readWord_of_allows h).trans (congrArg (Result.ok · s) (BitVec.signExtend_eq _).symm)
  | double => exact absurd rfl hfield

end Exec
end Concept32
