import Concept32.FieldCode
import Concept32.Proofs.Memory

/-!
# Fields of memory

A field is one, two, four or eight bytes of memory that are handled together, the first the most significant. What an
instruction reads or stores as a byte, a halfword, a word or a doubleword is a field.
-/

namespace Concept32

/-- The number of bytes of a field. -/
def FieldCode.bytes : FieldCode → Nat
  | .byte _ => 1
  | .leftHalf | .rightHalf => 2
  | .word => 4
  | .double => 8

namespace FieldCode
variable {field : FieldCode}

/-- The number that a field holds: a byte is unsigned, and everything else is signed. -/
def number (field : FieldCode) (b : BitVec (8 * field.bytes)) : Int :=
  match field with
  | .byte _ => b.toNat
  | .leftHalf | .rightHalf | .word | .double => b.toInt

/-- A field of at most a word in a word, a byte with zeros before it and a halfword with its sign. -/
def widen (field : FieldCode) (b : BitVec (8 * field.bytes)) : Word :=
  match field with
  | .byte _ => b.setWidth 32
  | .leftHalf | .rightHalf | .word | .double => b.signExtend 32

end FieldCode

namespace Memory
variable {m m' m'' : Memory} {n bytes i : Nat}

/-- The bytes from a byte address on, the first the most significant. -/
def fieldAt (m : Memory) (n : Nat) : (bytes : Nat) → BitVec (8 * bytes)
  | 0 => 0#0
  | bytes + 1 => m.fieldAt n bytes ++ m.byteAt (n + bytes)

/-! ### Bits and bytes of a field -/

theorem getLsbD_byteAt (hi : i < 8) :
    (m.byteAt n).getLsbD i = (m.wordAt (n / 4)).getLsbD (8 * (3 - n % 4) + i) := by
  rw [byteAt, byteOf, BitVec.getLsbD_extractLsb', wordAt]
  simp [hi]

theorem getLsbD_fieldAt (hi : i < 8 * bytes) :
    (m.fieldAt n bytes).getLsbD i = (m.byteAt (n + (bytes - 1 - i / 8))).getLsbD (i % 8) := by
  induction bytes generalizing i with
  | zero => omega
  | succ bytes ih =>
    have happend : (m.fieldAt n (bytes + 1)).getLsbD i =
        if i < 8 then (m.byteAt (n + bytes)).getLsbD i else (m.fieldAt n bytes).getLsbD (i - 8) :=
      BitVec.getLsbD_append
    rw [happend]
    split
    · next hlast =>
      have hplace : n + (bytes + 1 - 1 - i / 8) = n + bytes := by omega
      rw [hplace, Nat.mod_eq_of_lt hlast]
    · next hlast =>
      have hplace : bytes - 1 - (i - 8) / 8 = bytes + 1 - 1 - i / 8 := by omega
      have hbit : (i - 8) % 8 = i % 8 := by omega
      rw [ih (by omega), hplace, hbit]

/-- A field is known by its bytes. -/
theorem fieldAt_eq_iff {value : BitVec (8 * bytes)} : m.fieldAt n bytes = value ↔
    ∀ k < bytes, m.byteAt (n + k) = value.extractLsb' (8 * (bytes - 1 - k)) 8 := by
  constructor
  · rintro rfl k hk
    refine BitVec.eq_of_getLsbD_eq fun i hi => ?_
    have hplace : bytes - 1 - (8 * (bytes - 1 - k) + i) / 8 = k := by omega
    have hbit : (8 * (bytes - 1 - k) + i) % 8 = i := by omega
    rw [BitVec.getLsbD_extractLsb', getLsbD_fieldAt (by omega), hplace, hbit]
    simp [hi]
  · intro h
    refine BitVec.eq_of_getLsbD_eq fun i hi => ?_
    have hplace : 8 * (bytes - 1 - (bytes - 1 - i / 8)) + i % 8 = i := by omega
    have hbit : i % 8 < 8 := by omega
    rw [getLsbD_fieldAt hi, h _ (by omega), BitVec.getLsbD_extractLsb', hplace]
    simp [hbit]

theorem fieldAt_congr (h : ∀ k < bytes, m'.byteAt (n + k) = m.byteAt (n + k)) : m'.fieldAt n bytes = m.fieldAt n bytes :=
  fieldAt_eq_iff.mpr fun k hk => (h k hk).trans (fieldAt_eq_iff.mp rfl k hk)

/-! ### Parts of words -/

theorem fieldAt_one : m.fieldAt n 1 = m.byteAt n := by
  refine BitVec.eq_of_getLsbD_eq fun i hi => ?_
  have hplace : n + (1 - 1 - i / 8) = n := by omega
  have hbit : i % 8 = i := by omega
  rw [getLsbD_fieldAt hi, hplace, hbit]

theorem fieldAt_two (haligned : n % 2 = 0) : m.fieldAt n 2 = halfOf (m.wordAt (n / 4)) (n % 4) := by
  refine BitVec.eq_of_getLsbD_eq fun i hi => ?_
  have hword : (n + (2 - 1 - i / 8)) / 4 = n / 4 := by omega
  have hplace : 8 * (3 - (n + (2 - 1 - i / 8)) % 4) + i % 8 = 8 * (2 - n % 4) + i := by omega
  rw [getLsbD_fieldAt hi, getLsbD_byteAt (by omega), hword, hplace, halfOf, BitVec.getLsbD_extractLsb']
  simp [show i < 16 from hi]

theorem fieldAt_four (haligned : n % 4 = 0) : m.fieldAt n 4 = m.wordAt (n / 4) := by
  refine BitVec.eq_of_getLsbD_eq fun i hi => ?_
  have hword : (n + (4 - 1 - i / 8)) / 4 = n / 4 := by omega
  have hplace : 8 * (3 - (n + (4 - 1 - i / 8)) % 4) + i % 8 = i := by omega
  rw [getLsbD_fieldAt hi, getLsbD_byteAt (by omega), hword, hplace]

theorem fieldAt_eight (haligned : n % 4 = 0) :
    m.fieldAt n 8 = joinWords (m.wordAt (n / 4)) (m.wordAt (n / 4 + 1)) := by
  refine BitVec.eq_of_getLsbD_eq fun i hi => ?_
  rw [getLsbD_fieldAt hi, getLsbD_byteAt (by omega), joinWords, BitVec.getLsbD_or, BitVec.getLsbD_shiftLeft,
    BitVec.getLsbD_setWidth, BitVec.getLsbD_setWidth]
  by_cases hlow : i < 32
  · have hword : (n + (8 - 1 - i / 8)) / 4 = n / 4 + 1 := by omega
    have hplace : 8 * (3 - (n + (8 - 1 - i / 8)) % 4) + i % 8 = i := by omega
    rw [hword, hplace]
    simp [hlow, show i < 64 from hi]
  · have hword : (n + (8 - 1 - i / 8)) / 4 = n / 4 := by omega
    have hplace : 8 * (3 - (n + (8 - 1 - i / 8)) % 4) + i % 8 = i - 32 := by omega
    rw [hword, hplace]
    simp [hlow, show i < 64 from hi, show i - 32 < 64 by omega, BitVec.getLsbD_of_ge _ _ (Nat.le_of_not_lt hlow)]

/-! ### Storing a field -/

/-- A field is stored, and every byte beside it stays. -/
structure Stores (n bytes : Nat) (value : BitVec (8 * bytes)) (m m' : Memory) : Prop where
  size : m'.words.size = m.words.size
  inside : m'.fieldAt n bytes = value
  outside : ∀ k, k < n ∨ n + bytes ≤ k → m'.byteAt k = m.byteAt k

/-- A change of one word stores a field if it puts the bytes of the field into the word and keeps the others. -/
theorem stores_update {f : Word → Word} {value : BitVec (8 * bytes)} (hin : n / 4 < m.words.size)
    (hword : n % 4 + bytes ≤ 4)
    (hinside : ∀ w, ∀ k < bytes, byteOf (f w) (n % 4 + k) = value.extractLsb' (8 * (bytes - 1 - k)) 8)
    (houtside : ∀ w, ∀ place < 4, place < n % 4 ∨ n % 4 + bytes ≤ place → byteOf (f w) place = byteOf w place) :
    m.Stores n bytes value (m.update (n / 4) f) where
  size := size_update m _ f
  inside := fieldAt_eq_iff.mpr fun k hk => by
    have hplace : (n + k) % 4 = n % 4 + k := by omega
    rw [byteAt_update, if_pos ⟨by omega, hin⟩, hplace]
    exact hinside _ k hk
  outside k hk := by
    rw [byteAt_update]
    split
    · next hsame =>
      rw [houtside _ _ (Nat.mod_lt k (by decide)) (by omega), byteAt, wordAt, hsame.1]
    · rfl

theorem stores_byte (hin : n / 4 < m.words.size) (b : Byte) :
    m.Stores n 1 b (m.update (n / 4) fun w => withByte w (n % 4) b) :=
  stores_update hin (by omega)
    (fun w k hk => by
      obtain rfl : k = 0 := by omega
      refine (byteOf_withByte_self (by omega)).trans ?_
      exact (BitVec.extractLsb'_eq_self).symm)
    fun w place hplace hne => byteOf_withByte_of_ne hplace (by omega) (by omega)

theorem stores_half (hin : n / 4 < m.words.size) (haligned : n % 2 = 0) (h : Half) :
    m.Stores n 2 h (m.update (n / 4) fun w => withHalf w (n % 4) h) :=
  stores_update hin (by omega)
    (fun w k hk => by
      obtain ⟨hfirst, hsecond⟩ := byteOf_withHalf_self (w := w) (h := h) (show n % 4 ≤ 2 by omega)
      match k, hk with
      | 0, _ => exact hfirst
      | 1, _ => exact hsecond)
    fun w place hplace hne => byteOf_withHalf_of_ne hplace (by omega) (by omega) (by omega)

theorem stores_word (hin : n / 4 < m.words.size) (haligned : n % 4 = 0) (w : Word) :
    m.Stores n 4 w (m.update (n / 4) fun _ => w) :=
  stores_update hin (by omega)
    (fun _ k hk => by
      have hplace : 3 - (n % 4 + k) = 4 - 1 - k := by omega
      rw [byteOf, hplace])
    fun _ place hplace hne => by omega

/-- Two words that are stored one after the other are a doubleword. -/
theorem stores_double {d : Double} (haligned : n % 4 = 0) (hfirst : m.Stores n 4 (highWord d) m')
    (hsecond : m'.Stores (n + 4) 4 (lowWord d) m'') : m.Stores n 8 d m'' where
  size := hsecond.size.trans hfirst.size
  inside := by
    have hhigh : m''.fieldAt n 4 = highWord d :=
      (fieldAt_congr fun k hk => hsecond.outside _ (.inl (by omega))).trans hfirst.inside
    have hword : (n + 4) / 4 = n / 4 + 1 := by omega
    have hlow : m''.wordAt (n / 4 + 1) = lowWord d := by
      rw [← hword, ← fieldAt_four (by omega)]
      exact hsecond.inside
    rw [fieldAt_four haligned] at hhigh
    rw [fieldAt_eight haligned, hhigh, hlow]
    exact joinWords_highWord_lowWord d
  outside k hk := (hsecond.outside k (by omega)).trans (hfirst.outside k (by omega))

end Memory
end Concept32
