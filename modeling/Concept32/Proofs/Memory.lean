import Concept32.Memory
import Concept32.Proofs.Steps
import Concept32.Proofs.Words

/-!
# What memory holds

The words of memory after one has changed, and when an access is refused.
-/

namespace Concept32.Memory
variable {m m' : Memory} {a w : Word} {i j n : Nat}

/-! ### Words -/

/-- The word with a number; zero beyond the end. -/
def wordAt (m : Memory) (i : Nat) : Word := m.words.getD i 0

theorem wordAt_update (m : Memory) (i j : Nat) (f : Word → Word) :
    (m.update i f).wordAt j = if j = i ∧ i < m.words.size then f (m.wordAt i) else m.wordAt j := by
  simp only [wordAt, update, Array.getD_eq_getD_getElem?, Array.getElem?_modify]
  by_cases hj : i = j
  · subst hj
    by_cases hlt : i < m.words.size
    · simp [hlt]
    · simp [hlt]
  · rw [if_neg hj, if_neg (by omega)]

@[simp] theorem size_update (m : Memory) (i : Nat) (f : Word → Word) :
    (m.update i f).words.size = m.words.size := by
  simp [update]

theorem update_congr {f g : Word → Word} (h : f (m.wordAt i) = g (m.wordAt i)) : m.update i f = m.update i g := by
  have hwords : m.words.modify i f = m.words.modify i g := by
    refine Array.ext (by simp) fun j hj _ => ?_
    rw [Array.getElem_modify, Array.getElem_modify]
    split
    · next heq =>
      subst heq
      have hlt : i < m.words.size := by simpa using hj
      simpa [wordAt, hlt] using h
    · rfl
  simp only [update, hwords]

/-- A change that keeps the word, if there is one, is none. -/
theorem update_eq_self {f : Word → Word} (h : i < m.words.size → f (m.wordAt i) = m.wordAt i) : m.update i f = m := by
  have hwords : m.words.modify i f = m.words := by
    refine Array.ext (by simp) fun j hj _ => ?_
    rw [Array.getElem_modify]
    split
    · next heq =>
      subst heq
      have hlt : i < m.words.size := by simpa using hj
      simpa [wordAt, hlt] using h hlt
    · rfl
  simp only [update, hwords]

theorem update_update {f g : Word → Word} : (m.update i f).update i g = m.update i fun w => g (f w) := by
  have hwords : (m.words.modify i f).modify i g = m.words.modify i fun w => g (f w) := by
    refine Array.ext (by simp) fun j _ _ => ?_
    simp only [Array.getElem_modify]
    split <;> rfl
  simp only [update, hwords]

theorem byteAt_update (m : Memory) (i n : Nat) (f : Word → Word) :
    (m.update i f).byteAt n =
      if n / 4 = i ∧ i < m.words.size then byteOf (f (m.wordAt i)) (n % 4) else m.byteAt n := by
  have hword := m.wordAt_update i (n / 4) f
  rw [wordAt] at hword
  rw [byteAt, hword]
  split
  · rfl
  · rfl

theorem index_eq_ok {alignment : Nat} :
    m.index a alignment = .ok i ↔ a.toNat % alignment = 0 ∧ a.toNat / 4 < m.words.size ∧ i = a.toNat / 4 := by
  rw [index]
  split
  · next h => simp [h]
  · next h =>
    split
    · next hlt => simp [Decidable.not_not.mp h, hlt, eq_comm]
    · next hlt => simp [hlt]

/-- The address of a byte is always aligned. -/
theorem index_one : m.index a 1 = if a.toNat / 4 < m.words.size then .ok (a.toNat / 4) else .error (.nonPresent a) := by
  rw [index, if_neg (by omega)]

theorem readWord_eq_ok :
    m.readWord a = .ok w ↔ a.toNat % 4 = 0 ∧ a.toNat / 4 < m.words.size ∧ w = m.wordAt (a.toNat / 4) := by
  rw [readWord]
  cases h : m.index a 4 with
  | error e =>
    have : ¬(a.toNat % 4 = 0 ∧ a.toNat / 4 < m.words.size) := fun hin => by
      rw [index_eq_ok.mpr ⟨hin.1, hin.2, rfl⟩] at h
      cases h
    simp only [Except.map, reduceCtorEq, false_iff]
    exact fun ⟨h₁, h₂, _⟩ => this ⟨h₁, h₂⟩
  | ok i =>
    obtain ⟨haligned, hlt, rfl⟩ := index_eq_ok.mp h
    simp [Except.map, haligned, hlt, wordAt, eq_comm]

/-- A word beside the one that changes reads as before. -/
theorem readWord_update_of_ne {f : Word → Word} (hne : a.toNat / 4 ≠ i) : (m.update i f).readWord a = m.readWord a := by
  have hword : (m.update i f).wordAt (a.toNat / 4) = m.wordAt (a.toNat / 4) := by
    rw [wordAt_update, if_neg fun h => hne h.1]
  rw [readWord, readWord, index, index, size_update]
  split
  · rfl
  · split
    · exact congrArg Except.ok hword
    · rfl

theorem writeWord_eq_ok {u : Unit} :
    writeWord a w m = .ok u m' ↔
      a.toNat % 4 = 0 ∧ a.toNat / 4 < m.words.size ∧ m' = m.update (a.toNat / 4) fun _ => w := by
  rw [writeWord, change]
  cases h : m.index a 4 with
  | error e =>
    have : ¬(a.toNat % 4 = 0 ∧ a.toNat / 4 < m.words.size) := fun hin => by
      rw [index_eq_ok.mpr ⟨hin.1, hin.2, rfl⟩] at h
      cases h
    simp only [reduceCtorEq, false_iff]
    exact fun ⟨h₁, h₂, _⟩ => this ⟨h₁, h₂⟩
  | ok i =>
    obtain ⟨haligned, hlt, rfl⟩ := index_eq_ok.mp h
    simp [haligned, hlt, eq_comm]

/-- A change of a word that is there is not refused. -/
theorem change_of_lt {alignment : Nat} {f : Word → Word} (haligned : a.toNat % alignment = 0)
    (hlt : a.toNat < m.sizeBytes) : change a alignment f m = .ok () (m.update (a.toNat / 4) f) := by
  have hindex : m.index a alignment = .ok (a.toNat / 4) :=
    index_eq_ok.mpr ⟨haligned, by rw [sizeBytes] at hlt; omega, rfl⟩
  rw [change, hindex]

theorem after_change {alignment : Nat} {f : Word → Word} : m.after (change a alignment f) =
    if a.toNat % alignment = 0 ∧ a.toNat / 4 < m.words.size then m.update (a.toNat / 4) f else m := by
  rw [after, change]
  by_cases hin : a.toNat % alignment = 0 ∧ a.toNat / 4 < m.words.size
  · rw [if_pos hin, index_eq_ok.mpr ⟨hin.1, hin.2, rfl⟩]
  · rw [if_neg hin]
    cases hindex : m.index a alignment with
    | error e => rfl
    | ok i =>
      obtain ⟨haligned, hpresent, -⟩ := index_eq_ok.mp hindex
      exact absurd ⟨haligned, hpresent⟩ hin

theorem size_after_change {alignment : Nat} {f : Word → Word} :
    (m.after (change a alignment f)).words.size = m.words.size := by
  rw [after_change]
  split
  · exact size_update m _ f
  · rfl

/-- Of two words the second is stored only if the first could be. -/
theorem after_writePair_cases (m : Memory) (a first second : Word) :
    m.after (writePair a first second) = m.after (writeWord a first) ∨
      m.after (writePair a first second) = (m.after (writeWord a first)).after (writeWord (a + 4) second) := by
  cases hfirst : writeWord a first m with
  | error e m' =>
    rw [after, writePair, EStateM.bind_of_error hfirst, after, hfirst]
    exact .inl rfl
  | ok u m' =>
    rw [after, writePair, EStateM.bind_of_ok hfirst, after, hfirst]
    exact .inr rfl

/-- A byte beside the one that is stored stays. -/
theorem byteAt_writeByte_of_ne {b : Byte} (hne : n ≠ a.toNat) : (m.after (writeByte a b)).byteAt n = m.byteAt n := by
  by_cases hlt : a.toNat / 4 < m.words.size
  · rw [after, writeByte, change, index_one, if_pos hlt]
    dsimp only
    rw [byteAt_update]
    split
    · next hword =>
      rw [byteOf_withByte_of_ne (by omega) (by omega) (by omega), byteAt, wordAt, hword.1]
    · rfl
  · rw [after, writeByte, change, index_one, if_neg hlt]

/-- Two words that fit into memory are both stored. -/
theorem writePair_of_fits {first second : Word} (haligned : a.toNat % 4 = 0) (hnext : (a + 4).toNat = a.toNat + 4)
    (hfits : a.toNat / 4 + 1 < m.words.size) :
    writePair a first second m =
      .ok () ((m.update (a.toNat / 4) fun _ => first).update (a.toNat / 4 + 1) fun _ => second) := by
  have hfirst : writeWord a first m = .ok () (m.update (a.toNat / 4) fun _ => first) :=
    writeWord_eq_ok.mpr ⟨haligned, by omega, rfl⟩
  have hsecond : writeWord (a + 4) second (m.update (a.toNat / 4) fun _ => first) =
      .ok () ((m.update (a.toNat / 4) fun _ => first).update (a.toNat / 4 + 1) fun _ => second) := by
    rw [writeWord_eq_ok, hnext, size_update]
    have hindex : (a.toNat + 4) / 4 = a.toNat / 4 + 1 := by omega
    exact ⟨by omega, by omega, by rw [hindex]⟩
  exact EStateM.bind_eq_ok.mpr ⟨_, _, hfirst, hsecond⟩

theorem after_writePair {first second : Word} (haligned : a.toNat % 4 = 0) (hnext : (a + 4).toNat = a.toNat + 4)
    (hfits : a.toNat / 4 + 1 < m.words.size) :
    m.after (writePair a first second) =
      (m.update (a.toNat / 4) fun _ => first).update (a.toNat / 4 + 1) fun _ => second := by
  rw [after, writePair_of_fits haligned hnext hfits]

/-! ### Bytes one after the other -/

/-- Memory with bytes put from a byte address on; a place beyond the end is passed over. -/
def storeBytes (m : Memory) (start : Nat) : List Byte → Memory
  | [] => m
  | b :: rest =>
    (m.update (start / 4) fun w => withByte w (start % 4) b).storeBytes (start + 1) rest

/-- Bytes that fit into memory are all stored. -/
theorem writeBytes_of_fits {image : List Byte} (hfits : a.toNat + image.length ≤ m.sizeBytes) :
    writeBytes a image m = .ok () (m.storeBytes a.toNat image) := by
  induction image generalizing m a with
  | nil => rfl
  | cons b rest ih =>
    rw [List.length_cons] at hfits
    have hfirst : writeByte a b m = .ok () (m.update (a.toNat / 4) fun w => withByte w (a.toNat % 4) b) :=
      change_of_lt (Nat.mod_one _) (by omega)
    have hbound := m.size_le
    have hsize : m.sizeBytes = 4 * m.words.size := rfl
    have hnext : (a + 1).toNat = a.toNat + 1 := by
      rw [BitVec.toNat_add]
      exact Nat.mod_eq_of_lt (by show a.toNat + 1 < 0x100000000; omega)
    rw [writeBytes, EStateM.bind_of_ok hfirst, ih (by rw [hnext, sizeBytes_update]; omega), hnext]
    rfl

end Concept32.Memory
