import Concept32.TranslationUnit
import Concept32.Proofs.Words

/-!
# Neighbouring addresses

The bytes of an aligned operand lie on one page, so they go to neighbouring physical addresses with the same
rights, and the physical address is aligned as well and inside memory with all of them.
-/

namespace Concept32.TranslationUnit
variable {m : TranslationUnit} {logical logical' physical physical' : Word} {access : Access} {mapped privileged : Bool}
  {bytes alignment k : Nat}

/-- The part of an address inside the smallest page. -/
private theorem offset_mappedAddress {extra : Nat} {frame : Word} (h : extra < 3) :
    (frame <<< (13 + extra) ||| (logical &&& ((1#32 <<< (13 + extra)) - 1))) &&& 0x1FFF#32 =
      logical &&& 0x1FFF#32 := by
  have hmask : ((1#32 <<< (13 + extra)) - 1) &&& 0x1FFF#32 = 0x1FFF#32 := by
    match extra, h with
    | 0, _ => decide
    | 1, _ => decide
    | 2, _ => decide
  have hframe : frame <<< (13 + extra) &&& 0x1FFF#32 = 0 := shiftLeft_and_eq_zero <| by
    match extra, h with
    | 0, _ => decide
    | 1, _ => decide
    | 2, _ => decide
  rw [BitVec.and_or_distrib_right, hframe, BitVec.and_assoc, hmask]
  exact BitVec.zero_or

/-- Addresses on one page go to one page, and keep their place on it. -/
theorem mappedAddress_near (h : m.mappedAddress logical access privileged = .ok physical)
    (hnear : logical' >>> 13 = logical >>> 13) :
    ∃ physical', m.mappedAddress logical' access privileged = .ok physical' ∧
      physical' >>> 13 = physical >>> 13 ∧ physical' &&& 0x1FFF#32 = logical' &&& 0x1FFF#32 ∧
      physical &&& 0x1FFF#32 = logical &&& 0x1FFF#32 := by
  have hshift : ∃ extra, m.scheme.pageShift = 13 + extra ∧ extra < 3 := by
    cases m.scheme
    · exact ⟨2, rfl, by decide⟩
    all_goals exact ⟨0, rfl, by decide⟩
  obtain ⟨extra, heq, hextra⟩ := hshift
  have hpage : logical' >>> (13 + extra) = logical >>> (13 + extra) := by
    rw [BitVec.shiftRight_add, hnear, BitVec.shiftRight_add]
  rw [mappedAddress] at h ⊢
  rw [heq] at h ⊢
  rw [hpage]
  split at h
  · cases h
  split at h
  · cases h
  split at h
  · cases h
  split at h
  · cases h
  next hvalid hresident hpermits =>
  cases h
  simp only [hvalid, hresident, hpermits, if_false, Bool.false_eq_true]
  refine ⟨_, rfl, ?_, offset_mappedAddress hextra, offset_mappedAddress hextra⟩
  rw [BitVec.ushiftRight_or_distrib, BitVec.ushiftRight_or_distrib, BitVec.ushiftRight_and_distrib,
    BitVec.ushiftRight_and_distrib, hnear]

theorem translate_eq_ok :
    m.translate logical access mapped privileged bytes = .ok physical ↔
      physical.toNat < bytes ∧
        (if mapped then m.mappedAddress (logical &&& 0x00FFFFFF#32) access privileged
          else .ok (logical &&& 0x00FFFFFF#32)) = .ok physical := by
  have hcut : ∀ p : Word, (if p.toNat < bytes then .ok p else .error (.nonPresent p) : Except AddressFault Word) =
      .ok physical ↔ physical.toNat < bytes ∧ p = physical := fun p => by
    split
    · next hlt => simp only [Except.ok.injEq]; exact ⟨fun h => ⟨h ▸ hlt, h⟩, And.right⟩
    · next hlt => simp only [reduceCtorEq, false_iff]; rintro ⟨hlt', rfl⟩; exact hlt hlt'
  cases mapped with
  | false => exact (hcut _).trans (by simp)
  | true =>
    simp only [translate, if_true]
    cases m.mappedAddress (logical &&& 0x00FFFFFF#32) access privileged with
    | error e => simp [bind, Except.bind]
    | ok p => exact (hcut p).trans (by simp)

/-- An access refused because its page is not resident is refused with the page. -/
theorem notResident_of_translate {place page : Word}
    (h : m.translate logical access mapped privileged bytes = .error (.notResident place page)) :
    place = logical &&& 0x00FFFFFF#32 ∧ page = place >>> m.scheme.pageShift := by
  have hmapped : ∀ a, m.mappedAddress a access privileged = .error (.notResident place page) →
      place = a ∧ page = a >>> m.scheme.pageShift := fun a h => by
    rw [mappedAddress] at h
    split at h
    · cases h
    split at h
    · cases h
    split at h
    · cases h
      exact ⟨rfl, rfl⟩
    split at h
    · cases h
    · cases h
  have hcut : ∀ p : Word, (if p.toNat < bytes then .ok p else .error (.nonPresent p) : Except AddressFault Word) ≠
      .error (.notResident place page) := fun p h => by
    split at h <;> cases h
  cases mapped with
  | false => exact absurd h (hcut _)
  | true =>
    simp only [translate, if_true] at h
    cases haddress : m.mappedAddress (logical &&& 0x00FFFFFF#32) access privileged with
    | error e =>
      rw [haddress] at h
      cases h
      obtain ⟨rfl, hpage⟩ := hmapped _ haddress
      exact ⟨rfl, hpage⟩
    | ok p =>
      rw [haddress] at h
      exact absurd h (hcut p)

/-- What is translated lies inside memory. -/
theorem translate_lt (h : m.translate logical access mapped privileged bytes = .ok physical) :
    physical.toNat < bytes :=
  (translate_eq_ok.mp h).1

private theorem toNat_and_low (a : Word) : (a &&& 0x1FFF#32).toNat = a.toNat % 0x2000 :=
  (BitVec.toNat_and ..).trans (Nat.and_two_pow_sub_one_eq_mod a.toNat 13)

theorem toNat_and_address (a : Word) : (a &&& 0x00FFFFFF#32).toNat = a.toNat % 0x1000000 :=
  (BitVec.toNat_and ..).trans (Nat.and_two_pow_sub_one_eq_mod a.toNat 24)

/-- What is translated keeps its place on its page. -/
theorem offset_of_translate (h : m.translate logical access mapped privileged bytes = .ok physical) :
    physical.toNat % 0x2000 = logical.toNat % 0x2000 := by
  obtain ⟨-, hp⟩ := translate_eq_ok.mp h
  have hcut : (logical &&& 0x00FFFFFF#32).toNat % 0x2000 = logical.toNat % 0x2000 := by
    rw [toNat_and_address]
    omega
  cases mapped with
  | false =>
    cases hp
    exact hcut
  | true =>
    obtain ⟨-, -, -, -, hoffset⟩ := mappedAddress_near hp rfl
    have hoffsetNat := congrArg BitVec.toNat hoffset
    rw [toNat_and_low, toNat_and_low] at hoffsetNat
    exact hoffsetNat.trans hcut

/-- An aligned operand is translated to an aligned one, each byte of it to the byte at the same place. -/
theorem translate_add (h : m.translate logical access mapped privileged bytes = .ok physical)
    (haligned : logical.toNat % alignment = 0) (hdvd : alignment ∣ 4) (hbytes : 4 ∣ bytes) (hk : k < alignment) :
    physical.toNat % alignment = 0 ∧
      ∃ neighbour, m.translate (logical + BitVec.ofNat 32 k) access mapped privileged bytes = .ok neighbour ∧
        neighbour.toNat = physical.toNat + k := by
  obtain ⟨hlt, hp⟩ := translate_eq_ok.mp h
  have halignment : alignment = 1 ∨ alignment = 2 ∨ alignment = 4 := by
    have hle := Nat.le_of_dvd (by decide) hdvd
    match alignment, hk, hle with
    | 1, _, _ => exact .inl rfl
    | 2, _, _ => exact .inr (.inl rfl)
    | 3, _, _ => exact absurd hdvd (by decide)
    | 4, _, _ => exact .inr (.inr rfl)
  generalize hfirst : logical &&& 0x00FFFFFF#32 = first at hp
  generalize hsecond : (logical + BitVec.ofNat 32 k) &&& 0x00FFFFFF#32 = second
  have hfirstNat : first.toNat = logical.toNat % 0x1000000 := by rw [← hfirst, toNat_and_address]
  have hsecondNat : second.toNat = first.toNat + k := by
    rw [← hsecond, toNat_and_address, hfirstNat, BitVec.toNat_add, BitVec.toNat_ofNat]
    rcases halignment with rfl | rfl | rfl <;> omega
  have hfirstAligned : first.toNat % alignment = 0 := by rcases halignment with rfl | rfl | rfl <;> omega
  have hinner : physical.toNat % alignment = 0 ∧ ∃ neighbour,
      (if mapped then m.mappedAddress second access privileged else .ok second) = .ok neighbour ∧
        neighbour.toNat = physical.toNat + k := by
    cases mapped with
    | false =>
      cases hp
      exact ⟨hfirstAligned, second, rfl, hsecondNat⟩
    | true =>
      have hnear : second >>> 13 = first >>> 13 := by
        apply BitVec.eq_of_toNat_eq
        rw [BitVec.toNat_ushiftRight, BitVec.toNat_ushiftRight, Nat.shiftRight_eq_div_pow, Nat.shiftRight_eq_div_pow]
        rcases halignment with rfl | rfl | rfl <;> omega
      obtain ⟨neighbour, hneighbour, hpage, hoffset', hoffset⟩ := mappedAddress_near hp hnear
      have hpageNat := congrArg BitVec.toNat hpage
      have hoffsetNat := congrArg BitVec.toNat hoffset
      have hoffsetNat' := congrArg BitVec.toNat hoffset'
      rw [BitVec.toNat_ushiftRight, BitVec.toNat_ushiftRight, Nat.shiftRight_eq_div_pow,
        Nat.shiftRight_eq_div_pow] at hpageNat
      rw [toNat_and_low, toNat_and_low] at hoffsetNat hoffsetNat'
      refine ⟨?_, neighbour, hneighbour, ?_⟩
      · rcases halignment with rfl | rfl | rfl <;> omega
      · rcases halignment with rfl | rfl | rfl <;> omega
  obtain ⟨hphysical, neighbour, hneighbour, hnat⟩ := hinner
  refine ⟨hphysical, neighbour, translate_eq_ok.mpr ⟨?_, by rw [hsecond]; exact hneighbour⟩, hnat⟩
  rcases halignment with rfl | rfl | rfl <;> omega

/-- The bytes of a doubleword that are translated keep their places in it. -/
theorem toNat_of_translate_add (haligned : logical.toNat % 8 = 0) (hk : k < 8)
    (h : m.translate logical access mapped privileged bytes = .ok physical)
    (h' : m.translate (logical + BitVec.ofNat 32 k) access mapped privileged bytes = .ok physical') :
    physical'.toNat = physical.toNat + k := by
  have hoffset := offset_of_translate h
  have hoffset' := offset_of_translate h'
  obtain ⟨-, hp⟩ := translate_eq_ok.mp h
  obtain ⟨-, hp'⟩ := translate_eq_ok.mp h'
  have hnext : (logical + BitVec.ofNat 32 k).toNat = logical.toNat + k := by
    rw [BitVec.toNat_add, BitVec.toNat_ofNat]
    omega
  have hcut := toNat_and_address logical
  have hcut' := toNat_and_address (logical + BitVec.ofNat 32 k)
  rw [hnext] at hcut' hoffset'
  cases mapped with
  | false =>
    cases hp
    cases hp'
    omega
  | true =>
    have hnear : ((logical + BitVec.ofNat 32 k) &&& 0x00FFFFFF#32) >>> 13 = (logical &&& 0x00FFFFFF#32) >>> 13 := by
      apply BitVec.eq_of_toNat_eq
      rw [BitVec.toNat_ushiftRight, BitVec.toNat_ushiftRight, Nat.shiftRight_eq_div_pow, Nat.shiftRight_eq_div_pow]
      omega
    obtain ⟨near, heq, hpage, -, -⟩ := mappedAddress_near hp hnear
    cases heq.symm.trans hp'
    have hpageNat := congrArg BitVec.toNat hpage
    rw [BitVec.toNat_ushiftRight, BitVec.toNat_ushiftRight, Nat.shiftRight_eq_div_pow,
      Nat.shiftRight_eq_div_pow] at hpageNat
    omega

end Concept32.TranslationUnit
