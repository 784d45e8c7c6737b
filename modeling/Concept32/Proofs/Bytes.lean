import Concept32.Proofs.Fields

/-!
# Memory as an array of bytes

Memory keeps words, but it does what a plain array of bytes does in which the first byte of a number is the most
significant. Every answer in a sequence of reads, stores and images is the one that the array gives, and the bytes
are those of the array. A request that is refused changes nothing.
-/

namespace Concept32

/-! ### Numbers as bytes -/

/-- The number that bytes mean, the first the most significant. -/
def bigEndian (bytes : List Byte) : Nat := bytes.foldl (fun n b => 0x100 * n + b.toNat) 0

/-- So many last bytes of a number, the most significant first. -/
def lowBytes : (count : Nat) → Nat → List Byte
  | 0, _ => []
  | count + 1, n => lowBytes count (n / 0x100) ++ [BitVec.ofNat 8 n]

/-- An array with bytes put from a place on. -/
def splice (bytes : List Byte) (place : Nat) (new : List Byte) : List Byte :=
  bytes.take place ++ new ++ bytes.drop (place + new.length)

section
variable {bytes new : List Byte} {b : Byte} {count n k place : Nat}

theorem bigEndian_append : bigEndian (bytes ++ [b]) = 0x100 * bigEndian bytes + b.toNat := by
  rw [bigEndian, List.foldl_append]
  rfl

@[simp] theorem length_lowBytes : (lowBytes count n).length = count := by
  induction count generalizing n with
  | zero => rfl
  | succ count ih => rw [lowBytes, List.length_append, ih, List.length_singleton]

/-- The bytes of a number are its digits to the base 256. -/
theorem getElem?_lowBytes (hk : k < count) :
    (lowBytes count n)[k]? = some (BitVec.ofNat 8 (n / Nat.pow 2 (8 * (count - 1 - k)))) := by
  induction count generalizing n with
  | zero => omega
  | succ count ih =>
    rw [lowBytes]
    by_cases hlast : k < count
    · have hpower : 0x100 * Nat.pow 2 (8 * (count - 1 - k)) = Nat.pow 2 (8 * (count + 1 - 1 - k)) := by
        have hdigits : 8 * (count + 1 - 1 - k) = 8 + 8 * (count - 1 - k) := by omega
        rw [hdigits]
        exact (Nat.pow_add 2 8 _).symm
      rw [List.getElem?_append_left (Nat.lt_of_lt_of_eq hlast length_lowBytes.symm), ih hlast, Nat.div_div_eq_div_mul,
        hpower]
    · obtain rfl : k = count := by omega
      rw [List.getElem?_append_right (Nat.le_of_eq length_lowBytes), length_lowBytes, Nat.sub_self]
      simp

theorem getElem?_splice (hfits : place + new.length ≤ bytes.length) :
    (splice bytes place new)[k]? =
      if place ≤ k ∧ k < place + new.length then new[k - place]? else bytes[k]? := by
  rw [splice, List.append_assoc]
  by_cases hbefore : k < place
  · rw [List.getElem?_append_left (by rw [List.length_take]; omega), List.getElem?_take_of_lt hbefore,
      if_neg (by omega)]
  · have hfirst : (bytes.take place).length = place := by rw [List.length_take]; omega
    rw [List.getElem?_append_right (by omega), hfirst]
    by_cases hin : k < place + new.length
    · rw [List.getElem?_append_left (by omega), if_pos ⟨Nat.le_of_not_lt hbefore, hin⟩]
    · rw [List.getElem?_append_right (by omega), List.getElem?_drop, if_neg (by omega)]
      congr 1
      omega

theorem splice_nil : splice bytes place [] = bytes := by
  rw [splice, List.append_nil, List.length_nil, Nat.add_zero, List.take_append_drop]

end

/-! ### Requests -/

/-- How much of memory is read or stored at once. -/
inductive Width
  | byte
  | half
  | word
  | double
  deriving DecidableEq, Repr

def Width.bytes : Width → Nat
  | .byte => 1
  | .half => 2
  | .word => 4
  | .double => 8

/-- Something that is asked of memory. -/
inductive Request
  | read (width : Width) (a : Word)
  | write (width : Width) (a : Word) (value : BitVec (8 * width.bytes))
  | load (a : Word) (image : List Byte)

/-- The number that has been read, if one was asked for, or the reason why a request was refused. -/
abbrev Answer := Except MemoryError (Option Nat)

/-- The answers to requests one after the other, and what has become of that which answers them. -/
def answers {σ : Type} (answer : σ → Request → Answer × σ) (s : σ) : List Request → List Answer × σ
  | [] => ([], s)
  | r :: rest => ((answer s r).1 :: (answers answer (answer s r).2 rest).1, (answers answer (answer s r).2 rest).2)

namespace Request

def address : Request → Word
  | read _ a | write _ a _ | load a _ => a

/-- The number of bytes that are read or stored. -/
def length : Request → Nat
  | read width _ | write width _ _ => width.bytes
  | load _ image => image.length

/-- What the address must be a multiple of. -/
def alignment : Request → Nat
  | read width _ | write width _ _ => width.bytes
  | load .. => 1

def Aligned (r : Request) : Prop := r.address.toNat % r.alignment = 0

/-- All bytes lie in an array of a size. An empty image has none. -/
def Inside (r : Request) (size : Nat) : Prop := r.length = 0 ∨ r.address.toNat + r.length ≤ size

instance {r : Request} : Decidable r.Aligned := inferInstanceAs (Decidable (_ = _))

instance {r : Request} {size : Nat} : Decidable (r.Inside size) := inferInstanceAs (Decidable (_ ∨ _))

/-- The address that is named when an array of a size does not hold all bytes: of a doubleword the first word that is
missing or, for a store, the second word; of an image its last byte, if that has an address. -/
def missing (size : Nat) : Request → Word
  | read .double a => if a.toNat + 4 ≤ size then a + 4 else a
  | write .double a _ => a + 4
  | read _ a | write _ a _ => a
  | load a image =>
    if 0x100000000 ≤ image.length ∨ 0x100000000 < a.toNat + image.length then a
    else BitVec.ofNat 32 (a.toNat + image.length - 1)

/-- What a plain array of bytes answers to a request that is not refused, and the array after it. -/
def granted (bytes : List Byte) : Request → Answer × List Byte
  | read width a => (.ok (some (bigEndian ((bytes.drop a.toNat).take width.bytes))), bytes)
  | write width a value => (.ok none, splice bytes a.toNat (lowBytes width.bytes value.toNat))
  | load a image => (.ok none, splice bytes a.toNat image)

/-- What a plain array of bytes answers to a request, and the array after it. -/
def onBytes (bytes : List Byte) (r : Request) : Answer × List Byte :=
  if ¬r.Aligned then (.error (.misaligned r.address), bytes)
  else if ¬r.Inside bytes.length then (.error (.nonPresent (r.missing bytes.length)), bytes)
  else r.granted bytes

end Request

namespace Memory
variable {m m' : Memory} {a : Word} {width : Width} {n k start : Nat} {image : List Byte} {r : Request}

/-- Read at one of the widths. -/
def read (m : Memory) (a : Word) : (width : Width) → Except MemoryError (BitVec (8 * width.bytes))
  | .byte => m.readByte a
  | .half => m.readHalf a
  | .word => m.readWord a
  | .double => m.readDouble a

/-- Store at one of the widths. -/
def write (a : Word) : (width : Width) → BitVec (8 * width.bytes) → Action Unit
  | .byte, b => writeByte a b
  | .half, h => writeHalf a h
  | .word, w => writeWord a w
  | .double, d => writeDouble a d

/-- The answer to something that is done to memory, and memory after it. -/
def done (x : Action Unit) (m : Memory) : Answer × Memory :=
  match x m with
  | .ok _ m => (.ok none, m)
  | .error e m => (.error e, m)

/-- What memory answers to a request, and memory after it. -/
def answer (m : Memory) : Request → Answer × Memory
  | .read width a => ((m.read a width).map fun value => some value.toNat, m)
  | .write width a value => done (write a width value) m
  | .load a image => done (loadImage a image) m

/-- The bytes of memory in order. -/
def bytes (m : Memory) : List Byte := (List.range m.sizeBytes).map m.byteAt

/-! ### The bytes of memory -/

@[simp] theorem length_bytes : m.bytes.length = m.sizeBytes := by
  rw [bytes, List.length_map, List.length_range]

theorem getElem?_bytes : m.bytes[k]? = if k < m.sizeBytes then some (m.byteAt k) else none := by
  rw [bytes, List.getElem?_map]
  split
  · next hk => rw [List.getElem?_range hk, Option.map_some]
  · next hk =>
    rw [List.getElem?_eq_none (by rw [List.length_range]; exact Nat.le_of_not_lt hk), Option.map_none]

theorem bigEndian_bytes {count : Nat} (hfits : start + count ≤ m.sizeBytes) :
    bigEndian ((m.bytes.drop start).take count) = (m.fieldAt start count).toNat := by
  induction count with
  | zero => rw [List.take_zero]; rfl
  | succ count ih =>
    have hlast : (m.bytes.drop start)[count]? = some (m.byteAt (start + count)) := by
      rw [List.getElem?_drop, getElem?_bytes, if_pos (by omega)]
    rw [List.take_add_one, hlast, Option.toList_some, bigEndian_append, ih (by omega), fieldAt, BitVec.toNat_append,
      ← Nat.shiftLeft_add_eq_or_of_lt (m.byteAt (start + count)).isLt, Nat.shiftLeft_eq]
    omega

/-- Memory whose bytes have been put from a place on. -/
theorem bytes_eq_splice {new : List Byte} (hsize : m'.words.size = m.words.size)
    (hfits : start + new.length ≤ m.sizeBytes) (hinside : ∀ k < new.length, new[k]? = some (m'.byteAt (start + k)))
    (houtside : ∀ k, k < start ∨ start + new.length ≤ k → m'.byteAt k = m.byteAt k) :
    m'.bytes = splice m.bytes start new := by
  have hbytes : m'.sizeBytes = m.sizeBytes := by rw [sizeBytes, sizeBytes, hsize]
  refine List.ext_getElem? fun k => ?_
  rw [getElem?_splice (by rw [length_bytes]; exact hfits), getElem?_bytes, getElem?_bytes, hbytes]
  split
  · next hk =>
    split
    · next hin => rw [hinside _ (by omega), Nat.add_sub_cancel' hin.1]
    · next hout => rw [houtside _ (by omega)]
  · next hk => rw [if_neg (by omega)]

theorem bytes_of_stores {value : BitVec (8 * n)} (hfits : start + n ≤ m.sizeBytes) (h : m.Stores start n value m') :
    m'.bytes = splice m.bytes start (lowBytes n value.toNat) := by
  refine bytes_eq_splice h.size (by rw [length_lowBytes]; exact hfits) (fun k hk => ?_) fun k hk => h.outside k ?_
  · rw [length_lowBytes] at hk
    rw [getElem?_lowBytes hk, fieldAt_eq_iff.mp h.inside k hk, BitVec.extractLsb', Nat.shiftRight_eq_div_pow]
    rfl
  · rw [length_lowBytes] at hk
    exact hk

theorem bytes_ofSize {size : MemorySize} : (ofSize size).bytes = List.replicate size.bytes 0 := by
  have hword : ∀ i, (ofSize size).wordAt i = 0 := fun i => by
    rw [wordAt, ofSize, Array.getD_eq_getD_getElem?, Array.getElem?_replicate]
    split
    · rfl
    · rfl
  have hbyte : ∀ k, (ofSize size).byteAt k = 0 := fun k => by
    rw [byteAt, ← wordAt, hword, byteOf]
    simp
  have hsize : (ofSize size).sizeBytes = size.bytes := by rw [sizeBytes, ofSize, Array.size_replicate, MemorySize.bytes]
  rw [bytes, hsize, List.map_congr_left fun k _ => hbyte k, List.map_const', List.length_range]

/-! ### Reading and storing at a width -/

/-- An aligned address within memory has its word, and any other is refused. -/
theorem index_eq {alignment : Nat} (h : alignment = 1 ∨ alignment = 2 ∨ alignment = 4) :
    m.index a alignment =
      if a.toNat % alignment ≠ 0 then .error (.misaligned a)
      else if a.toNat + alignment ≤ m.sizeBytes then .ok (a.toNat / 4)
      else .error (.nonPresent a) := by
  rw [index, sizeBytes]
  split
  · rfl
  · next haligned =>
    have hfits : a.toNat / 4 < m.words.size ↔ a.toNat + alignment ≤ 4 * m.words.size := by
      rcases h with rfl | rfl | rfl <;> omega
    simp only [hfits]

theorem read_of_index {β : Type} {f : Nat → β} {value : β} {alignment : Nat}
    (h : alignment = 1 ∨ alignment = 2 ∨ alignment = 4) (hf : a.toNat % alignment = 0 → f (a.toNat / 4) = value) :
    (m.index a alignment).map f =
      if a.toNat % alignment ≠ 0 then .error (.misaligned a)
      else if a.toNat + alignment ≤ m.sizeBytes then .ok value
      else .error (.nonPresent a) := by
  rw [index_eq h]
  split
  · rfl
  · next haligned =>
    split
    · exact congrArg Except.ok (hf (Decidable.not_not.mp haligned))
    · rfl

theorem toNat_second (h : a.toNat % 8 = 0) : (a + 4).toNat = a.toNat + 4 := by
  have hlt := a.isLt
  rw [BitVec.toNat_add]
  exact Nat.mod_eq_of_lt (by show a.toNat + 4 < 0x100000000; omega)

theorem readDouble_eq : m.readDouble a =
    if a.toNat % 8 ≠ 0 then .error (.misaligned a)
    else if a.toNat + 8 ≤ m.sizeBytes then .ok (m.fieldAt a.toNat 8)
    else .error (.nonPresent (if a.toNat + 4 ≤ m.sizeBytes then a + 4 else a)) := by
  rw [readDouble, index]
  split
  · rfl
  · next h =>
    have haligned : a.toNat % 8 = 0 := Decidable.not_not.mp h
    have hsecond := toNat_second haligned
    have hsize : m.sizeBytes = 4 * m.words.size := rfl
    by_cases hfirst : a.toNat + 4 ≤ m.sizeBytes
    · have hhigh : m.readWord a = .ok (m.wordAt (a.toNat / 4)) := readWord_eq_ok.mpr ⟨by omega, by omega, rfl⟩
      rw [if_pos (by omega), hhigh, if_pos hfirst]
      by_cases hfits : a.toNat + 8 ≤ m.sizeBytes
      · have hlow : m.readWord (a + 4) = .ok (m.wordAt (a.toNat / 4 + 1)) :=
          readWord_eq_ok.mpr ⟨by omega, by omega, by congr 1; omega⟩
        rw [hlow, if_pos hfits, fieldAt_eight (by omega)]
        rfl
      · have hlow : m.readWord (a + 4) = .error (.nonPresent (a + 4)) := by
          rw [readWord, index_eq (.inr (.inr rfl)), if_neg (by omega), if_neg (by omega)]
          rfl
        rw [hlow, if_neg hfits]
        rfl
    · rw [if_neg (by omega), if_neg (by omega), if_neg hfirst]
      rfl

theorem read_eq : m.read a width =
    if a.toNat % width.bytes ≠ 0 then .error (.misaligned a)
    else if a.toNat + width.bytes ≤ m.sizeBytes then .ok (m.fieldAt a.toNat width.bytes)
    else .error (.nonPresent ((Request.read width a).missing m.sizeBytes)) := by
  cases width with
  | byte => exact read_of_index (.inl rfl) fun _ => fieldAt_one.symm
  | half => exact read_of_index (.inr (.inl rfl)) fun h => (fieldAt_two h).symm
  | word => exact read_of_index (.inr (.inr rfl)) fun h => (fieldAt_four h).symm
  | double => exact readDouble_eq

/-- Something is stored that has so many bytes: it is refused as misaligned or for lack of bytes, or it is done. -/
inductive StoresOrNot (m : Memory) (a : Word) (bytes : Nat) (value : BitVec (8 * bytes)) (missing : Word) :
    EStateM.Result MemoryError Memory Unit → Prop
  | misaligned (haligned : a.toNat % bytes ≠ 0) : StoresOrNot m a bytes value missing (.error (.misaligned a) m)
  | missing (haligned : a.toNat % bytes = 0) (hfits : ¬a.toNat + bytes ≤ m.sizeBytes) :
    StoresOrNot m a bytes value missing (.error (.nonPresent missing) m)
  | stored {m' : Memory} (haligned : a.toNat % bytes = 0) (hfits : a.toNat + bytes ≤ m.sizeBytes)
      (hstores : m.Stores a.toNat bytes value m') : StoresOrNot m a bytes value missing (.ok () m')

theorem storesOrNot_change {bytes : Nat} {value : BitVec (8 * bytes)} {f : Word → Word}
    (h : bytes = 1 ∨ bytes = 2 ∨ bytes = 4)
    (hf : a.toNat % bytes = 0 → a.toNat / 4 < m.words.size →
      m.Stores a.toNat bytes value (m.update (a.toNat / 4) f)) :
    m.StoresOrNot a bytes value a (change a bytes f m) := by
  rw [change, index_eq h]
  by_cases haligned : a.toNat % bytes = 0
  · rw [if_neg (not_not_intro haligned)]
    by_cases hfits : a.toNat + bytes ≤ m.sizeBytes
    · rw [if_pos hfits]
      exact .stored haligned hfits (hf haligned (by rw [sizeBytes] at hfits; omega))
    · rw [if_neg hfits]
      exact .missing haligned hfits
  · rw [if_pos haligned]
    exact .misaligned haligned

theorem storesOrNot_writeDouble {d : Double} : m.StoresOrNot a 8 d (a + 4) (writeDouble a d m) := by
  rw [writeDouble]
  by_cases haligned : a.toNat % 8 = 0
  · have hsecond := toNat_second haligned
    have hsize : m.sizeBytes = 4 * m.words.size := rfl
    rw [if_neg (not_not_intro haligned), index_one]
    by_cases hfits : a.toNat + 8 ≤ m.sizeBytes
    · -- Where the second word is, the first is as well, so neither store is refused.
      have hnext : (a.toNat + 4) / 4 = a.toNat / 4 + 1 := by omega
      have hhigh := stores_word (m := m) (n := a.toNat) (by omega) (by omega) (highWord d)
      have hlow := stores_word (m := m.update (a.toNat / 4) fun _ => highWord d) (n := a.toNat + 4)
        (by rw [size_update]; omega) (by omega) (lowWord d)
      rw [hnext] at hlow
      rw [if_pos (by omega), writePair_of_fits (by omega) hsecond (by omega)]
      exact .stored haligned hfits (stores_double (by omega) hhigh hlow)
    · rw [if_neg (by omega)]
      exact .missing haligned hfits
  · rw [if_pos haligned]
    exact .misaligned haligned

theorem storesOrNot_write {value : BitVec (8 * width.bytes)} :
    m.StoresOrNot a width.bytes value ((Request.write width a value).missing m.sizeBytes) (write a width value m) := by
  cases width with
  | byte => exact storesOrNot_change (.inl rfl) fun _ hin => stores_byte hin value
  | half => exact storesOrNot_change (.inr (.inl rfl)) fun haligned hin => stores_half hin haligned value
  | word => exact storesOrNot_change (.inr (.inr rfl)) fun haligned hin => stores_word hin haligned value
  | double => exact storesOrNot_writeDouble

/-! ### Images -/

/-- Bytes that are stored one after the other lie there in order. -/
theorem storeBytes_spec (hfits : start + image.length ≤ m.sizeBytes) :
    (m.storeBytes start image).words.size = m.words.size ∧
      (∀ k < image.length, image[k]? = some ((m.storeBytes start image).byteAt (start + k))) ∧
      ∀ k, k < start ∨ start + image.length ≤ k → (m.storeBytes start image).byteAt k = m.byteAt k := by
  induction image generalizing m start with
  | nil => exact ⟨rfl, fun k hk => absurd hk (Nat.not_lt_zero k), fun k _ => rfl⟩
  | cons b rest ih =>
    rw [List.length_cons] at hfits
    have hfirst : m.Stores start 1 b (m.update (start / 4) fun w => withByte w (start % 4) b) :=
      stores_byte (by rw [sizeBytes] at hfits; omega) b
    have hsize : (m.update (start / 4) fun w => withByte w (start % 4) b).sizeBytes = m.sizeBytes := sizeBytes_update ..
    obtain ⟨hrest, hinside, houtside⟩ := @ih _ (start + 1) (by rw [hsize]; omega)
    rw [storeBytes]
    refine ⟨hrest.trans hfirst.size, fun k hk => ?_, fun k hk => ?_⟩
    · cases k with
      | zero =>
        -- The rest is stored behind the first byte, which stays.
        have hbyte := hfirst.inside
        rw [fieldAt_one] at hbyte
        have hkept := houtside start (.inl (Nat.lt_succ_self start))
        exact congrArg some (hkept.trans hbyte).symm
      | succ k =>
        rw [List.length_cons] at hk
        rw [List.getElem?_cons_succ, hinside k (by omega), Nat.add_right_comm, Nat.add_assoc]
    · rw [List.length_cons] at hk
      exact (houtside k (by omega)).trans (hfirst.outside k (by omega))

theorem bytes_storeBytes (h : (Request.load a image).Inside m.sizeBytes) :
    (m.storeBytes a.toNat image).bytes = splice m.bytes a.toNat image := by
  rcases h with hempty | hfits
  · obtain rfl : image = [] := List.eq_nil_of_length_eq_zero hempty
    exact splice_nil.symm
  · obtain ⟨hsize, hinside, houtside⟩ := storeBytes_spec hfits
    exact bytes_eq_splice hsize hfits hinside houtside

theorem loadImage_eq : loadImage a image m =
    if (Request.load a image).Inside m.sizeBytes then .ok () (m.storeBytes a.toNat image)
    else .error (.nonPresent ((Request.load a image).missing m.sizeBytes)) m := by
  have hsize : m.sizeBytes = 4 * m.words.size := rfl
  have hbound := m.size_le
  have hlt := a.isLt
  rw [loadImage]
  cases image with
  | nil => rfl
  | cons b rest =>
    have hlength : (b :: rest).length = rest.length + 1 := rfl
    have hinside : (Request.load a (b :: rest)).Inside m.sizeBytes ↔ a.toNat + (rest.length + 1) ≤ m.sizeBytes := by
      rw [Request.Inside, Request.length, Request.address, hlength]
      omega
    have hbeyond : (0x100000000 ≤ rest.length + 1 ∨ 0x100000000 ≤ a.toNat + (rest.length + 1) - 1) ↔
        0x100000000 ≤ rest.length + 1 ∨ 0x100000000 < a.toNat + (rest.length + 1) := by omega
    rw [if_neg (by exact Bool.false_ne_true), Request.missing, hlength]
    simp only [hinside, hbeyond]
    split
    · next hout => rw [if_neg (by omega)]
    · next hin =>
      have hlast : (BitVec.ofNat 32 (a.toNat + (rest.length + 1) - 1)).toNat = a.toNat + (rest.length + 1) - 1 := by
        rw [BitVec.toNat_ofNat]
        exact Nat.mod_eq_of_lt (by show _ < 0x100000000; omega)
      rw [index_one, hlast]
      by_cases hfits : a.toNat + (rest.length + 1) ≤ m.sizeBytes
      · rw [if_pos (by omega), if_pos hfits]
        exact writeBytes_of_fits (by rw [hlength]; exact hfits)
      · rw [if_neg (by omega), if_neg hfits]

/-! ### Answers -/

theorem onBytes_of_misaligned (h : ¬r.Aligned) : r.onBytes m.bytes = (.error (.misaligned r.address), m.bytes) :=
  if_pos h

theorem onBytes_of_missing (haligned : r.Aligned) (h : ¬r.Inside m.sizeBytes) :
    r.onBytes m.bytes = (.error (.nonPresent (r.missing m.sizeBytes)), m.bytes) := by
  rw [Request.onBytes, length_bytes, if_neg (not_not_intro haligned), if_pos h]

theorem onBytes_of_granted (haligned : r.Aligned) (h : r.Inside m.sizeBytes) : r.onBytes m.bytes = r.granted m.bytes := by
  rw [Request.onBytes, length_bytes, if_neg (not_not_intro haligned), if_neg (not_not_intro h)]

/-- What has become of a request: it was refused and memory is as it was, or it was granted. -/
inductive Answers (m : Memory) (r : Request) : Answer × Memory → Prop
  | misaligned (haligned : ¬r.Aligned) : Answers m r (.error (.misaligned r.address), m)
  | missing (haligned : r.Aligned) (hinside : ¬r.Inside m.sizeBytes) :
    Answers m r (.error (.nonPresent (r.missing m.sizeBytes)), m)
  | granted {answer : Option Nat} {m' : Memory} (haligned : r.Aligned) (hinside : r.Inside m.sizeBytes)
      (h : r.granted m.bytes = (.ok answer, m'.bytes)) : Answers m r (.ok answer, m')

theorem inside_iff {r : Request} {size : Nat} (h : 0 < r.length) : r.Inside size ↔ r.address.toNat + r.length ≤ size := by
  rw [Request.Inside]
  omega

theorem Width.bytes_pos (width : Width) : 0 < width.bytes := by cases width <;> decide

theorem answers_answer (m : Memory) (r : Request) : m.Answers r (m.answer r) := by
  cases r with
  | read width a =>
    have hinside : (Request.read width a).Inside m.sizeBytes ↔ a.toNat + width.bytes ≤ m.sizeBytes :=
      inside_iff (Width.bytes_pos width)
    rw [answer, read_eq]
    split
    · next haligned => exact .misaligned haligned
    · next haligned =>
      have haligned : (Request.read width a).Aligned := Decidable.not_not.mp haligned
      split
      · next hfits =>
        refine .granted haligned (hinside.mpr hfits) ?_
        rw [Request.granted, bigEndian_bytes hfits]
      · next hfits => exact .missing haligned fun h => hfits (hinside.mp h)
  | write width a value =>
    have hinside : (Request.write width a value).Inside m.sizeBytes ↔ a.toNat + width.bytes ≤ m.sizeBytes :=
      inside_iff (Width.bytes_pos width)
    have hwrite : m.StoresOrNot a width.bytes value _ (write a width value m) := storesOrNot_write
    rw [answer, done]
    generalize write a width value m = result at hwrite ⊢
    cases hwrite with
    | misaligned haligned => exact .misaligned haligned
    | missing haligned hfits => exact .missing haligned fun h => hfits (hinside.mp h)
    | stored haligned hfits hstores =>
      refine .granted haligned (hinside.mpr hfits) ?_
      rw [Request.granted, bytes_of_stores hfits hstores]
  | load a image =>
    have haligned : (Request.load a image).Aligned := Nat.mod_one _
    rw [answer, done, loadImage_eq]
    by_cases hinside : (Request.load a image).Inside m.sizeBytes
    · rw [if_pos hinside]
      refine .granted haligned hinside ?_
      rw [Request.granted, bytes_storeBytes hinside]
    · rw [if_neg hinside]
      exact .missing haligned hinside

theorem answer_eq : ((m.answer r).1, (m.answer r).2.bytes) = r.onBytes m.bytes := by
  have h := answers_answer m r
  generalize m.answer r = answered at h ⊢
  cases h with
  | misaligned haligned => exact (onBytes_of_misaligned haligned).symm
  | missing haligned hinside => exact (onBytes_of_missing haligned hinside).symm
  | granted haligned hinside h => rw [onBytes_of_granted haligned hinside, h]

/-- One request after the other, memory stays with the array. -/
theorem answers_eq (requests : List Request) :
    ((answers answer m requests).1, (answers answer m requests).2.bytes) =
      answers Request.onBytes m.bytes requests := by
  induction requests generalizing m with
  | nil => rfl
  | cons r rest ih =>
    rw [answers, answers, ← answer_eq]
    dsimp only
    rw [← ih]

theorem misaligned_iff : (∃ a, (m.answer r).1 = .error (.misaligned a)) ↔ ¬r.Aligned := by
  have h := answers_answer m r
  generalize m.answer r = answered at h ⊢
  cases h with
  | misaligned haligned => exact iff_of_true ⟨r.address, rfl⟩ haligned
  | missing haligned hinside => exact iff_of_false (fun ⟨_, h⟩ => by cases h) (not_not_intro haligned)
  | granted haligned hinside h => exact iff_of_false (fun ⟨_, h⟩ => by cases h) (not_not_intro haligned)

theorem nonPresent_iff :
    (∃ a, (m.answer r).1 = .error (.nonPresent a)) ↔ r.Aligned ∧ ¬r.Inside m.sizeBytes := by
  have h := answers_answer m r
  generalize m.answer r = answered at h ⊢
  cases h with
  | misaligned haligned => exact iff_of_false (fun ⟨_, h⟩ => by cases h) fun h => haligned h.1
  | missing haligned hinside => exact iff_of_true ⟨r.missing m.sizeBytes, rfl⟩ ⟨haligned, hinside⟩
  | granted haligned hinside h => exact iff_of_false (fun ⟨_, h⟩ => by cases h) fun h => h.2 hinside

theorem unchanged_of_refused {e : MemoryError} (he : (m.answer r).1 = .error e) : (m.answer r).2 = m := by
  have h := answers_answer m r
  generalize m.answer r = answered at h he ⊢
  cases h with
  | misaligned haligned => rfl
  | missing haligned hinside => rfl
  | granted haligned hinside h => cases he

/-- Memory of any size is an array of that many bytes, all zero at first: whatever is asked of it, each answer is the
one that the array gives, and the array after all requests holds the bytes of memory. A request is refused as misaligned
just if its address is not a multiple of its width, and as beyond memory just if it is aligned and does not lie wholly
inside; it then changes nothing. An empty image may be put anywhere. -/
theorem refines_byte_array (size : MemorySize) (m : Memory) (requests : List Request) (r : Request) (a : Word) :
    (ofSize size).bytes = List.replicate size.bytes 0 ∧
      (answers answer m requests).1 = (answers Request.onBytes m.bytes requests).1 ∧
      (answers answer m requests).2.bytes = (answers Request.onBytes m.bytes requests).2 ∧
      ((∃ a, (m.answer r).1 = .error (.misaligned a)) ↔ ¬r.Aligned) ∧
      ((∃ a, (m.answer r).1 = .error (.nonPresent a)) ↔ r.Aligned ∧ ¬r.Inside m.sizeBytes) ∧
      (∀ e, (m.answer r).1 = .error e → (m.answer r).2 = m) ∧
      m.answer (.load a []) = (.ok none, m) := by
  have hrun := answers_eq (m := m) requests
  exact ⟨bytes_ofSize, congrArg Prod.fst hrun, congrArg Prod.snd hrun, misaligned_iff, nonPresent_iff,
    fun _ => unchanged_of_refused, rfl⟩

end Memory
end Concept32
