import Concept32.Proofs.Exec
import Concept32.Proofs.Memory

/-!
# The loaded map is one whole map

A load finds the entries of the segments that the process list describes, in their order, or fails: because a word of
the lists or an entry cannot be read, or because there are more entries than the hardware holds. Whatever was loaded
and cleared before, the translation unit has the map that the last successful load found, and nothing of an earlier one
is left.
-/

namespace Concept32

/-- What the entry of a page makes of a mapped access to it. -/
inductive MapEntry.Leads (e : MapEntry) (shift : Nat) (logical : Word) (access : Access) (privileged : Bool)
    (memoryBytes : Nat) : Except AddressFault Word → Prop
  | invalid (hvalid : e.valid = false) : Leads e shift logical access privileged memoryBytes (.error (.noEntry logical))
  | absent (hvalid : e.valid = true) (hresident : e.resident = false) :
    Leads e shift logical access privileged memoryBytes (.error (.notResident logical (logical >>> shift)))
  | forbidden (hvalid : e.valid = true) (hresident : e.resident = true)
      (hpermits : e.protection.permits access privileged = false) :
    Leads e shift logical access privileged memoryBytes (.error (.protection logical))
  | beyond {physical : Word} (hvalid : e.valid = true) (hresident : e.resident = true)
      (hpermits : e.protection.permits access privileged = true)
      (hphysical : physical = (e.frame <<< shift) ||| (logical &&& ((1#32 <<< shift) - 1)))
      (hout : memoryBytes ≤ physical.toNat) :
    Leads e shift logical access privileged memoryBytes (.error (.nonPresent physical))
  | present {physical : Word} (hvalid : e.valid = true) (hresident : e.resident = true)
      (hpermits : e.protection.permits access privileged = true)
      (hphysical : physical = (e.frame <<< shift) ||| (logical &&& ((1#32 <<< shift) - 1)))
      (hin : physical.toNat < memoryBytes) :
    Leads e shift logical access privileged memoryBytes (.ok physical)

namespace TranslationUnit
variable {scheme : MapScheme} {mem : Memory} {array descriptor list processList cpix : Word} {count index : Nat}
  {found all : Array Word} {u u' : TranslationUnit} {entries : List Word}

/-! ### The lists in memory -/

/-- The entries are those of the segment that has its descriptor at an address. -/
def Segment (scheme : MapScheme) (mem : Memory) (descriptor : Word) (entries : List Word) : Prop :=
  ∃ array count, mem.readWord descriptor = .ok array ∧ mem.readWord (descriptor + 4) = .ok count ∧
    entries.length = (count &&& 0x0000FFFF#32).toNat ∧
      ∀ k raw, entries[k]? = some raw → readEntry scheme mem (array &&& 0x00FFFFFE#32) k = .ok raw

/-- The entries are those of the segments, one after the other, of the program with an index into the process list. -/
def Describes (scheme : MapScheme) (mem : Memory) (processList cpix : Word) (entries : List Word) : Prop :=
  ∃ header list, ∃ segments : List (List Word), mem.readWord (wordBoundary (processList + cpix)) = .ok header ∧
    mem.readWord (wordBoundary (processList + cpix) + 4) = .ok list ∧
      segments.length = (header &&& 0x0000FFFF#32).toNat ∧ entries = segments.flatten ∧
        ∀ k segment, segments[k]? = some segment →
          Segment scheme mem ((list &&& 0x00FFFFFC#32) + BitVec.ofNat 32 (k * 8)) segment

theorem Segment.unique {entries' : List Word} (h : Segment scheme mem descriptor entries)
    (h' : Segment scheme mem descriptor entries') : entries' = entries := by
  obtain ⟨array, count, harray, hcount, hlength, hentries⟩ := h
  obtain ⟨array', count', harray', hcount', hlength', hentries'⟩ := h'
  cases harray.symm.trans harray'
  cases hcount.symm.trans hcount'
  refine List.ext_getElem (hlength'.trans hlength.symm) fun k hk' hk => ?_
  have hread := hentries k _ (List.getElem?_eq_getElem hk)
  have hread' := hentries' k _ (List.getElem?_eq_getElem hk')
  exact Except.ok.inj (hread'.symm.trans hread)

/-- Memory describes no more than one map for a program. -/
theorem Describes.unique {entries' : List Word} (h : Describes scheme mem processList cpix entries)
    (h' : Describes scheme mem processList cpix entries') : entries' = entries := by
  obtain ⟨header, list, segments, hheader, hlist, hlength, rfl, hsegments⟩ := h
  obtain ⟨header', list', segments', hheader', hlist', hlength', rfl, hsegments'⟩ := h'
  cases hheader.symm.trans hheader'
  cases hlist.symm.trans hlist'
  refine congrArg List.flatten (List.ext_getElem (hlength'.trans hlength.symm) fun k hk' hk => ?_)
  exact (hsegments k _ (List.getElem?_eq_getElem hk)).unique (hsegments' k _ (List.getElem?_eq_getElem hk'))

/-! ### Reading the lists -/

/-- A property of the members of a list with their places, for a list with one more member in front. -/
theorem forall_getElem?_cons {α : Type} {P : Nat → α → Prop} {a : α} {l : List α} :
    (∀ k b, (a :: l)[k]? = some b → P k b) ↔ P 0 a ∧ ∀ k b, l[k]? = some b → P (k + 1) b := by
  constructor
  · intro h
    exact ⟨h 0 a rfl, fun k b hb => h (k + 1) b hb⟩
  · rintro ⟨hhead, htail⟩ k b hb
    cases k with
    | zero => cases hb; exact hhead
    | succ k => exact htail k b hb

theorem readEntries_eq_ok :
    readEntries scheme mem array count index found = .ok all ↔
      ∃ entries : List Word, entries.length = count ∧ all.toList = found.toList ++ entries ∧
        ∀ k raw, entries[k]? = some raw → readEntry scheme mem array (index + k) = .ok raw := by
  induction count generalizing index found with
  | zero =>
    rw [readEntries]
    constructor
    · intro h
      cases h
      exact ⟨[], rfl, by simp, by simp⟩
    · rintro ⟨entries, hlength, hall, -⟩
      rw [List.eq_nil_of_length_eq_zero hlength, List.append_nil] at hall
      rw [Array.toList_inj.mp hall]
  | succ count ih =>
    rw [readEntries]
    cases hread : readEntry scheme mem array index with
    | error e =>
      simp only [reduceCtorEq, false_iff]
      rintro ⟨entries, hlength, -, hentries⟩
      obtain ⟨raw, rest, rfl⟩ := List.exists_cons_of_length_eq_add_one hlength
      have hfirst := hentries 0 raw rfl
      rw [Nat.add_zero, hread] at hfirst
      cases hfirst
    | ok raw =>
      dsimp only
      rw [ih]
      constructor
      · rintro ⟨rest, hlength, hall, hrest⟩
        refine ⟨raw :: rest, by simp [hlength], by simp [hall], forall_getElem?_cons.mpr ⟨hread, fun k b hb => ?_⟩⟩
        rw [← Nat.add_assoc, Nat.add_right_comm]
        exact hrest k b hb
      · rintro ⟨entries, hlength, hall, hentries⟩
        obtain ⟨first, rest, rfl⟩ := List.exists_cons_of_length_eq_add_one hlength
        obtain ⟨hfirst, hrest⟩ := forall_getElem?_cons.mp hentries
        cases hread.symm.trans hfirst
        refine ⟨rest, by simpa using hlength, by simp [hall], fun k b hb => ?_⟩
        rw [Nat.add_right_comm, Nat.add_assoc]
        exact hrest k b hb

theorem bind_eq_ok {ε α β : Type} {x : Except ε α} {f : α → Except ε β} {b : β} :
    (x >>= f) = .ok b ↔ ∃ a, x = .ok a ∧ f a = .ok b := by
  cases x with
  | error e => simp [bind, Except.bind]
  | ok a => simp [bind, Except.bind]

theorem readSegment_eq_ok :
    readSegment scheme mem descriptor found = .ok all ↔
      ∃ entries : List Word, Segment scheme mem descriptor entries ∧ all.toList = found.toList ++ entries ∧
        all.size ≤ scheme.capacity := by
  rw [readSegment]
  simp only [bind_eq_ok, Except.mapError_eq_ok]
  constructor
  · rintro ⟨array, harray, count, hcount, hrest⟩
    split at hrest
    · cases hrest
    · next hfits =>
      have hsize := size_readEntries hrest
      obtain ⟨entries, hlength, hall, hentries⟩ := readEntries_eq_ok.mp hrest
      refine ⟨entries, ⟨array, count, harray, hcount, hlength, fun k raw hraw => ?_⟩, hall, by omega⟩
      rw [← Nat.zero_add k]
      exact hentries k raw hraw
  · rintro ⟨entries, ⟨array, count, harray, hcount, hlength, hentries⟩, hall, hsize⟩
    refine ⟨array, harray, count, hcount, ?_⟩
    have hadd : all.size = found.size + entries.length := by
      rw [← Array.length_toList, hall, List.length_append, Array.length_toList]
    rw [if_neg (by omega)]
    refine readEntries_eq_ok.mpr ⟨entries, hlength, hall, fun k raw hraw => ?_⟩
    rw [Nat.zero_add]
    exact hentries k raw hraw

theorem readSegments_eq_ok (hfound : found.size ≤ scheme.capacity) :
    readSegments scheme mem list count index found = .ok all ↔
      ∃ segments : List (List Word), segments.length = count ∧ all.toList = found.toList ++ segments.flatten ∧
        all.size ≤ scheme.capacity ∧
          ∀ k segment, segments[k]? = some segment →
            Segment scheme mem (list + BitVec.ofNat 32 ((index + k) * 8)) segment := by
  induction count generalizing index found with
  | zero =>
    rw [readSegments]
    constructor
    · intro h
      cases h
      exact ⟨[], rfl, by simp, hfound, by simp⟩
    · rintro ⟨segments, hlength, hall, -⟩
      rw [List.eq_nil_of_length_eq_zero hlength, List.flatten_nil, List.append_nil] at hall
      rw [Array.toList_inj.mp hall]
  | succ count ih =>
    rw [readSegments]
    constructor
    · intro h
      split at h
      · cases h
      · next found' hsegment =>
        obtain ⟨entries, hentries, hfound', hsize⟩ := readSegment_eq_ok.mp hsegment
        obtain ⟨rest, hlength, hall, hcapacity, hrest⟩ := (ih hsize).mp h
        refine ⟨entries :: rest, by simp [hlength], by simp [hall, hfound'], hcapacity,
          forall_getElem?_cons.mpr ⟨hentries, fun k segment hk => ?_⟩⟩
        rw [← Nat.add_assoc, Nat.add_right_comm]
        exact hrest k segment hk
    · rintro ⟨segments, hlength, hall, hcapacity, hsegments⟩
      obtain ⟨entries, rest, rfl⟩ := List.exists_cons_of_length_eq_add_one hlength
      obtain ⟨hentries, hrest⟩ := forall_getElem?_cons.mp hsegments
      rw [List.flatten_cons, ← List.append_assoc] at hall
      have hsize : (found ++ entries.toArray).size ≤ scheme.capacity := by
        have hadd := congrArg List.length hall
        simp only [Array.length_toList, List.length_append] at hadd
        simp only [Array.size_append, List.size_toArray]
        omega
      have hsegment : readSegment scheme mem (list + BitVec.ofNat 32 (index * 8)) found =
          .ok (found ++ entries.toArray) := readSegment_eq_ok.mpr ⟨entries, hentries, by simp, hsize⟩
      rw [hsegment]
      dsimp only
      refine (ih hsize).mpr ⟨rest, by simpa using hlength, by simpa using hall, hcapacity, fun k segment hk => ?_⟩
      rw [Nat.add_right_comm, Nat.add_assoc]
      exact hrest k segment hk

theorem readMap_eq_ok :
    readMap scheme mem processList cpix = .ok all ↔
      Describes scheme mem processList cpix all.toList ∧ all.size ≤ scheme.capacity := by
  rw [readMap]
  simp only [bind_eq_ok, Except.mapError_eq_ok]
  constructor
  · rintro ⟨header, hheader, list, hlist, hsegments⟩
    obtain ⟨segments, hlength, hall, hsize, hsegments⟩ := (readSegments_eq_ok (Nat.zero_le _)).mp hsegments
    refine ⟨⟨header, list, segments, hheader, hlist, hlength, by simpa using hall, fun k segment hk => ?_⟩, hsize⟩
    rw [← Nat.zero_add k]
    exact hsegments k segment hk
  · rintro ⟨⟨header, list, segments, hheader, hlist, hlength, hall, hsegments⟩, hsize⟩
    refine ⟨header, hheader, list, hlist,
      (readSegments_eq_ok (Nat.zero_le _)).mpr ⟨segments, hlength, by simpa using hall, hsize, fun k segment hk => ?_⟩⟩
    rw [Nat.zero_add]
    exact hsegments k segment hk

/-- Something that is done to the unit. -/
inductive Operation
  | clear
  | load (mem : Memory) (processList cpix : Word)

/-- The unit after an operation, which may fail. -/
def perform (u : TranslationUnit) : Operation → TranslationUnit
  | .clear => u.clear
  | .load mem processList cpix => (load mem processList cpix).after u

/-- The entries that the last successful load found, if nothing has been cleared since. -/
inductive Latest (scheme : MapScheme) : List Operation → List Word → Prop
  | nothing : Latest scheme [] []
  | cleared {before : List Operation} : Latest scheme (.clear :: before) []
  | loaded {before : List Operation} {mem : Memory} {processList cpix : Word} {entries : List Word}
      (hdescribes : Describes scheme mem processList cpix entries) (hle : entries.length ≤ scheme.capacity) :
    Latest scheme (.load mem processList cpix :: before) entries
  | refused {before : List Operation} {mem : Memory} {processList cpix : Word} {entries : List Word}
      (hnone : ∀ found, Describes scheme mem processList cpix found → scheme.capacity < found.length)
      (hbefore : Latest scheme before entries) : Latest scheme (.load mem processList cpix :: before) entries

theorem Latest.unique {operations : List Operation} {entries' : List Word} (h : Latest scheme operations entries)
    (h' : Latest scheme operations entries') : entries' = entries := by
  induction h with
  | nothing => cases h'; rfl
  | cleared => cases h'; rfl
  | loaded hdescribes hle =>
    cases h' with
    | loaded hdescribes' _ => exact hdescribes.unique hdescribes'
    | refused hnone _ => exact absurd (hnone _ hdescribes) (by omega)
  | refused hnone _ ih =>
    cases h' with
    | loaded hdescribes hle => exact absurd (hnone _ hdescribes) (by omega)
    | refused _ hbefore => exact ih hbefore

end TranslationUnit

namespace AddressMap
variable {m m' : AddressMap} {mem : Memory} {processList cpix : Word}

/-- The map that a load makes, if it succeeds, is the one that memory describes. -/
theorem load_eq_ok :
    m.load mem processList cpix = .ok m' ↔
      m'.scheme = m.scheme ∧ TranslationUnit.Describes m.scheme mem processList cpix m'.loaded.toList := by
  rw [load]
  rcases m.reload_cases mem processList cpix with ⟨e, hread, hload⟩ | ⟨entries, m₁, hread, hload, hloads⟩
  · rw [hload]
    simp only [reduceCtorEq, false_iff]
    rintro ⟨hscheme, hdescribes⟩
    have hle := m'.size_le
    rw [← TranslationUnit.length_loaded, hscheme] at hle
    cases hread.symm.trans (TranslationUnit.readMap_eq_ok.mpr ⟨hdescribes, hle⟩)
  · have hdescribes := (TranslationUnit.readMap_eq_ok.mp hread).1
    rw [hload]
    dsimp only
    constructor
    · intro h
      cases h
      exact ⟨hloads.scheme, hloads.loaded.symm ▸ hdescribes⟩
    · rintro ⟨hscheme, hdescribes'⟩
      have hloaded := hloads.loaded.trans (hdescribes'.unique hdescribes)
      rw [eq_of_loaded (hloads.scheme.trans hscheme.symm) hloaded]

end AddressMap
end Concept32
