import Concept32.AddressMap
import Concept32.Proofs.Steps

/-!
# What a load makes of an address map

A load that fails leaves the map as it was. One that succeeds leaves the map of the entries that it has read, and there
is only one map with these.
-/

namespace Concept32

namespace TranslationUnit
variable {u u' : TranslationUnit} {page : Nat} {entries : List Word}

theorem getElem?_loaded : u.loaded.toList[page]? = if page < u.size then u.raw? page else none := by
  have hsize := u.size_le
  rw [loaded, Array.getElem?_toList, Array.take_eq_extract, Array.getElem?_extract, Vector.size_toArray, Nat.zero_add,
    Nat.sub_zero, Nat.min_eq_left hsize, raw?, Vector.getElem?_toArray]

theorem length_loaded : u.loaded.toList.length = u.size := by
  rw [loaded, Array.length_toList, Array.take_eq_extract, Array.size_extract, Vector.size_toArray, Nat.sub_zero,
    Nat.min_eq_left u.size_le]

/-- In a whole map the entries that were loaded last tell the entry of every page. -/
theorem Whole.has (h : u.Whole) (hpage : page < u.scheme.capacity) :
    u.Has page (u.loaded.toList.getD page 0) ((u.loaded.toList[page]?.map u.scheme.decode).getD .none) := by
  rw [List.getD_eq_getElem?_getD, getElem?_loaded]
  split
  · next hlt =>
    obtain ⟨raw, hraw, hentry⟩ := h.within page hlt
    rw [hraw]
    exact ⟨hraw, hentry⟩
  · next hge => exact h.beyond page (Nat.le_of_not_lt hge) hpage

/-- The entries that a load puts in are those that were loaded last. -/
theorem Loads.loaded (h : u.Loads entries u') : u'.loaded.toList = entries := by
  refine List.ext_getElem? fun k => ?_
  rw [getElem?_loaded, h.size]
  split
  · next hk =>
    have hraw := List.getElem?_eq_getElem hk
    rw [hraw, (h.within k _ hraw).1]
  · next hk => rw [List.getElem?_eq_none (Nat.le_of_not_lt hk)]

end TranslationUnit

namespace AddressMap
variable {m m' : AddressMap} {mem : Memory} {processList cpix : Word}

/-- The map with these entries. -/
def ofEntries (scheme : MapScheme) (entries : List Word) (h : entries.length ≤ scheme.capacity) : AddressMap :=
  ⟨(TranslationUnit.new scheme).install entries h,
    (TranslationUnit.loads_install h).whole (TranslationUnit.whole_new scheme)⟩

/-- The map that a load makes, if it succeeds. -/
def load (m : AddressMap) (mem : Memory) (processList cpix : Word) : Except MapLoadError AddressMap :=
  match reload mem processList cpix m with
  | .ok _ m' => .ok m'
  | .error e _ => .error e

/-- A load ends as that of the unit does. -/
theorem reload_cases (m : AddressMap) (mem : Memory) (processList cpix : Word) :
    (∃ e, TranslationUnit.readMap m.scheme mem processList cpix = .error e ∧
      reload mem processList cpix m = .error e m) ∨
      ∃ entries m', TranslationUnit.readMap m.scheme mem processList cpix = .ok entries ∧
        reload mem processList cpix m = .ok () m' ∧ m.Loads entries.toList m'.toTranslationUnit := by
  unfold reload
  rcases m.load_cases mem processList cpix with ⟨e, hread, hload⟩ | ⟨entries, u, hread, hload, hloads⟩
  · refine .inl ⟨e, hread, ?_⟩
    split
    · next h => cases h.symm.trans hload
    · next h => cases h.symm.trans hload; rfl
  · refine .inr ⟨entries, ⟨u, hloads.whole m.whole⟩, hread, ?_, hloads⟩
    split
    · next h => cases h.symm.trans hload; rfl
    · next h => cases h.symm.trans hload

theorem reload_eq :
    reload mem processList cpix m =
      match m.load mem processList cpix with
      | .ok m' => .ok () m'
      | .error e => .error e m := by
  rw [load]
  rcases m.reload_cases mem processList cpix with ⟨e, -, h⟩ | ⟨entries, m', -, h, -⟩
  · rw [h]
  · rw [h]

/-- A map is known by the entries that were loaded last. -/
theorem eq_of_loaded (hscheme : m'.scheme = m.scheme) (hloaded : m'.loaded.toList = m.loaded.toList) : m' = m := by
  have hhas := @m.whole.has
  have hhas' := @m'.whole.has
  have hsize : m'.size = m.size := by
    rw [← TranslationUnit.length_loaded, hloaded, TranslationUnit.length_loaded]
  rw [hloaded] at hhas'
  obtain ⟨⟨scheme, raw, table, size, hle⟩, hwhole⟩ := m
  obtain ⟨⟨scheme', raw', table', size', hle'⟩, hwhole'⟩ := m'
  dsimp only at hscheme hsize
  subst hscheme
  subst hsize
  have hraw : raw' = raw := Vector.ext fun page hpage =>
    Option.some.inj (by
      rw [← Vector.getElem?_eq_getElem hpage, ← Vector.getElem?_eq_getElem hpage]
      exact (hhas' page hpage).1.trans (hhas page hpage).1.symm)
  have htable : table' = table := Vector.ext fun page hpage =>
    Option.some.inj (by
      rw [← Vector.getElem?_eq_getElem hpage, ← Vector.getElem?_eq_getElem hpage]
      exact (hhas' page hpage).2.trans (hhas page hpage).2.symm)
  subst hraw
  subst htable
  rfl

end AddressMap
end Concept32
