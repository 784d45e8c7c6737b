import Concept32.TranslationUnit

/-!
# Address maps

An address map is a translation unit that holds one whole map: every entry of the map that was loaded last
means what it says, and of the pages beyond them nothing is known. A unit without a map is one, and clearing
and loading, whether the load succeeds or fails, make one of another.
-/

namespace Concept32

namespace TranslationUnit
variable {u : TranslationUnit} {page count : Nat} {entries : List Word} {mem : Memory} {processList cpix : Word}

/-- The unit has this entry for a page. -/
def Has (u : TranslationUnit) (page : Nat) (raw : Word) (entry : MapEntry) : Prop :=
  u.raw? page = some raw ∧ u.entry? page = some entry

/-- Two units have the same entry for a page. -/
def Agree (u v : TranslationUnit) (page : Nat) : Prop := v.raw? page = u.raw? page ∧ v.entry? page = u.entry? page

/-- The entries that were loaded last mean what they say, and nothing is known beyond them. -/
structure Whole (u : TranslationUnit) : Prop where
  within : ∀ page < u.size, ∃ raw, u.Has page raw (u.scheme.decode raw)
  beyond : ∀ page, u.size ≤ page → page < u.scheme.capacity → u.Has page 0 .none

/-! ### Putting entries in -/

theorem put_self {raw : Word} {entry : MapEntry} (h : page < u.scheme.capacity) :
    (u.put page raw entry h).Has page raw entry :=
  ⟨Vector.getElem?_set_self h, Vector.getElem?_set_self h⟩

theorem put_other {q : Nat} {raw : Word} {entry : MapEntry} (h : page < u.scheme.capacity) (hne : page ≠ q) :
    u.Agree (u.put page raw entry h) q :=
  ⟨Vector.getElem?_set_ne h hne, Vector.getElem?_set_ne h hne⟩

theorem Agree.trans {v w : TranslationUnit} (h : u.Agree v page) (h' : v.Agree w page) : u.Agree w page :=
  ⟨h'.1.trans h.1, h'.2.trans h.2⟩

theorem Agree.has {v : TranslationUnit} {raw : Word} {entry : MapEntry} (h : u.Agree v page)
    (hhas : u.Has page raw entry) : v.Has page raw entry :=
  ⟨h.1.trans hhas.1, h.2.trans hhas.2⟩

theorem size_write (h : page + entries.length ≤ u.scheme.capacity) : (u.write page entries h).size = u.size := by
  induction entries generalizing u page with
  | nil => rfl
  | cons raw rest ih => rw [write, ih]; rfl

/-- The write loop leaves the pages before and after its entries alone. -/
theorem write_outside {q : Nat} (h : page + entries.length ≤ u.scheme.capacity)
    (hq : q < page ∨ page + entries.length ≤ q) : u.Agree (u.write page entries h) q := by
  induction entries generalizing u page with
  | nil => exact ⟨rfl, rfl⟩
  | cons raw rest ih =>
    rw [List.length_cons] at h hq
    exact (put_other (by omega) (by omega)).trans (ih _ (by omega))

/-- The write loop puts each entry, with what it means, at its page. -/
theorem write_within {k : Nat} {raw : Word} (h : page + entries.length ≤ u.scheme.capacity)
    (hk : entries[k]? = some raw) : (u.write page entries h).Has (page + k) raw (u.scheme.decode raw) := by
  induction entries generalizing u page k with
  | nil => cases hk
  | cons first rest ih =>
    rw [List.length_cons] at h
    cases k with
    | zero =>
      cases hk
      exact (write_outside _ (.inl (Nat.lt_succ_self page))).has (put_self (by omega))
    | succ k =>
      rw [show page + (k + 1) = page + 1 + k by omega]
      exact ih _ hk

theorem scheme_erase (h : page + count ≤ u.scheme.capacity) : (u.erase page count h).scheme = u.scheme := by
  induction count generalizing u page with
  | zero => rfl
  | succ count ih => rw [erase, ih]; rfl

theorem size_erase (h : page + count ≤ u.scheme.capacity) : (u.erase page count h).size = u.size := by
  induction count generalizing u page with
  | zero => rfl
  | succ count ih => rw [erase, ih]; rfl

theorem erase_outside {q : Nat} (h : page + count ≤ u.scheme.capacity) (hq : q < page ∨ page + count ≤ q) :
    u.Agree (u.erase page count h) q := by
  induction count generalizing u page with
  | zero => exact ⟨rfl, rfl⟩
  | succ count ih => exact (put_other (by omega) (by omega)).trans (ih _ (by omega))

theorem erase_within {q : Nat} (h : page + count ≤ u.scheme.capacity) (hq : page ≤ q) (hq' : q < page + count) :
    (u.erase page count h).Has q 0 .none := by
  induction count generalizing u page with
  | zero => omega
  | succ count ih =>
    rcases Nat.eq_or_lt_of_le hq with rfl | hlt
    · exact (erase_outside _ (.inl (Nat.lt_succ_self page))).has (put_self (by omega))
    · exact ih _ hlt (by omega)

/-! ### Whole maps -/

theorem whole_new (scheme : MapScheme) : (new scheme).Whole where
  within page hpage := absurd hpage (Nat.not_lt_zero page)
  beyond _ _ hpage := ⟨Vector.getElem?_replicate_of_lt hpage, Vector.getElem?_replicate_of_lt hpage⟩

/-- What a load of entries makes of a unit. -/
structure Loads (u : TranslationUnit) (entries : List Word) (u' : TranslationUnit) : Prop where
  scheme : u'.scheme = u.scheme
  size : u'.size = entries.length
  within : ∀ k raw, entries[k]? = some raw → u'.Has k raw (u.scheme.decode raw)
  cleared : ∀ page, entries.length ≤ page → page < u.size → u'.Has page 0 .none
  kept : ∀ page, entries.length ≤ page → u.size ≤ page → u.Agree u' page

theorem loads_install (h : entries.length ≤ u.scheme.capacity) : u.Loads entries (u.install entries h) := by
  have hsize := u.size_le
  have hwrite : 0 + entries.length ≤ u.scheme.capacity := by omega
  exact {
    scheme := (scheme_erase _).trans (scheme_write _)
    size := (size_erase _).trans (size_write _)
    within := fun k raw hk => by
      have hlt := (List.getElem?_eq_some_iff.mp hk).1
      have hhas := write_within (u := { u with size := entries.length, size_le := h }) hwrite hk
      rw [Nat.zero_add] at hhas
      exact (erase_outside _ (.inl (by omega))).has hhas
    cleared := fun page hpage hlt => erase_within _ (by omega) (by omega)
    kept := fun page hpage hle =>
      (write_outside (u := { u with size := entries.length, size_le := h }) hwrite (.inr (by omega))).trans
        (erase_outside _ (.inr (by omega))) }

/-- A load changes nothing if its entries cannot be read, and otherwise puts them in. -/
theorem load_cases (u : TranslationUnit) (mem : Memory) (processList cpix : Word) :
    (∃ e, readMap u.scheme mem processList cpix = .error e ∧ load mem processList cpix u = .error e u) ∨
      ∃ entries u', readMap u.scheme mem processList cpix = .ok entries ∧
        load mem processList cpix u = .ok () u' ∧ u.Loads entries.toList u' := by
  rw [load]
  split
  · next e hread => exact .inl ⟨e, hread, rfl⟩
  · next entries hread => exact .inr ⟨entries, _, hread, rfl, loads_install (size_readMap_le hread)⟩

/-- A load leaves one whole map where there was one. -/
theorem Loads.whole {u' : TranslationUnit} (h : u.Loads entries u') (hwhole : u.Whole) : u'.Whole where
  within page hpage := by
    rw [h.size] at hpage
    exact ⟨_, h.scheme ▸ h.within page _ (List.getElem?_eq_getElem hpage)⟩
  beyond page hpage hcapacity := by
    rw [h.size] at hpage
    rcases Nat.lt_or_ge page u.size with hlt | hge
    · exact h.cleared page hpage hlt
    · exact (h.kept page hpage hge).has (hwhole.beyond page hge (h.scheme ▸ hcapacity))

theorem Whole.load_ok {u' : TranslationUnit} (hwhole : u.Whole) (h : load mem processList cpix u = .ok () u') :
    u'.Whole := by
  rcases u.load_cases mem processList cpix with ⟨e, -, hload⟩ | ⟨entries, u₁, -, hload, hloads⟩
  · cases h.symm.trans hload
  · cases h.symm.trans hload
    exact hloads.whole hwhole

theorem Whole.load_error {e : MapLoadError} {u' : TranslationUnit} (hwhole : u.Whole)
    (h : load mem processList cpix u = .error e u') : u'.Whole := by
  rcases u.load_cases mem processList cpix with ⟨e', -, hload⟩ | ⟨entries, u₁, -, hload, -⟩
  · cases h.symm.trans hload
    exact hwhole
  · cases h.symm.trans hload

end TranslationUnit

/-- A translation unit with one whole map. -/
structure AddressMap extends TranslationUnit where
  whole : toTranslationUnit.Whole

namespace AddressMap

def empty (scheme : MapScheme) : AddressMap := ⟨.new scheme, TranslationUnit.whole_new scheme⟩

def clear (m : AddressMap) : AddressMap := ⟨m.toTranslationUnit.clear, TranslationUnit.whole_new m.scheme⟩

/-- Load the map of the program with an index into the process list. -/
def reload (mem : Memory) (processList cpix : Word) : EStateM MapLoadError AddressMap Unit := fun m =>
  match h : TranslationUnit.load mem processList cpix m.toTranslationUnit with
  | .ok _ u => .ok () ⟨u, m.whole.load_ok h⟩
  | .error e u => .error e ⟨u, m.whole.load_error h⟩

end AddressMap
end Concept32
