import Concept32.Table

/-!
# Looking into tables

The keys of a table are distinct, so an entry is what is stored under its key, and storing what is there
already changes nothing.
-/

namespace Concept32.Table
variable {n : Nat} {α : Type} {t : Table n α} {key : BitVec n} {value : α}

theorem nodup_keys (t : Table n α) : t.keys.Nodup :=
  t.ascending.imp fun {a b} (h : a < b) hab => by rw [hab, BitVec.lt_def] at h; omega

theorem mem_of_lookup {l : List (BitVec n × α)} (h : l.lookup key = some value) : (key, value) ∈ l := by
  induction l with
  | nil => cases h
  | cons e rest ih =>
    rw [List.lookup_cons] at h
    split at h
    · next heq =>
      cases h
      rw [eq_of_beq heq]
      exact List.mem_cons_self
    · exact List.mem_cons_of_mem _ (ih h)

theorem lookup_of_mem {l : List (BitVec n × α)} (hl : (l.map Prod.fst).Nodup) (h : (key, value) ∈ l) :
    l.lookup key = some value := by
  induction l with
  | nil => cases h
  | cons e rest ih =>
    rw [List.map_cons, List.nodup_cons] at hl
    rw [List.lookup_cons]
    rcases List.mem_cons.mp h with rfl | h
    · simp
    · have hne : key ≠ e.1 := fun he => hl.1 (he ▸ List.mem_map_of_mem h)
      rw [beq_eq_false_iff_ne.mpr hne]
      exact ih hl.2 h

theorem get?_eq_some_iff : t.get? key = some value ↔ (key, value) ∈ t.entries :=
  ⟨mem_of_lookup, lookup_of_mem t.nodup_keys⟩

theorem mem_values_iff : value ∈ t.values ↔ ∃ key, t.get? key = some value := by
  constructor
  · intro h
    obtain ⟨e, he, rfl⟩ := List.mem_map.mp h
    exact ⟨e.1, get?_eq_some_iff.mpr he⟩
  · rintro ⟨key, h⟩
    exact List.mem_map.mpr ⟨_, get?_eq_some_iff.mp h, rfl⟩

theorem insertEntry_of_lookup {l : List (BitVec n × α)} (hl : (l.map Prod.fst).Pairwise (· < ·))
    (h : l.lookup key = some value) : insertEntry key value l = l := by
  induction l with
  | nil => cases h
  | cons e rest ih =>
    obtain ⟨k, v⟩ := e
    rw [List.map_cons, List.pairwise_cons] at hl
    rw [insertEntry]
    rcases List.mem_cons.mp (mem_of_lookup h) with heq | hmem
    · cases heq
      rw [if_neg (BitVec.lt_irrefl _), if_pos rfl]
    · have hlt : k < key := hl.1 key (List.mem_map_of_mem hmem)
      rw [BitVec.lt_def] at hlt
      have hne : key ≠ k := fun he => by rw [he] at hlt; omega
      rw [if_neg (show ¬key < k by rw [BitVec.lt_def]; omega), if_neg hne]
      rw [List.lookup_cons, beq_eq_false_iff_ne.mpr hne] at h
      rw [ih hl.2 h]

/-- Storing what is there already changes nothing. -/
theorem set_of_get? (h : t.get? key = some value) : t.set key value = t := by
  cases t
  simp only [set, Table.mk.injEq]
  exact insertEntry_of_lookup ‹_› h

theorem mapValues_mapValues (f g : BitVec n → α → α) :
    (t.mapValues f).mapValues g = t.mapValues fun k v => g k (f k v) := by
  simp [mapValues, List.map_map, Function.comp_def]

/-- Of two changes of one entry the second works on what the first left. -/
theorem modify_modify (f g : α → α) : (t.modify key f).modify key g = t.modify key fun v => g (f v) := by
  rw [modify, modify, mapValues_mapValues, modify]
  congr 1
  funext k v
  split <;> rfl

/-- Changes that agree on the entry are the same. -/
theorem modify_congr {f g : α → α} (h : ∀ v, t.get? key = some v → f v = g v) : t.modify key f = t.modify key g := by
  unfold modify mapValues
  congr 1
  refine List.map_congr_left fun e he => ?_
  dsimp only
  split
  · next hkey => rw [h e.2 (get?_eq_some_iff.mpr (hkey ▸ he))]
  · rfl

end Concept32.Table
