/-!
# Tables

A table holds values under keys that are bit vectors, in ascending order of the keys. It says what is
stored under a key (`get?`) and lists its keys in order.
-/

namespace Concept32

/-- Values under keys, in ascending order of the keys. -/
structure Table (n : Nat) (α : Type) where
  entries : List (BitVec n × α)
  ascending : (entries.map Prod.fst).Pairwise (· < ·)

namespace Table
variable {n : Nat} {α : Type}

def empty : Table n α := ⟨[], List.Pairwise.nil⟩

instance : Inhabited (Table n α) := ⟨empty⟩

/-- The keys in ascending order. -/
def keys (t : Table n α) : List (BitVec n) := t.entries.map Prod.fst

def values (t : Table n α) : List α := t.entries.map Prod.snd

def get? (t : Table n α) (key : BitVec n) : Option α := t.entries.lookup key

def contains (t : Table n α) (key : BitVec n) : Bool := (t.get? key).isSome

/-- The table with its values changed. -/
def mapValues (t : Table n α) (f : BitVec n → α → α) : Table n α where
  entries := t.entries.map fun e => (e.1, f e.1 e.2)
  ascending := by simpa [List.map_map, Function.comp_def] using t.ascending

/-- The table with the value under one key changed; without such a key it is the same. -/
def modify (t : Table n α) (key : BitVec n) (f : α → α) : Table n α :=
  t.mapValues fun k v => if k = key then f v else v

/-- Entries with one put in its place among them. -/
def insertEntry (key : BitVec n) (value : α) : List (BitVec n × α) → List (BitVec n × α)
  | [] => [(key, value)]
  | e :: rest =>
    if key < e.1 then (key, value) :: e :: rest
    else if key = e.1 then (key, value) :: rest
    else e :: insertEntry key value rest

theorem mem_map_fst_insertEntry {key k : BitVec n} {value : α} {l : List (BitVec n × α)} :
    k ∈ (insertEntry key value l).map Prod.fst ↔ k = key ∨ k ∈ l.map Prod.fst := by
  induction l with
  | nil => simp [insertEntry]
  | cons e rest ih =>
    rw [insertEntry]
    split
    · simp
    · split
      · next h => subst h; simp
      · rw [List.map_cons, List.mem_cons, ih, List.map_cons, List.mem_cons]
        constructor
        · rintro (h | h | h)
          · exact .inr (.inl h)
          · exact .inl h
          · exact .inr (.inr h)
        · rintro (h | h | h)
          · exact .inr (.inl h)
          · exact .inl h
          · exact .inr (.inr h)

theorem pairwise_insertEntry {key : BitVec n} {value : α} {l : List (BitVec n × α)}
    (h : (l.map Prod.fst).Pairwise (· < ·)) :
    ((insertEntry key value l).map Prod.fst).Pairwise (· < ·) := by
  induction l with
  | nil => simp [insertEntry]
  | cons e rest ih =>
    rw [List.map_cons, List.pairwise_cons] at h
    rw [insertEntry]
    split
    · next hlt =>
      rw [List.map_cons, List.map_cons, List.pairwise_cons, List.pairwise_cons]
      refine ⟨fun k hk => ?_, h⟩
      rcases List.mem_cons.mp hk with rfl | hk
      · exact hlt
      · exact BitVec.lt_trans hlt (h.1 k hk)
    · split
      · next heq =>
        subst heq
        rw [List.map_cons, List.pairwise_cons]
        exact h
      · next hlt hne =>
        rw [List.map_cons, List.pairwise_cons]
        refine ⟨fun k hk => ?_, ih h.2⟩
        rcases mem_map_fst_insertEntry.mp hk with rfl | hk
        · rw [BitVec.lt_def] at hlt ⊢
          have hne : k.toNat ≠ e.1.toNat := fun he => hne (BitVec.eq_of_toNat_eq he)
          omega
        · exact h.1 k hk

/-- The table with a value put under a key, in place of any that was there. -/
def set (t : Table n α) (key : BitVec n) (value : α) : Table n α :=
  ⟨insertEntry key value t.entries, pairwise_insertEntry t.ascending⟩

/-! ### What a table holds -/

theorem lookup_map_snd (f : BitVec n → α → α) (key : BitVec n) (l : List (BitVec n × α)) :
    (l.map fun e => (e.1, f e.1 e.2)).lookup key = (l.lookup key).map (f key) := by
  induction l with
  | nil => rfl
  | cons e rest ih =>
    rw [List.map_cons, List.lookup_cons, List.lookup_cons]
    by_cases h : key = e.1
    · subst h; simp
    · have : (key == e.1) = false := by simpa using h
      simp [this, ih]

@[simp] theorem get?_mapValues (t : Table n α) (f : BitVec n → α → α) (key : BitVec n) :
    (t.mapValues f).get? key = (t.get? key).map (f key) :=
  lookup_map_snd f key t.entries

theorem get?_modify (t : Table n α) (key : BitVec n) (f : α → α) (k : BitVec n) :
    (t.modify key f).get? k = if k = key then (t.get? k).map f else t.get? k := by
  rw [modify, get?_mapValues]
  split <;> simp

theorem get?_set (t : Table n α) (key : BitVec n) (value : α) (k : BitVec n) :
    (t.set key value).get? k = if k = key then some value else t.get? k := by
  show (insertEntry key value t.entries).lookup k = if k = key then some value else t.entries.lookup k
  induction t.entries with
  | nil =>
    by_cases h : k = key
    · subst h; simp [insertEntry]
    · have : (k == key) = false := by simpa using h
      simp [insertEntry, List.lookup_cons, this, h]
  | cons e rest ih =>
    obtain ⟨j, v⟩ := e
    by_cases hk : k = key
    · subst hk
      by_cases hlt : k < j
      · simp [insertEntry, hlt]
      · by_cases heq : k = j
        · subst heq; simp [insertEntry, hlt]
        · have hb : (k == j) = false := by simpa using heq
          simpa [insertEntry, hlt, heq, List.lookup_cons, hb] using ih
    · have hb : (k == key) = false := by simpa using hk
      rw [if_neg hk] at ih ⊢
      by_cases hlt : key < j
      · simp [insertEntry, hlt, List.lookup_cons, hb]
      · by_cases heq : key = j
        · subst heq; simp [insertEntry, hlt, List.lookup_cons, hb]
        · simp [insertEntry, hlt, heq, List.lookup_cons, ih]

@[simp] theorem keys_mapValues (t : Table n α) (f : BitVec n → α → α) : (t.mapValues f).keys = t.keys := by
  simp [keys, mapValues]

@[simp] theorem keys_modify (t : Table n α) (key : BitVec n) (f : α → α) :
    (t.modify key f).keys = t.keys :=
  keys_mapValues _ _

end Table
end Concept32
