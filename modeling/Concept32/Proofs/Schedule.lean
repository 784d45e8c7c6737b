import Concept32.Schedule

/-!
# What a schedule holds

The entries of a schedule after each operation, the earliest of them, and how many of them are due. An
entry that is due leaves the schedule when it is popped, and putting a time that is not due adds none.
Nothing else depends on the choice among equal times, and each of them can be the one that it makes.
-/

namespace Concept32.Schedule
variable {κ : Type} {s : Schedule κ} {key : κ} {time now : Nat}

/-! ### The earliest entry -/

/-- An entry than which none is earlier. -/
def Earliest (s : Schedule κ) (e : κ × Nat) : Prop := e ∈ s.entries ∧ ∀ f ∈ s.entries, e.2 ≤ f.2

theorem mem_least {e : κ × Nat} : e ∈ s.least ↔ s.Earliest e := by
  simp [least, Earliest]

theorem exists_earliest (h : s.entries ≠ []) : ∃ e, s.Earliest e := by
  have hne : s.entries.map Prod.snd ≠ [] := fun hnil => h (List.map_eq_nil_iff.mp hnil)
  obtain ⟨least, hleast⟩ := Option.isSome_iff_exists.mp (List.isSome_min?_of_ne_nil hne)
  obtain ⟨hmem, hle⟩ := List.min?_eq_some_iff.mp hleast
  obtain ⟨e, he, rfl⟩ := List.mem_map.mp hmem
  exact ⟨e, he, fun f hf => hle f.2 (List.mem_map_of_mem hf)⟩

/-- Whatever the choice is, an entry than which none is earlier comes first. -/
theorem earliest_of_earliest? {e : κ × Nat} (h : s.earliest? = some e) : s.Earliest e :=
  mem_least.mp (List.mem_of_getElem? h)

theorem earliest?_eq_none_iff : s.earliest? = none ↔ s.entries = [] := by
  constructor
  · intro h
    by_cases hne : s.entries = []
    · exact hne
    obtain ⟨e, he⟩ := exists_earliest hne
    have hpos : 0 < s.least.length := List.length_pos_of_mem (mem_least.mpr he)
    rw [earliest?, List.getElem?_eq_none_iff] at h
    exact absurd (Nat.mod_lt (s.choice s.removals) hpos) (Nat.not_lt.mpr h)
  · intro h
    rw [earliest?, List.getElem?_eq_none_iff, least, h]
    exact Nat.zero_le _

theorem earliest?_of_single (h : s.entries = [(key, time)]) : s.earliest? = some (key, time) := by
  rw [earliest?, least, h]
  simp [Nat.mod_one]

/-- Each of several equal times can come first: there is an index that chooses it. -/
theorem exists_choice {e : κ × Nat} (h : s.Earliest e) :
    ∃ i, ∀ choice : Nat → Nat, choice s.removals = i → (s.choosing choice).earliest? = some e := by
  obtain ⟨i, hi, he⟩ := List.getElem_of_mem (mem_least.mpr h)
  refine ⟨i, fun choice hchoice => ?_⟩
  show s.least[choice s.removals % s.least.length]? = some e
  rw [hchoice, Nat.mod_eq_of_lt hi, List.getElem?_eq_getElem hi, he]

/-! ### What is due -/

/-- No entry is due. -/
def NoneDue (s : Schedule κ) (now : Nat) : Prop := ∀ e ∈ s.entries, now < e.2

/-- The number of entries that are due. -/
def dueCount (s : Schedule κ) (now : Nat) : Nat := s.entries.countP fun e => e.2 ≤ now

theorem dueCount_le_size : s.dueCount now ≤ s.size := List.countP_le_length

theorem noneDue_of_dueCount_eq_zero (h : s.dueCount now = 0) : s.NoneDue now := fun e he => by
  have := List.countP_eq_zero.mp h e he
  simpa using this

theorem noneDue_iff_next? : s.NoneDue now ↔ ∀ due, s.next? = some due → now < due := by
  simp only [next?, Option.map_eq_some_iff]
  constructor
  · rintro h due ⟨e, he, rfl⟩
    exact h e (earliest_of_earliest? he).1
  · intro h e he
    cases hmin : s.earliest? with
    | none => rw [earliest?_eq_none_iff.mp hmin] at he; cases he
    | some f => exact Nat.lt_of_lt_of_le (h f.2 ⟨f, hmin, rfl⟩) ((earliest_of_earliest? hmin).2 e he)

theorem next?_eq_some_iff : s.next? = some time ↔ ∃ key, s.Earliest (key, time) := by
  rw [next?, Option.map_eq_some_iff]
  constructor
  · rintro ⟨⟨key, time⟩, he, rfl⟩
    exact ⟨key, earliest_of_earliest? he⟩
  · rintro ⟨key, hmem, hle⟩
    cases hmin : s.earliest? with
    | none =>
      rw [earliest?_eq_none_iff.mp hmin] at hmem
      cases hmem
    | some f =>
      obtain ⟨hf, hfle⟩ := earliest_of_earliest? hmin
      exact ⟨f, rfl, Nat.le_antisymm (hfle _ hmem) (hle f hf)⟩

theorem next?_eq_none_iff : s.next? = none ↔ s.entries = [] := by
  rw [next?, Option.map_eq_none_iff, earliest?_eq_none_iff]

theorem next?_of_single (h : s.entries = [(key, time)]) : s.next? = some time := by
  rw [next?, earliest?_of_single h]
  rfl

theorem noneDue_of_nil (h : s.entries = []) : s.NoneDue now := fun _ he => by
  rw [h] at he
  cases he

theorem noneDue_of_single (h : s.entries = [(key, time)]) (hlt : now < time) : s.NoneDue now := fun _ he => by
  rw [h, List.mem_singleton] at he
  exact he ▸ hlt

variable [DecidableEq κ]

/-! ### Entries -/

theorem mem_replaceTime {e : κ × Nat} {entries : List (κ × Nat)} :
    e ∈ replaceTime key time entries ↔
      (e = (key, time) ∧ key ∈ entries.map Prod.fst) ∨ (e ∈ entries ∧ e.1 ≠ key) := by
  simp only [replaceTime, List.mem_map]
  constructor
  · rintro ⟨f, hf, rfl⟩
    by_cases h : f.1 = key
    · exact .inl ⟨by simp [h], f, hf, h⟩
    · exact .inr ⟨by simpa [h] using hf, by simp [h]⟩
  · rintro (⟨rfl, f, hf, h⟩ | ⟨he, h⟩)
    · exact ⟨f, hf, by simp [h]⟩
    · exact ⟨e, he, by simp [h]⟩

theorem mem_put {e : κ × Nat} :
    e ∈ (s.put key time).entries ↔ e = (key, time) ∨ (e ∈ s.entries ∧ e.1 ≠ key) := by
  rw [put]
  split
  · next h =>
    rw [mem_replaceTime]
    exact or_congr_left ⟨And.left, fun he => ⟨he, h⟩⟩
  · next h =>
    rw [List.mem_append, List.mem_singleton, or_comm]
    refine or_congr_right ⟨fun he => ⟨he, fun hk => h ?_⟩, And.left⟩
    exact hk ▸ List.mem_map_of_mem he

/-! ### The time of a key -/

theorem lookup_eq_some_iff {entries : List (κ × Nat)} (hdistinct : (entries.map Prod.fst).Nodup) :
    entries.lookup key = some time ↔ (key, time) ∈ entries := by
  induction entries with
  | nil => simp
  | cons e rest ih =>
    rw [List.map_cons, List.nodup_cons] at hdistinct
    rw [List.lookup_cons, List.mem_cons]
    by_cases hkey : key = e.1
    · rw [beq_iff_eq.mpr hkey]
      constructor
      · intro h
        exact .inl (Prod.ext hkey (Option.some.inj h).symm)
      · rintro (h | h)
        · rw [← h]
        · exact absurd (List.mem_map_of_mem (f := Prod.fst) h) (hkey ▸ hdistinct.1)
    · rw [beq_eq_false_iff_ne.mpr hkey]
      exact (ih hdistinct.2).trans ⟨.inr, fun h => h.resolve_left fun heq => hkey (congrArg Prod.fst heq)⟩

theorem time?_eq_some_iff : s.time? key = some time ↔ (key, time) ∈ s.entries := lookup_eq_some_iff s.distinct

theorem not_noneDue (htime : s.time? key = some time) (hle : time ≤ now) : ¬s.NoneDue now := fun h => by
  have hlt := h _ (time?_eq_some_iff.mp htime)
  dsimp only at hlt
  omega

theorem time?_put (s : Schedule κ) (key k : κ) (time : Nat) :
    (s.put key time).time? k = if k = key then some time else s.time? k := by
  refine Option.ext fun t => ?_
  rw [time?_eq_some_iff, mem_put]
  split
  · next hk => simp [hk, eq_comm]
  · next hk => simp [hk, time?_eq_some_iff]

theorem time?_remove (s : Schedule κ) (key k : κ) :
    (s.remove key).time? k = if k = key then none else s.time? k := by
  refine Option.ext fun t => ?_
  rw [time?_eq_some_iff, remove, List.mem_filter]
  split
  · next hk => simp [hk]
  · next hk => simp [hk, time?_eq_some_iff]

/-! ### Popping and putting -/

theorem popDue?_eq_none_iff : s.popDue? now = none ↔ s.NoneDue now := by
  rw [noneDue_iff_next?, popDue?, next?]
  cases s.earliest? with
  | none => simp
  | some e => simp

theorem earliest_of_popDue? {rest : Schedule κ} (h : s.popDue? now = some (key, rest)) :
    ∃ time ≤ now, s.Earliest (key, time) ∧ rest = s.remove key := by
  rw [popDue?] at h
  split at h
  · next k time he =>
    split at h <;> cases h
    next hle => exact ⟨time, hle, earliest_of_earliest? he, rfl⟩
  · cases h

theorem popDue?_eq_some {rest : Schedule κ} (h : s.popDue? now = some (key, rest)) :
    ∃ time ≤ now, (key, time) ∈ s.entries ∧ rest = s.remove key := by
  obtain ⟨time, hle, hearliest, hrest⟩ := earliest_of_popDue? h
  exact ⟨time, hle, hearliest.1, hrest⟩

theorem dueCount_remove_lt (hmem : (key, time) ∈ s.entries) (hle : time ≤ now) :
    (s.remove key).dueCount now < s.dueCount now := by
  simp only [dueCount, remove, List.countP_eq_length_filter, List.filter_filter]
  have hcomm : s.entries.filter (fun e => decide (e.2 ≤ now) && decide (e.1 ≠ key)) =
      (s.entries.filter fun e => decide (e.2 ≤ now)).filter fun e => decide (e.1 ≠ key) := by
    rw [List.filter_filter]
    exact List.filter_congr fun e _ => Bool.and_comm _ _
  rw [hcomm, List.length_filter_lt_length_iff_exists]
  exact ⟨(key, time), List.mem_filter.mpr ⟨hmem, by simpa using hle⟩, by simp⟩

theorem dueCount_put_le (hlt : now < time) : (s.put key time).dueCount now ≤ s.dueCount now := by
  rw [put]
  split
  · simp only [dueCount, replaceTime, List.countP_map]
    refine List.countP_mono_left fun e _ he => ?_
    by_cases hk : e.1 = key
    · simp [hk, Nat.not_le.mpr hlt] at he
    · simpa [hk] using he
  · simp [dueCount, List.countP_append, Nat.not_le.mpr hlt]

/-- A time that is not due leaves nothing due. -/
theorem NoneDue.put (h : s.NoneDue now) (hlt : now < time) : (s.put key time).NoneDue now := fun e he => by
  rcases mem_put.mp he with rfl | ⟨he, -⟩
  · exact hlt
  · exact h e he

theorem choosing_put (choice : Nat → Nat) : (s.choosing choice).put key time = (s.put key time).choosing choice := by
  by_cases hkey : key ∈ s.entries.map Prod.fst
  · have hput : s.put key time = _ := dif_pos hkey
    rw [hput]
    exact dif_pos hkey
  · have hput : s.put key time = _ := dif_neg hkey
    rw [hput]
    exact dif_neg hkey

theorem removals_put : (s.put key time).removals = s.removals := by
  rw [put]
  split <;> rfl

/-! ### One entry -/

theorem entries_put_of_nil (h : s.entries = []) : (s.put key time).entries = [(key, time)] := by
  rw [put, dif_neg (by rw [h]; exact List.not_mem_nil)]
  exact congrArg (· ++ [(key, time)]) h

theorem popDue?_of_single (h : s.entries = [(key, time)]) (hle : time ≤ now) :
    s.popDue? now = some (key, s.remove key) := by
  rw [popDue?, earliest?_of_single h]
  exact if_pos hle

theorem entries_remove_of_single (h : s.entries = [(key, time)]) : (s.remove key).entries = [] := by
  show s.entries.filter (fun e => e.1 ≠ key) = []
  rw [h]
  simp

end Concept32.Schedule
