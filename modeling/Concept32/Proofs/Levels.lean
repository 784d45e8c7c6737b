import Concept32.InterruptLevels

/-!
# Requests and activity of interrupt levels

The state of each level after one has changed, which changes use up a request, and which level is the first that is
active.
-/

namespace Concept32.InterruptLevels
variable {s : InterruptLevels} {level : Nat}

theorem get_idle (level : Nat) : idle.get level = .idle := by
  rw [get, idle, Array.getD_eq_getD_getElem?, Vector.toArray_replicate, Array.getElem?_replicate]
  split <;> rfl

theorem get_modify (s : InterruptLevels) (level k : Nat) (f : LevelState → LevelState) :
    (s.modify level f).get k = if k = level ∧ level < levelCount then f (s.get level) else s.get k := by
  have hsize : s.levels.toArray.size = levelCount := s.levels.size_toArray
  simp only [get, modify, Array.getD_eq_getD_getElem?, Array.getElem?_modify]
  by_cases hk : level = k
  · subst hk
    by_cases hlt : level < levelCount
    · rw [if_pos rfl, if_pos ⟨rfl, hlt⟩, Array.getElem?_eq_getElem (by omega)]
      rfl
    · rw [if_pos rfl, if_neg (by omega), Array.getElem?_eq_none (by omega)]
      rfl
  · rw [if_neg hk, if_neg (by omega)]

theorem modify_modify {f g : LevelState → LevelState} :
    (s.modify level f).modify level g = s.modify level fun l => g (f l) := by
  have hlevels : (s.levels.toArray.modify level f).modify level g = s.levels.toArray.modify level fun l => g (f l) := by
    refine Array.ext (by simp) fun j _ _ => ?_
    simp only [Array.getElem_modify]
    split <;> rfl
  simp only [modify, hlevels]

theorem isRequested_modify {f : LevelState → LevelState} (hf : ∀ l, (f l).requested = false) :
    (s.modify level f).isRequested level = false := by
  rw [isRequested, get_modify]
  split
  · exact hf _
  · next h =>
    have hsize : s.levels.toArray.size = levelCount := s.levels.size_toArray
    rw [get, Array.getD_eq_getD_getElem?, Array.getElem?_eq_none (by omega)]
    rfl

theorem isRequested_clearRequest : (s.clearRequest level).isRequested level = false :=
  isRequested_modify fun _ => rfl

theorem isRequested_activate : (s.activate level).isRequested level = false :=
  isRequested_modify fun _ => rfl

theorem isRequested_deactivate {k : Nat} : (s.deactivate level).isRequested k = s.isRequested k := by
  rw [isRequested, deactivate, get_modify]
  split
  · next h => rw [h.1]; rfl
  · rfl

/-! ### Levels that are active -/

theorem isActive_modify {f : LevelState → LevelState} (hlt : level < levelCount) (k : Nat) :
    (s.modify level f).isActive k = if k = level then (f (s.get level)).active else s.isActive k := by
  rw [isActive, get_modify]
  by_cases hk : k = level
  · rw [if_pos ⟨hk, hlt⟩, if_pos hk]
  · rw [if_neg fun h => hk h.1, if_neg hk, isActive]

theorem lt_of_isActive {k : Nat} (h : s.isActive k = true) : k < levelCount := by
  have hsize : s.levels.toArray.size = levelCount := s.levels.size_toArray
  refine Nat.lt_of_not_le fun hle => ?_
  rw [isActive, get, Array.getD_eq_getD_getElem?, Array.getElem?_eq_none (by omega)] at h
  cases h

theorem firstActive?_eq_some :
    s.firstActive? = some level ↔ s.isActive level = true ∧ ∀ k < level, s.isActive k = false := by
  rw [firstActive?, List.find?_range_eq_some]
  constructor
  · rintro ⟨hactive, -, hidle⟩
    exact ⟨hactive, fun k hk => by simpa using hidle k hk⟩
  · rintro ⟨hactive, hidle⟩
    exact ⟨hactive, List.mem_range.mpr (lt_of_isActive hactive), fun k hk => by simpa using hidle k hk⟩

theorem firstActive?_eq_none : s.firstActive? = none ↔ ∀ k, s.isActive k = false := by
  rw [firstActive?, List.find?_eq_none]
  constructor
  · intro hidle k
    by_cases hlt : k < levelCount
    · simpa using hidle k (List.mem_range.mpr hlt)
    · exact Bool.eq_false_iff.mpr fun hactive => hlt (lt_of_isActive hactive)
  · intro hidle k _
    simpa using hidle k

theorem firstActive?_congr {s' : InterruptLevels} (h : s'.isActive = s.isActive) : s'.firstActive? = s.firstActive? := by
  rw [firstActive?, firstActive?, h]

/-- The levels when the first that is active has ended. -/
def endFirst (s : InterruptLevels) : InterruptLevels :=
  match s.firstActive? with
  | some level => s.deactivate level
  | none => s

theorem isActive_endFirst (k : Nat) :
    s.endFirst.isActive k = (s.isActive k && decide (s.firstActive? ≠ some k)) := by
  rw [endFirst]
  cases hfirst : s.firstActive? with
  | none => simp
  | some level =>
    obtain ⟨hactive, -⟩ := firstActive?_eq_some.mp hfirst
    dsimp only
    rw [deactivate, isActive_modify (lt_of_isActive hactive)]
    by_cases hk : k = level
    · rw [if_pos hk]
      simp [hk]
    · rw [if_neg hk]
      simp [Ne.symm hk]

end Concept32.InterruptLevels
