/-!
# Schedules

A schedule holds at most one time for each key and gives out the earliest first. Putting a key that is there
already replaces its time. Which of several equal times comes first is open: it is a choice that is made again
whenever a key is taken away.
-/

namespace Concept32

/-- Times by key, one for each key. -/
structure Schedule (κ : Type) where
  entries : List (κ × Nat)
  distinct : (entries.map Prod.fst).Nodup
  /-- Which of the earliest entries is the first, for each number of keys taken away before. -/
  choice : Nat → Nat
  /-- The number of keys taken away. -/
  removals : Nat

namespace Schedule
variable {κ : Type} [DecidableEq κ]

/-- Without a key; of equal times that comes first which has been there longest. -/
def empty : Schedule κ := ⟨[], List.nodup_nil, fun _ => 0, 0⟩

/-- The schedule without any key. -/
def clear (s : Schedule κ) : Schedule κ := { s with entries := [], distinct := List.nodup_nil }

/-- The schedule with another choice among equal times. -/
def choosing (s : Schedule κ) (choice : Nat → Nat) : Schedule κ := { s with choice := choice }

instance : Inhabited (Schedule κ) := ⟨empty⟩

def size (s : Schedule κ) : Nat := s.entries.length

def isEmpty (s : Schedule κ) : Bool := s.entries.isEmpty

def time? (s : Schedule κ) (key : κ) : Option Nat := s.entries.lookup key

/-- The schedule without a key. -/
def remove (s : Schedule κ) (key : κ) : Schedule κ where
  entries := s.entries.filter fun e => e.1 ≠ key
  distinct := s.distinct.sublist (List.filter_sublist.map _)
  choice := s.choice
  removals := s.removals + 1

/-- The entries with another time for a key. -/
def replaceTime (key : κ) (time : Nat) (entries : List (κ × Nat)) : List (κ × Nat) :=
  entries.map fun e => if e.1 = key then (key, time) else e

theorem map_fst_replaceTime (key : κ) (time : Nat) (entries : List (κ × Nat)) :
    (replaceTime key time entries).map Prod.fst = entries.map Prod.fst := by
  simp only [replaceTime, List.map_map]
  refine List.map_congr_left fun e _ => ?_
  by_cases h : e.1 = key <;> simp [h]

/-- The schedule with a time for a key. A key that it has keeps its place; another comes last. -/
def put (s : Schedule κ) (key : κ) (time : Nat) : Schedule κ :=
  if h : key ∈ s.entries.map Prod.fst then
    { s with
      entries := replaceTime key time s.entries
      distinct := by rw [map_fst_replaceTime]; exact s.distinct }
  else
    { s with
      entries := s.entries ++ [(key, time)]
      distinct := by
        rw [List.map_append]
        exact List.nodup_append.mpr ⟨s.distinct, by simp, fun a ha b hb hab => by
          rw [List.map_singleton, List.mem_singleton] at hb
          exact h (by rw [← show a = key from hab.trans hb]; exact ha)⟩ }

/-- The schedule with another time for a key that it has. -/
def change? (s : Schedule κ) (key : κ) (time : Nat) : Option (Schedule κ) :=
  if (s.time? key).isSome then some (s.put key time) else none

/-- The entries than which none is earlier. -/
def least (s : Schedule κ) : List (κ × Nat) := s.entries.filter fun e => s.entries.all fun f => e.2 ≤ f.2

def earliest? (s : Schedule κ) : Option (κ × Nat) := s.least[s.choice s.removals % s.least.length]?

/-- The key with the earliest time, and the schedule without it. -/
def pop? (s : Schedule κ) : Option ((κ × Nat) × Schedule κ) :=
  s.earliest?.map fun e => (e, s.remove e.1)

/-- The key with the earliest time if that is not after `now`, and the schedule without it. -/
def popDue? (s : Schedule κ) (now : Nat) : Option (κ × Schedule κ) :=
  match s.earliest? with
  | some (key, time) => if time ≤ now then some (key, s.remove key) else none
  | none => none

def next? (s : Schedule κ) : Option Nat := s.earliest?.map Prod.snd

end Schedule
end Concept32
