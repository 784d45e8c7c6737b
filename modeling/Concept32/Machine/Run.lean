import Concept32.Machine.Tick

/-!
# Running the machine

Ticks one after the other, each at the time at which the machine is next to be advanced, but never at an
earlier time than the one before.
-/

namespace Concept32

/-- How far a machine has been run. -/
structure Run (δ ω : Type) where
  machine : Machine δ ω
  /-- The time of the last tick. -/
  now : Nat
  /-- The number of ticks, with one that stopped the machine. -/
  ticks : Nat
  /-- What stopped the machine. -/
  stop : Option MachineStop

namespace Run
variable {δ ω : Type} [Peripheral δ ω]

/-- A machine before its first tick, at a time. -/
def begin (machine : Machine δ ω) (now : Nat) : Run δ ω := ⟨machine, now, 0, none⟩

/-- One tick, at the next time that the machine has something to do. -/
def advance : Run δ ω → Run δ ω
  | ⟨machine, now, ticks, _⟩ =>
    let now := max now machine.nextTick
    match machine.tick now with
    | .ok _ machine => ⟨machine, now, ticks + 1, none⟩
    | .error stop machine => ⟨machine, now, ticks + 1, some stop⟩

/-- At most `limit` ticks, until the machine stops or `done` holds of it. -/
def advanceUntil (done : Machine δ ω → Bool) : (limit : Nat) → Run δ ω → Run δ ω
  | 0, r => r
  | limit + 1, r =>
    if r.stop.isSome || done r.machine then r else advanceUntil done limit r.advance

end Run
end Concept32
