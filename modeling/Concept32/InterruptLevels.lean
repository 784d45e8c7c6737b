import Concept32.Scratchpad

/-!
# Interrupt levels

Each level is enabled or not, has a request pending or not and is active or not, whatever the others
are. Level 0 comes first. A request for a level that is not enabled is kept; while a level is active,
no level after it interrupts.
-/

namespace Concept32

structure LevelState where
  enabled : Bool
  requested : Bool
  active : Bool
  deriving DecidableEq, Repr

namespace LevelState

/-- Neither enabled nor requested nor active. -/
def idle : LevelState := ⟨false, false, false⟩

/-- Three letters for the three states, with a dash for each that does not hold. -/
def text (l : LevelState) : String :=
  (if l.enabled then "E" else "-") ++ (if l.requested then "R" else "-") ++
    (if l.active then "A" else "-")

end LevelState

structure InterruptLevels where
  levels : Vector LevelState levelCount
  deriving DecidableEq

namespace InterruptLevels

def idle : InterruptLevels := ⟨Vector.replicate levelCount .idle⟩

/-- The state of a level; one beyond the last is idle. -/
def get (s : InterruptLevels) (level : Nat) : LevelState := s.levels.toArray.getD level .idle

/-- The levels with one changed; one beyond the last is passed over. -/
def modify (s : InterruptLevels) (level : Nat) (f : LevelState → LevelState) : InterruptLevels :=
  ⟨⟨s.levels.toArray.modify level f, by simp⟩⟩

def isEnabled (s : InterruptLevels) (level : Nat) : Bool := (s.get level).enabled

def isRequested (s : InterruptLevels) (level : Nat) : Bool := (s.get level).requested

def isActive (s : InterruptLevels) (level : Nat) : Bool := (s.get level).active

/-- Enabling a level lets its request through. -/
def enable (s : InterruptLevels) (level : Nat) : InterruptLevels :=
  s.modify level fun l => { l with enabled := true }

/-- Disabling a level drops its request. -/
def disable (s : InterruptLevels) (level : Nat) : InterruptLevels :=
  s.modify level fun l => { l with enabled := false, requested := false }

/-- A request is kept until the level becomes active or is disabled. -/
def request (s : InterruptLevels) (level : Nat) : InterruptLevels :=
  s.modify level fun l => { l with requested := true }

/-- The level's request is dropped. -/
def clearRequest (s : InterruptLevels) (level : Nat) : InterruptLevels :=
  s.modify level fun l => { l with requested := false }

/-- Making a level active uses up its request. -/
def activate (s : InterruptLevels) (level : Nat) : InterruptLevels :=
  s.modify level fun l => { l with requested := false, active := true }

def deactivate (s : InterruptLevels) (level : Nat) : InterruptLevels :=
  s.modify level fun l => { l with active := false }

def firstActive? (s : InterruptLevels) : Option Nat := (List.range levelCount).find? s.isActive

/-- The levels that are not idle, in order, each with its state. -/
def listing (s : InterruptLevels) : List String :=
  ((List.range levelCount).filter fun level => s.get level ≠ .idle).map
    fun level => hex 2 level ++ ":" ++ (s.get level).text

end InterruptLevels
end Concept32
