import Concept32.Proofs.Channels.Fetching

/-!
# The order of a command list

A list of commands is gone through from its first doubleword on, as long as doublewords chain commands. A device may
ask for a doubleword to be passed over, and a transfer command leads elsewhere. Where the list is wrong it is stopped,
and the status of that follows one scan later, unless it is the first doubleword that is wrong.
-/

namespace Concept32.ChannelProgram
open EStateM
variable {mem : Memory} {p : ChannelProgram} {a next : Address} {e : Entry} {transferAllowed : Bool}

/-- How far a list has come; `next` is where it goes on. -/
inductive Progress where
  /-- The command of a doubleword has been given to the device. -/
  | given (next : Address) (e : Entry)
  /-- The last command has ended, and its status has been queued. -/
  | ended (next : Address)
  /-- The list is wrong, and no status has been queued for that yet. -/
  | broken (next : Address)
  /-- The list was wrong, and the status of that has been queued. -/
  | stopped (next : Address)
  deriving DecidableEq

namespace Progress

def command? : Progress → Option Byte
  | .given _ e => some e.command
  | _ => none

/-- The doubleword at an address of the list, which may be a transfer command that leads to it. -/
def entryAt (mem : Memory) (a : Address) (transferAllowed : Bool) : Progress :=
  match place mem a transferAllowed with
  | .error a => .broken a
  | .ok (a, word1) =>
    match wordAt? mem (a + 4) with
    | none => .broken a
    | some word2 =>
      if (Entry.ofWords word1 word2).IsRight then .given (a + 8) (.ofWords word1 word2) else .broken (a + 8)

/-- Where a list that has come somewhere is after another round; `modifier` tells whether the device ended its command
with a status modifier. -/
def advance (mem : Memory) (modifier : Bool) : Progress → Progress
  | .given next e =>
    if e.flags.contains .commandChain then entryAt mem (if modifier then next + 8 else next) true else .ended next
  | .broken next => .stopped next
  | progress => progress

/-- The list that begins at an address, after a number of rounds. Memory is what it is when each doubleword is looked
for. What is wrong with the first doubleword is reported at once. -/
def walk (mems : Nat → Memory) (modifiers : Nat → Bool) (first : Address) : Nat → Progress
  | 0 =>
    match entryAt (mems 0) first false with
    | .broken next => .stopped next
    | progress => progress
  | n + 1 => (walk mems modifiers first n).advance (mems (n + 1)) (modifiers n)

/-- The commands that a list gives before a number of rounds. -/
def commands (walk : Nat → Progress) (n : Nat) : List Byte := (List.range n).filterMap fun k => (walk k).command?

theorem commands_succ {walk : Nat → Progress} {n : Nat} :
    commands walk (n + 1) = commands walk n ++ (walk n).command?.toList := by
  rw [commands, List.range_succ, List.filterMap_append]
  cases h : (walk n).command? with
  | none => simp [commands, h]
  | some c => simp [commands, h]

theorem entryAt_cases (mem : Memory) (a : Address) (transferAllowed : Bool) :
    (∃ next e, entryAt mem a transferAllowed = .given next e) ∨
    ∃ next, entryAt mem a transferAllowed = .broken next := by
  unfold entryAt
  cases place mem a transferAllowed with
  | error a => exact .inr ⟨_, rfl⟩
  | ok found =>
    dsimp only
    cases wordAt? mem (found.1 + 4) with
    | none => exact .inr ⟨_, rfl⟩
    | some word2 =>
      dsimp only
      split
      · exact .inl ⟨_, _, rfl⟩
      · exact .inr ⟨_, rfl⟩

end Progress

/-! ### Fetching what the list has -/

theorem next_modified : p.modified.next = if p.status.contains .modifier then p.next + 8 else p.next := by
  unfold modified
  split <;> rfl

theorem pending_modified : p.modified.pending = p.pending := Fetched.modified.pending

theorem fetch_of_given (herror : p.status.hasError = false) (hchain : p.flags.contains .dataChain = false)
    (h : Progress.entryAt mem p.modified.next transferAllowed = .given next e) :
    ∃ a, a + 8 = next ∧ fetch mem transferAllowed p = .ok (some e.command) (p.modified.take a e) := by
  unfold Progress.entryAt at h
  rw [fetch_eq herror hchain]
  cases hplace : place mem p.modified.next transferAllowed with
  | error a =>
    rw [hplace] at h
    cases h
  | ok found =>
    obtain ⟨a, word1⟩ := found
    rw [hplace] at h
    dsimp only at h ⊢
    cases hword2 : wordAt? mem (a + 4) with
    | none =>
      rw [hword2] at h
      cases h
    | some word2 =>
      rw [hword2] at h
      dsimp only at h ⊢
      split at h
      · next hright =>
        cases h
        exact ⟨a, rfl, if_pos hright⟩
      · cases h

/-- What is left of a program whose list is wrong: it is told so, and where. -/
theorem fetch_of_broken (herror : p.status.hasError = false) (hchain : p.flags.contains .dataChain = false)
    (h : Progress.entryAt mem p.modified.next transferAllowed = .broken next) :
    ∃ q : ChannelProgram, fetch mem transferAllowed p = q.failed ∧ q.next = next ∧ q.pending = p.pending ∧
      (p.status.contains .channelEnd = true → q.status.contains .channelEnd = true) := by
  have hend : p.status.contains .channelEnd = true → p.modified.status.contains .channelEnd = true :=
    fun h => (contains_modified (by decide)).trans h
  have htake : ∀ a e, p.status.contains .channelEnd = true →
      (p.modified.take a e).status.contains .channelEnd = true := by
    intro a e h
    unfold take
    dsimp only
    split
    · exact ChannelStatus.contains_union_of_left (hend h)
    · exact hend h
  unfold Progress.entryAt at h
  rw [fetch_eq herror hchain]
  cases hplace : place mem p.modified.next transferAllowed with
  | error a =>
    rw [hplace] at h
    cases h
    exact ⟨_, rfl, rfl, pending_modified, hend⟩
  | ok found =>
    obtain ⟨a, word1⟩ := found
    rw [hplace] at h
    dsimp only at h ⊢
    cases hword2 : wordAt? mem (a + 4) with
    | none =>
      rw [hword2] at h
      cases h
      exact ⟨_, rfl, rfl, pending_modified, hend⟩
    | some word2 =>
      rw [hword2] at h
      dsimp only at h ⊢
      split at h
      · cases h
      · next hwrong =>
        cases h
        exact ⟨_, if_neg hwrong, rfl, pending_modified, htake _ _⟩

end Concept32.ChannelProgram
