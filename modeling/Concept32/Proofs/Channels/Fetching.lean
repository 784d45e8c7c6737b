import Concept32.Proofs.Channels.Status
import Concept32.Proofs.Channels.Unstaged

/-!
# Fetching as an equation

What a fetch does to a program that has a new command to take: it finds the place of the doubleword, takes its
command, or stops where the list is wrong.
-/

namespace Concept32.ChannelProgram
open EStateM
variable {mem : Memory} {p q r : ChannelProgram} {first : Address} {transferAllowed : Bool}

/-- A word of a list, if memory has it. -/
def wordAt? (mem : Memory) (a : Address) : Option Word := (mem.readWord (wordBoundary (a.setWidth 32))).toOption

/-- Where the doubleword of the next command is, and its first word, when the list goes on at an address; otherwise
where the list is wrong. -/
def place (mem : Memory) (a : Address) (transferAllowed : Bool) : Except Address (Address × Word) :=
  match wordAt? mem a with
  | none => .error a
  | some word1 =>
    if !ChannelCommand.isTransfer (commandOf word1) then .ok (a, word1)
    else if !transferAllowed then .error a
    else
      let target : Address := word1.setWidth 24
      match wordAt? mem target with
      | none => .error target
      | some word1 => if ChannelCommand.isTransfer (commandOf word1) then .error target else .ok (target, word1)

/-- The first doubleword of a list is where the list begins. -/
theorem place_first : place mem first false = match wordAt? mem first with
    | none => .error first
    | some word1 => if ChannelCommand.isTransfer (commandOf word1) then .error first else .ok (first, word1) := by
  unfold place
  cases wordAt? mem first with
  | none => rfl
  | some word1 =>
    dsimp only
    cases ChannelCommand.isTransfer (commandOf word1) <;> rfl

/-- The program after a status modifier, which passes over one doubleword. -/
def modified (p : ChannelProgram) : ChannelProgram :=
  if p.status.contains .modifier then { p with next := p.next + 8, status := p.status.without .modifier } else p

/-- The program at another place of its list. -/
def movedTo (p : ChannelProgram) (a : Address) : ChannelProgram := { p with next := a }

/-- The program stopped because its list is wrong. -/
def failed {α : Type} (p : ChannelProgram) : Result ChannelStatus ChannelProgram α :=
  .error (p.addStatus .programCheck).status (p.addStatus .programCheck)

theorem listWord_eq (a : Address) :
    listWord mem a p = match wordAt? mem a with
      | some w => .ok w p
      | none => p.failed := by
  rw [listWord, wordAt?]
  cases mem.readWord (wordBoundary (a.setWidth 32)) <;> rfl

theorem firstWord_eq (h : p.status.hasError = false) :
    firstWord mem transferAllowed p =
      match place mem p.modified.next transferAllowed with
      | .error a => (p.modified.movedTo a).failed
      | .ok (a, word1) => .ok word1 (p.modified.movedTo a) := by
  have hmodified : firstWord mem transferAllowed p = (do
    let word1 ← listWord mem (← get).next
    if !ChannelCommand.isTransfer (commandOf word1) then return word1
    if !transferAllowed then fail .programCheck
    modify fun p => { p with next := word1.setWidth 24 }
    let word1 ← listWord mem (← get).next
    if ChannelCommand.isTransfer (commandOf word1) then fail .programCheck
    return word1 : Step Word) p.modified := by
    unfold firstWord modified
    refine (bind_of_ok rfl).trans ?_
    rw [h]
    refine (bind_of_ok rfl).trans ?_
    cases p.status.contains .modifier <;> rfl
  rw [hmodified, place]
  refine (bind_of_ok rfl).trans ?_
  cases hword1 : wordAt? mem p.modified.next with
  | none => exact bind_of_error (by rw [listWord_eq, hword1]; rfl)
  | some word1 =>
    refine (bind_of_ok (by rw [listWord_eq, hword1])).trans ?_
    dsimp only
    cases ChannelCommand.isTransfer (commandOf word1) with
    | false => rfl
    | true =>
      cases transferAllowed with
      | false => rfl
      | true =>
        refine (bind_of_ok rfl).trans ((bind_of_ok rfl).trans ?_)
        dsimp only [Bool.not_true]
        cases hword2 : wordAt? mem (word1.setWidth 24) with
        | none => exact bind_of_error (by rw [listWord_eq, hword2]; rfl)
        | some word2 =>
          refine (bind_of_ok (by rw [listWord_eq, hword2])).trans ?_
          dsimp only
          cases ChannelCommand.isTransfer (commandOf word2) <;> rfl

/-- What a doubleword of a list says. -/
structure Entry where
  command : Byte
  dataAddress : Address
  flags : CommandFlags
  count : Half
  deriving DecidableEq

def Entry.ofWords (word1 word2 : Word) : Entry :=
  ⟨commandOf word1, word1.setWidth 24, ⟨word2.extractLsb' 16 16⟩, word2.setWidth 16⟩

/-- A count of zero is right only without data. -/
def Entry.IsRight (e : Entry) : Prop := ¬(e.count = 0 ∧ e.dataAddress ≠ 0)

instance (e : Entry) : Decidable e.IsRight := inferInstanceAs (Decidable (¬_))

/-- The program with the first word of a doubleword at `a`. -/
def opened (p : ChannelProgram) (a : Address) (word1 : Word) : ChannelProgram :=
  { p with
    next := a
    command := some (commandOf word1)
    dataAddress := word1.setWidth 24 }

/-- The program with the command of a doubleword at `a`. -/
def take (p : ChannelProgram) (a : Address) (e : Entry) : ChannelProgram :=
  { p with
    next := a + 8
    dataAddress := e.dataAddress
    count := e.count
    flags := e.flags
    command := some e.command
    status := if e.flags.contains .programInterrupt then p.status.union .programInterrupt else p.status
    staged := none
    phase := .active }

theorem checked_eq {issued : Option Byte} :
    checked issued p = if p.count = 0 ∧ p.dataAddress ≠ 0 then p.failed else .ok issued p := by
  unfold checked
  refine (bind_of_ok rfl).trans ((bind_of_ok rfl).trans ?_)
  by_cases hwrong : p.count = 0 ∧ p.dataAddress ≠ 0
  · rw [if_pos hwrong, if_pos (by simpa using hwrong)]
    exact bind_of_error rfl
  · rw [if_neg hwrong, if_neg (by simpa using hwrong)]
    rfl

theorem flags_modified : p.modified.flags = p.flags := by
  unfold modified
  split <;> rfl

theorem contains_modified {s : ChannelStatus} (h : ChannelStatus.modifier.bits &&& s.bits = 0) :
    p.modified.status.contains s = p.status.contains s := by
  unfold modified
  split
  · exact ChannelStatus.contains_without h
  · rfl

/-- What a doubleword has for the device: nothing if it continues the data of the current command. -/
def issued (p : ChannelProgram) (word1 : Word) : Option Byte :=
  if p.flags.contains .dataChain then none else some (commandOf word1)

/-- The program with the current command, if the doubleword has none for the device. -/
def continuing (p : ChannelProgram) (word1 : Word) (q : ChannelProgram) : ChannelProgram :=
  { q with command := (p.issued word1).or p.command }

/-- A fetch goes to the doubleword at its place. -/
theorem fetch_eq_issued (herror : p.status.hasError = false) :
    fetch mem transferAllowed p =
      match place mem p.modified.next transferAllowed with
      | .error a => (p.modified.movedTo a).failed
      | .ok (a, word1) =>
        match wordAt? mem (a + 4) with
        | none => (p.modified.continuing word1 (p.modified.opened a word1)).failed
        | some word2 =>
          let e := Entry.ofWords word1 word2
          let q := p.modified.continuing word1 (p.modified.take a e)
          if e.IsRight then .ok (p.modified.issued word1) q else q.failed := by
  unfold fetch
  cases hplace : place mem p.modified.next transferAllowed with
  | error a => exact bind_of_error (by rw [firstWord_eq herror, hplace]; rfl)
  | ok found =>
    obtain ⟨a, word1⟩ := found
    refine (bind_of_ok (by rw [firstWord_eq herror, hplace])).trans ?_
    generalize p.modified = p
    refine (bind_of_ok rfl).trans ((bind_of_ok rfl).trans ((bind_of_ok rfl).trans ?_))
    dsimp only
    cases hword2 : wordAt? mem (a + 4) with
    | none =>
      refine bind_of_error ?_
      rw [listWord_eq]
      dsimp only [movedTo]
      rw [hword2]
      rfl
    | some word2 =>
      refine (bind_of_ok (by rw [listWord_eq]; dsimp only [movedTo]; rw [hword2])).trans ?_
      refine (bind_of_ok rfl).trans ((bind_of_ok rfl).trans ?_)
      have hchecked : ∀ q : ChannelProgram, q = p.continuing word1 (p.take a (.ofWords word1 word2)) →
          checked (p.issued word1) q =
            if (Entry.ofWords word1 word2).IsRight then
              .ok (p.issued word1) (p.continuing word1 (p.take a (.ofWords word1 word2)))
            else (p.continuing word1 (p.take a (.ofWords word1 word2))).failed := by
        rintro _ rfl
        rw [checked_eq]
        split
        · next hwrong => rw [if_neg fun hright => hright hwrong]
        · next hright => exact (if_pos hright).symm
      cases hinterrupt : (Entry.ofWords word1 word2).flags.contains .programInterrupt with
      | false =>
        refine (congrFun (if_neg ?_) _).trans (hchecked _ ?_)
        · exact Bool.eq_false_iff.mp hinterrupt
        · unfold continuing take
          rw [hinterrupt]
          rfl
      | true =>
        refine (congrFun (if_pos hinterrupt) _).trans ((bind_of_ok rfl).trans (hchecked _ ?_))
        unfold continuing take
        rw [hinterrupt]
        rfl

/-- A fetch takes the command of the doubleword at its place. -/
theorem fetch_eq (herror : p.status.hasError = false) (hchain : p.flags.contains .dataChain = false) :
    fetch mem transferAllowed p =
      match place mem p.modified.next transferAllowed with
      | .error a => (p.modified.movedTo a).failed
      | .ok (a, word1) =>
        match wordAt? mem (a + 4) with
        | none => (p.modified.opened a word1).failed
        | some word2 =>
          let e := Entry.ofWords word1 word2
          if e.IsRight then .ok (some e.command) (p.modified.take a e) else (p.modified.take a e).failed := by
  have hissued : ∀ word1, p.modified.issued word1 = some (commandOf word1) := fun word1 => by
    rw [issued, flags_modified, hchain]
    rfl
  have hcontinuing : ∀ word1 q, q.command = some (commandOf word1) → p.modified.continuing word1 q = q := by
    intro word1 q hq
    rw [continuing, hissued, Option.some_or, ← hq]
  rw [fetch_eq_issued herror]
  cases place mem p.modified.next transferAllowed with
  | error a => rfl
  | ok found =>
    obtain ⟨a, word1⟩ := found
    dsimp only
    rw [hissued, hcontinuing word1 _ rfl]
    cases wordAt? mem (a + 4) with
    | none => rfl
    | some word2 =>
      dsimp only
      rw [hcontinuing word1 _ rfl]
      rfl

/-! ### What a fetch keeps -/

/-- A fetch changes neither the status that came unasked nor the device, and stages no word. -/
structure Fetched (p q : ChannelProgram) : Prop where
  pending : q.pending = p.pending
  device : q.device = p.device
  staged : p.staged = none → q.staged = none

theorem Fetched.trans (h : Fetched p q) (h' : Fetched q r) : Fetched p r :=
  ⟨h'.pending.trans h.pending, h'.device.trans h.device, h'.staged ∘ h.staged⟩

namespace Fetched
variable {a : Address} {word1 : Word} {e : Entry} {s : ChannelStatus}

theorem modified : Fetched p p.modified := by
  unfold ChannelProgram.modified
  split <;> exact ⟨rfl, rfl, id⟩

theorem movedTo : Fetched p (p.movedTo a) := ⟨rfl, rfl, id⟩

theorem opened : Fetched p (p.opened a word1) := ⟨rfl, rfl, id⟩

theorem take : Fetched p (p.take a e) := ⟨rfl, rfl, fun _ => rfl⟩

theorem addStatus : Fetched p (p.addStatus s) := ⟨rfl, rfl, id⟩

end Fetched

theorem fetched_of_fetch (mem : Memory) (transferAllowed : Bool) (herror : p.status.hasError = false)
    (hchain : p.flags.contains .dataChain = false) :
    ∃ q, Fetched p q ∧ (p.fetch mem transferAllowed = q.failed ∨
      ∃ command, p.fetch mem transferAllowed = .ok (some command) q) := by
  rw [fetch_eq herror hchain]
  cases place mem p.modified.next transferAllowed with
  | error a => exact ⟨_, Fetched.modified.trans .movedTo, .inl rfl⟩
  | ok found =>
    obtain ⟨a, word1⟩ := found
    dsimp only
    cases wordAt? mem (a + 4) with
    | none => exact ⟨_, Fetched.modified.trans .opened, .inl rfl⟩
    | some word2 =>
      dsimp only
      split
      · exact ⟨_, Fetched.modified.trans .take, .inr ⟨_, rfl⟩⟩
      · exact ⟨_, Fetched.modified.trans .take, .inl rfl⟩

/-! ### How a fetch ends -/

/-- How a fetch ends: it stops on an error, goes on with the data of the current command, or has a new command. -/
inductive Fetches (p : ChannelProgram) : Result ChannelStatus ChannelProgram (Option Byte) → Prop
  | stopped {s : ChannelStatus} {q : ChannelProgram} (herror : q.status.hasError = true)
      (hend : p.status.contains .channelEnd = true → q.status.contains .channelEnd = true)
      (hcommand : p.flags.contains .dataChain = true → q.command = p.command)
      (hstaged : q.staged = p.staged ∨ q.staged = none) : Fetches p (.error s q)
  | continued {q : ChannelProgram} (hchain : p.flags.contains .dataChain = true) (hcommand : q.command = p.command)
      (hend : p.status.contains .channelEnd = true → q.status.contains .channelEnd = true) (hstaged : q.staged = none) :
      Fetches p (.ok none q)
  | given {command : Byte} {q : ChannelProgram} (hchain : p.flags.contains .dataChain = false)
      (hcommand : q.command = some command) (hstaged : q.staged = none) : Fetches p (.ok (some command) q)

theorem command_modified : p.modified.command = p.command := by
  unfold modified
  split <;> rfl

theorem staged_modified : p.modified.staged = p.staged := by
  unfold modified
  split <;> rfl

theorem issued_eq {chained : Bool} (hchain : p.flags.contains .dataChain = chained) (word1 : Word) :
    p.modified.issued word1 = if chained then none else some (commandOf word1) := by
  rw [issued, flags_modified, hchain]

theorem command_continuing (hchain : p.flags.contains .dataChain = true) (word1 : Word) :
    (p.modified.continuing word1 q).command = p.command := by
  rw [continuing, issued_eq hchain]
  exact command_modified

theorem fetches (mem : Memory) (transferAllowed : Bool) (p : ChannelProgram) :
    Fetches p (fetch mem transferAllowed p) := by
  cases herror : p.status.hasError with
  | true =>
    have hstop : fetch mem transferAllowed p = .error p.status p := by
      unfold fetch
      refine bind_of_error ?_
      unfold firstWord
      refine (bind_of_ok rfl).trans ?_
      rw [herror]
      rfl
    rw [hstop]
    exact .stopped herror id (fun _ => rfl) (.inl rfl)
  | false =>
    have hend : p.status.contains .channelEnd = true → p.modified.status.contains .channelEnd = true :=
      fun h => (contains_modified (by decide)).trans h
    have hfailed : ∀ q : ChannelProgram, (p.status.contains .channelEnd = true → q.status.contains .channelEnd = true) →
        (p.flags.contains .dataChain = true → q.command = p.command) → (q.staged = p.staged ∨ q.staged = none) →
        Fetches p q.failed := fun q hend hcommand hstaged =>
      .stopped ChannelStatus.hasError_union_programCheck (fun h => ChannelStatus.contains_union_of_left (hend h))
        hcommand hstaged
    have htake : ∀ a e, p.status.contains .channelEnd = true →
        (p.modified.take a e).status.contains .channelEnd = true := by
      intro a e h
      unfold take
      dsimp only
      split
      · exact ChannelStatus.contains_union_of_left (hend h)
      · exact hend h
    rw [fetch_eq_issued herror]
    cases place mem p.modified.next transferAllowed with
    | error a => exact hfailed _ hend (fun _ => command_modified) (.inl staged_modified)
    | ok found =>
      obtain ⟨a, word1⟩ := found
      dsimp only
      cases wordAt? mem (a + 4) with
      | none => exact hfailed _ hend (fun hchain => command_continuing hchain word1) (.inl staged_modified)
      | some word2 =>
        dsimp only
        split
        · cases hchain : p.flags.contains .dataChain with
          | true =>
            rw [issued_eq hchain]
            exact .continued hchain (command_continuing hchain word1) (htake a (.ofWords word1 word2)) rfl
          | false =>
            have hcommand : (p.modified.continuing word1 (p.modified.take a (.ofWords word1 word2))).command =
                some (commandOf word1) := by
              rw [continuing, issued_eq hchain]
              rfl
            rw [issued_eq hchain]
            exact .given hchain hcommand rfl
        · exact hfailed _ (htake a (.ofWords word1 word2)) (fun hchain => command_continuing hchain word1) (.inr rfl)

end Concept32.ChannelProgram
