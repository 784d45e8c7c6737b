import Concept32.Proofs.Channels.Fetching
import Concept32.Proofs.Channels.Scanning

/-!
# Giving a command to a device

A command is given by looking at the device's answer, and the answer changes little of the program.
-/

namespace Concept32.Channels
open ChannelProgram
variable {δ ω : Type} {c : Channels δ ω} {a : DeviceAddress} {now : Nat} {mem : Memory} {s : Subchannel δ}
  {command : Byte} {p : ChannelProgram} {f g : ChannelProgram → ChannelProgram}

/-! ### Changing a program -/

theorem modifyProgram_modifyProgram :
    (c.modifyProgram a f).modifyProgram a g = c.modifyProgram a fun p => g (f p) := by
  simp only [modifyProgram, Table.modify_modify]

/-- A change that is overwritten leaves no trace. -/
theorem modifyProgram_const :
    ((c.modifyProgram a f).modifyProgram a fun _ => p) = c.modifyProgram a fun _ => p := modifyProgram_modifyProgram

theorem absorb_modifyProgram {α : Type} {r : Reaction δ ω α} :
    (c.modifyProgram a f).absorb a r = (c.absorb a r).modifyProgram a f := by
  simp only [modifyProgram, absorb, Table.modify_modify]

theorem get?_modifyProgram_self (hs : c.get? a = some s) :
    (c.modifyProgram a f).get? a = some { s with program := f s.program } := by
  rw [get?_modifyProgram, if_pos rfl, hs]
  rfl

/-- Two changes of a program in turn, each way round. -/
theorem modifyProgram_comm {f' g' : ChannelProgram → ChannelProgram} (h : ∀ p, g (f p) = g' (f' p)) :
    (c.modifyProgram a f).modifyProgram a g = (c.modifyProgram a f').modifyProgram a g' := by
  rw [modifyProgram_modifyProgram, modifyProgram_modifyProgram, funext h]

theorem modifyProgram_congr (hp : c.program? a = some p) (h : f p = g p) :
    c.modifyProgram a f = c.modifyProgram a g := by
  unfold modifyProgram
  rw [Table.modify_congr fun s hs => ?_]
  have hprogram : s.program = p := by
    rw [program?, get?, hs] at hp
    exact Option.some.inj hp
  rw [hprogram, h]

/-- The program after its status was queued. -/
def stored (p : ChannelProgram) : ChannelProgram := { p with status := .none, count := 0, device := none }

theorem storeStatus_modifyProgram (hp : c.program? a = some p) :
    (c.modifyProgram a f).storeStatus a =
      ((c.queueStatus a (.of a (f p).next (f p).status (f p).count)).modifyProgram a fun _ => stored (f p)).raise := by
  unfold storeStatus
  rw [program?_modifyProgram_self, hp]
  dsimp only [Option.map_some]
  refine congrArg raise ?_
  refine (modifyProgram_modifyProgram (c := c.queueStatus a _) (f := f)).trans ?_
  exact modifyProgram_congr hp rfl

theorem program?_absorb {α : Type} {r : Reaction δ ω α} (hs : c.get? a = some s) :
    (c.absorb a r).program? a = some s.program := by
  rw [get?] at hs
  rw [program?, get?, absorb, Table.get?_modify, if_pos rfl, hs]
  rfl

/-! ### The answer of a device -/

/-- The channels with the place of status that a command sets. -/
def addressed (c : Channels δ ω) (a : DeviceAddress) (command : Byte) (place : Address) : Channels δ ω :=
  if command = ChannelCommand.setStatusAddress then
    c.setChannel a.channel { c.channel a.channel with statusAddress := place }
  else c

/-- The channels after the answer of a device to a command; `carried` is what the status keeps. -/
def answered (c : Channels δ ω) (now : Nat) (a : DeviceAddress) (carried : ChannelStatus) :
    CommandResponse → Except ChannelStatus Unit × Channels δ ω
  | .accepted delay =>
    (.ok (), ({ c with schedule := c.schedule.put a (now + delay) } : Channels δ ω).modifyProgram a fun p =>
      { p with status := carried })
  | .done status =>
    let whole := (status.union carried).union .channelEnd
    if status.endsChain then
      (.error whole, c.raise.modifyProgram a fun p => { p with status := whole, flags := .none, command := none })
    else if status.intersects (ChannelStatus.channelEnd.union .deviceEnd) then
      (.ok (), c.raise.modifyProgram a fun p => { p with status := whole, phase := .newCommand, command := none })
    else (.ok (), c.raise.modifyProgram a fun p => { p with status := status.union carried })

theorem program?_answered {carried : ChannelStatus} {response : CommandResponse} (hp : c.program? a = some p) :
    ∃ q, (c.answered now a carried response).2.program? a = some q ∧ Fetched p q := by
  have hmodify : ∀ (c' : Channels δ ω) (f : ChannelProgram → ChannelProgram), c'.program? a = some p →
      Fetched p (f p) → ∃ q, (c'.modifyProgram a f).program? a = some q ∧ Fetched p q := fun c' f hp' hf =>
    ⟨f p, by rw [program?_modifyProgram_self, hp']; rfl, hf⟩
  cases response with
  | accepted delay => exact hmodify _ _ hp ⟨rfl, rfl, id⟩
  | done status =>
    dsimp only [answered]
    split
    · exact hmodify _ _ hp ⟨rfl, rfl, id⟩
    split <;>
    · exact hmodify _ _ hp ⟨rfl, rfl, id⟩

variable [Peripheral δ ω]

/-- How a device answers a command: one that is write-protected does not see a command that writes. -/
def reactionTo (device : δ) (now : Nat) (command : Byte) : Reaction δ ω CommandResponse :=
  if ChannelCommand.isWrite command && Peripheral.writeProtected device then
    .only device (.done (ChannelStatus.unitCheck.union .deviceEnd))
  else Peripheral.startCommand device now command

theorem issue_eq (hs : c.get? a = some s) :
    c.issue now a command =
      ((c.addressed a command s.program.dataAddress).absorb a (reactionTo s.device now command)).answered now a
        (if s.program.status.contains .programInterrupt then .programInterrupt else .none)
        (reactionTo s.device now command : Reaction δ ω CommandResponse).answer := by
  unfold issue
  rw [hs]
  rfl

theorem program?_issue (now : Nat) (command : Byte) (hs : c.get? a = some s) :
    ∃ q, (c.issue now a command).2.program? a = some q ∧ Fetched s.program q := by
  rw [issue_eq hs]
  refine program?_answered ?_
  have haddressed : (c.addressed a command s.program.dataAddress).get? a = some s := by
    unfold addressed
    split <;> exact hs
  exact program?_absorb haddressed

theorem program?_continueProgram (now : Nat) (mem : Memory) (allowed : Bool) (hs : c.get? a = some s)
    (herror : s.program.status.hasError = false) (hchain : s.program.flags.contains .dataChain = false) :
    ∃ q, (c.continueProgram now mem a allowed).2.program? a = some q ∧ Fetched s.program q := by
  have hprogram : c.program? a = some s.program := by rw [program?, hs]; rfl
  unfold continueProgram
  rw [hprogram]
  dsimp only
  obtain ⟨q, hq, hfetch | ⟨command, hfetch⟩⟩ := fetched_of_fetch mem allowed herror hchain
  · rw [hfetch]
    refine ⟨q.addStatus .programCheck, ?_, hq.trans .addStatus⟩
    exact (program?_modifyProgram_self c a fun _ => q.addStatus .programCheck).trans (by rw [hprogram]; rfl)
  · rw [hfetch]
    obtain ⟨q', hq', hkept⟩ := program?_issue now command (get?_modifyProgram_self (f := fun _ => q) hs)
    exact ⟨q', hq', hq.trans hkept⟩

/-- A command is given to a device before any byte of it is moved. -/
theorem staged_continueProgram {allowed : Bool} (hgiven : (c.continueProgram now mem a allowed).1 = .ok ())
    (hp : (c.continueProgram now mem a allowed).2.program? a = some p) : p.staged = none := by
  unfold continueProgram at hgiven hp
  cases hs : c.get? a with
  | none =>
    rw [program?, hs] at hgiven
    cases hgiven
  | some s =>
    have hprogram : c.program? a = some s.program := by rw [program?, hs]; rfl
    have hfetches := ChannelProgram.fetches mem allowed s.program
    rw [hprogram] at hgiven hp
    dsimp only at hgiven hp
    generalize s.program.fetch mem allowed = fetched at hfetches hgiven hp
    cases hfetches with
    | stopped => cases hgiven
    | continued _ _ _ hstaged =>
      dsimp only at hp
      rw [program?_modifyProgram_self, hprogram] at hp
      cases hp
      exact hstaged
    | @given command q _ _ hstaged =>
      obtain ⟨q', hq', hfetched⟩ :=
        program?_issue now command (get?_modifyProgram_self (f := fun _ => q) hs)
      cases hq'.symm.trans hp
      exact hfetched.staged hstaged

end Concept32.Channels
