import Concept32.Device.Standard
import Concept32.Proofs.Channels.Advancing
import Concept32.Proofs.Channels.Extent

/-!
# The status modifier

A device that ends its command with a status modifier asks for the next command to be passed over. The modifier is
taken by the first doubleword that is fetched after that. If the device has come to the end of its data chain this is
the next command, but if it stops before, the rest of the chain is passed over first: a doubleword of the rest is then
passed over unread, and the list goes on wherever the chain ends that is read behind it.
-/

namespace Concept32

namespace ChannelProgram
open Progress
variable {mem : Memory} {p q : ChannelProgram} {a last : Address} {flags flags' : CommandFlags} {limit : Nat}
  {e : Entry}

/-! ### Where a data chain ends -/

/-- Where the list goes on behind a data chain, and the flags of its last doubleword: `flags` are those of a doubleword,
and the list goes on at `a` behind that. The chain has at most `limit` more doublewords, and all suppress length errors. -/
def chainEnd? (mem : Memory) : (limit : Nat) → (flags : CommandFlags) → (a : Address) → Option (Address × CommandFlags)
  | 0, flags, a => if flags.contains .dataChain then none else some (a, flags)
  | limit + 1, flags, a =>
    if flags.contains .dataChain then
      match entryAt mem a true with
      | .given next e => if e.flags.contains .suppressLength then chainEnd? mem limit e.flags next else none
      | _ => none
    else some (a, flags)

theorem chainEnd?_of_not_chained (h : flags.contains .dataChain = false) : chainEnd? mem limit flags a = some (a, flags) := by
  cases limit with
  | zero => rw [chainEnd?, h]; rfl
  | succ limit => rw [chainEnd?, h]; rfl

/-- The program has come to the end of a data chain, with nothing wrong and no modifier left. -/
structure PassedTo (p : ChannelProgram) (last : Address) (flags : CommandFlags) (q : ChannelProgram) : Prop where
  next : q.next = last
  flags : q.flags = flags
  clean : q.status.hasError = false
  plain : q.status.contains .modifier = false
  channelEnd : p.status.contains .channelEnd = true → q.status.contains .channelEnd = true
  deviceEnd : p.status.contains .deviceEnd = true → q.status.contains .deviceEnd = true

theorem PassedTo.of_status (hnext : q.next = last) (hflags : q.flags = flags) (herror : p.status.hasError = false)
    (hplain : p.status.contains .modifier = false)
    (hstatus : q.status = p.status ∨ q.status = p.status.union .programInterrupt) : PassedTo p last flags q := by
  rcases hstatus with h | h
  · exact ⟨hnext, hflags, h ▸ herror, h ▸ hplain, h ▸ id, h ▸ id⟩
  · refine ⟨hnext, hflags, ?_, ?_, fun hend => ?_, fun hend => ?_⟩
    · rw [h, ChannelStatus.hasError_union, herror]
      rfl
    · rw [h, ChannelStatus.contains_union_of_disjoint (by decide)]
      exact hplain
    · rw [h]
      exact ChannelStatus.contains_union_of_left hend
    · rw [h]
      exact ChannelStatus.contains_union_of_left hend

theorem PassedTo.trans {r : ChannelProgram} {mid : Address} (h : PassedTo p mid flags' q)
    (h' : PassedTo q last flags r) : PassedTo p last flags r :=
  ⟨h'.next, h'.flags, h'.clean, h'.plain, h'.channelEnd ∘ h.channelEnd, h'.deviceEnd ∘ h.deviceEnd⟩

theorem modified_of_plain (hplain : p.status.contains .modifier = false) : p.modified = p := by
  rw [modified, hplain]
  rfl

theorem hasError_modified : p.modified.status.hasError = p.status.hasError := by
  unfold modified
  split
  · exact ChannelStatus.hasError_without_modifier
  · rfl

/-- A fetch takes the modifier. -/
theorem plain_modified : p.modified.status.contains .modifier = false := by
  unfold modified
  split
  · exact ChannelStatus.contains_without_self (by decide)
  · next h => simpa using h

/-- The program has gone on to a doubleword that continues the data of its command. -/
structure Continued (p : ChannelProgram) (next : Address) (e : Entry) (q : ChannelProgram) : Prop
    extends PassedTo p next e.flags q where
  dataAddress : q.dataAddress = e.dataAddress
  count : q.count = e.count
  phase : q.phase = .active

theorem continued_take {word1 : Word} (herror : p.status.hasError = false) :
    Continued p (a + 8) e (p.modified.continuing word1 (p.modified.take a e)) := by
  have hpassed : PassedTo p.modified (a + 8) e.flags (p.modified.continuing word1 (p.modified.take a e)) := by
    refine .of_status rfl rfl (hasError_modified.trans herror) plain_modified ?_
    rw [continuing, take]
    dsimp only
    split
    · exact .inr rfl
    · exact .inl rfl
  have hkept {s : ChannelStatus} (hs : ChannelStatus.modifier.bits &&& s.bits = 0) (h : p.status.contains s = true) :
      p.modified.status.contains s = true := (contains_modified hs).trans h
  exact { hpassed with
    channelEnd := hpassed.channelEnd ∘ hkept (by decide)
    deviceEnd := hpassed.deviceEnd ∘ hkept (by decide)
    dataAddress := rfl
    count := rfl
    phase := rfl }

/-- A doubleword that continues the data of the current command. -/
theorem fetch_of_chained (mem : Memory) (herror : p.status.hasError = false)
    (hchain : p.flags.contains .dataChain = true) :
    match entryAt mem p.modified.next true with
    | .given next e => ∃ q, fetch mem true p = .ok none q ∧ Continued p next e q
    | _ => ∃ s q, fetch mem true p = .error s q ∧ q.status.hasError = true := by
  have hfailed : ∀ q : ChannelProgram, ∃ s r, (q.failed : EStateM.Result ChannelStatus ChannelProgram (Option Byte)) =
      .error s r ∧ r.status.hasError = true := fun q => ⟨_, _, rfl, ChannelStatus.hasError_union_programCheck⟩
  rw [fetch_eq_issued herror, entryAt]
  cases place mem p.modified.next true with
  | error a => exact hfailed _
  | ok found =>
    obtain ⟨a, word1⟩ := found
    dsimp only
    cases wordAt? mem (a + 4) with
    | none => exact hfailed _
    | some word2 =>
      dsimp only
      split
      · next hentry =>
        split at hentry
        · next hright =>
          cases hentry
          rw [if_pos hright, issued_eq hchain]
          exact ⟨_, rfl, continued_take herror⟩
        · cases hentry
      · next hentry =>
        split at hentry
        · exact absurd rfl (hentry _ _)
        · next hwrong =>
          rw [if_neg hwrong]
          exact hfailed _

/-- The program has passed over the rest of a data chain, as far as that is right. -/
def PassedOver (mem : Memory) (limit : Nat) (p q : ChannelProgram) : Prop :=
  match chainEnd? mem limit p.flags p.next with
  | some (last, flags) => PassedTo p last flags q
  | none => q.status.hasError = true

theorem passedOver_of_not_chained (limit : Nat) (herror : p.status.hasError = false)
    (hplain : p.status.contains .modifier = false) (hlast : p.flags.contains .dataChain = false) :
    PassedOver mem limit p (p.skipChain mem limit) := by
  rw [PassedOver, chainEnd?_of_not_chained hlast, Transfer.skipChain_of_not_chained hlast]
  exact .of_status rfl rfl herror hplain (.inl rfl)

theorem passedOver_skipChain (mem : Memory) (limit : Nat) (herror : p.status.hasError = false)
    (hplain : p.status.contains .modifier = false) : PassedOver mem limit p (p.skipChain mem limit) := by
  induction limit generalizing p with
  | zero =>
    cases hchain : p.flags.contains .dataChain with
    | false => exact passedOver_of_not_chained 0 herror hplain hchain
    | true =>
      rw [PassedOver, chainEnd?, skipChain, hchain]
      exact ChannelStatus.hasError_union_programCheck
  | succ limit ih =>
    cases hchain : p.flags.contains .dataChain with
    | false => exact passedOver_of_not_chained _ herror hplain hchain
    | true =>
      have hfetch := fetch_of_chained mem herror hchain
      rw [modified_of_plain hplain] at hfetch
      rw [PassedOver, chainEnd?, skipChain, hchain, if_pos rfl, Bool.not_true, if_neg Bool.false_ne_true]
      obtain ⟨next, e, hentry⟩ | ⟨next, hentry⟩ := entryAt_cases mem p.next true
      · rw [hentry] at hfetch ⊢
        obtain ⟨q, hfetch, hcontinued⟩ := hfetch
        have hpassed := hcontinued.toPassedTo
        rw [hfetch]
        dsimp only
        rw [hpassed.flags]
        cases e.flags.contains .suppressLength with
        | false => exact ChannelStatus.hasError_union_length
        | true =>
          have hrest := ih hpassed.clean hpassed.plain
          rw [PassedOver, hpassed.flags, hpassed.next] at hrest
          rw [if_pos rfl, if_pos rfl]
          cases hend : chainEnd? mem limit e.flags next with
          | none =>
            rw [hend] at hrest
            exact hrest
          | some found =>
            rw [hend] at hrest
            exact hpassed.trans hrest
      · rw [hentry] at hfetch ⊢
        obtain ⟨_, q, hfetch, hwrong⟩ := hfetch
        rw [hfetch]
        exact hwrong

/-! ### The modifier -/

theorem fetch_modified (herror : p.status.hasError = false) : fetch mem true p.modified = fetch mem true p := by
  rw [fetch_eq_issued (hasError_modified.trans herror), fetch_eq_issued herror, modified_of_plain plain_modified]

/-- The rest of a data chain is passed over from the doubleword on that the modifier leads to. -/
theorem skipChain_modified (herror : p.status.hasError = false) (hchain : p.flags.contains .dataChain = true) :
    p.modified.skipChain mem (limit + 1) = p.skipChain mem (limit + 1) := by
  rw [skipChain, skipChain, flags_modified, hchain, fetch_modified herror]
  rfl

/-- Where the next command of a program is whose command has ended, if the list goes on. -/
def goesOnAt? (p : ChannelProgram) : Option Address :=
  if p.status.contains .channelEnd && p.status.contains .deviceEnd && p.flags.contains .commandChain &&
    !p.status.hasError then some p.modified.next else none

theorem goesOnAt?_of_error (h : p.status.hasError = true) : p.goesOnAt? = none := by
  rw [goesOnAt?, h]
  exact if_neg (by simp)

/-- The list goes on if the program chains commands. -/
theorem goesOnAt?_of_ended (herror : p.status.hasError = false) (hchannel : p.status.contains .channelEnd = true)
    (hdevice : p.status.contains .deviceEnd = true) :
    p.goesOnAt? = if p.flags.contains .commandChain then some p.modified.next else none := by
  rw [goesOnAt?, herror, hchannel, hdevice, Bool.not_false, Bool.and_true, Bool.true_and, Bool.true_and]

end ChannelProgram

namespace Transfer
open ChannelProgram
variable {mem : Memory} {p : ChannelProgram} {s : ChannelStatus}

/-- The program of a command that the device has ended, before the rest of its data chain is passed over. -/
def ending (s : ChannelStatus) (p : ChannelProgram) : ChannelProgram :=
  { p with
    command := none
    status := (p.status.union .channelEnd).union s
    staged := none
    phase := .newCommand }

/-- Where the list goes on is settled when the rest of the data chain has been passed over. -/
theorem goesOnAt?_ended (hlength : p.flags.contains .suppressLength = true) (hs : s.endsChain = false) :
    (ended mem s p).goesOnAt? = ((ending s p).skipChain mem dataChainLimit).goesOnAt? := by
  have hended : ended mem s p = { (ending s p).skipChain mem dataChainLimit with
      flags := if ((ending s p).skipChain mem dataChainLimit).status.hasError then .none
        else ((ending s p).skipChain mem dataChainLimit).flags
      phase := .newCommand } := by
    unfold ended
    dsimp only [addStatus]
    rw [hlength, Bool.not_true, Bool.and_false, if_neg Bool.false_ne_true, hs, if_neg Bool.false_ne_true]
    rfl
  rw [hended]
  generalize (ending s p).skipChain mem dataChainLimit = q
  cases herror : q.status.hasError with
  | true =>
    refine (goesOnAt?_of_error ?_).trans (goesOnAt?_of_error herror).symm
    exact herror
  | false =>
    rw [if_neg Bool.false_ne_true, goesOnAt?, goesOnAt?, next_modified, next_modified]

/-- The device has ended its command with device end, and asks for the next one to be passed over. -/
structure Modifies (s : ChannelStatus) : Prop where
  deviceEnd : s.contains .deviceEnd = true
  modifier : s.contains .modifier = true
  clean : s.hasError = false
  goesOn : s.endsChain = false

theorem ending_of_modifies (hs : Modifies s) (herror : p.status.hasError = false) :
    (ending s p).status.hasError = false ∧ (ending s p).status.contains .channelEnd = true ∧
      (ending s p).status.contains .deviceEnd = true ∧ (ending s p).modified.next = p.next + 8 := by
  have hmodifier : (ending s p).status.contains .modifier = true := ChannelStatus.contains_union_of_right hs.modifier
  refine ⟨?_, ChannelStatus.contains_union_of_left ChannelStatus.contains_union,
    ChannelStatus.contains_union_of_right hs.deviceEnd, by rw [next_modified, hmodifier]; rfl⟩
  rw [ending, ChannelStatus.hasError_union, ChannelStatus.hasError_union, herror, hs.clean]
  rfl

/-- A device that asks for a command to be passed over at the end of its data chain is obeyed. -/
theorem goesOnAt?_of_last (hs : Modifies s) (herror : p.status.hasError = false)
    (hlength : p.flags.contains .suppressLength = true) (hlast : p.flags.contains .dataChain = false) :
    (ended mem s p).goesOnAt? = if p.flags.contains .commandChain then some (p.next + 8) else none := by
  obtain ⟨hclean, hchannel, hdevice, hnext⟩ := ending_of_modifies hs herror
  rw [goesOnAt?_ended hlength hs.goesOn, skipChain_of_not_chained (p := ending s p) hlast,
    goesOnAt?_of_ended hclean hchannel hdevice, hnext]
  rfl

/-- Before the end of its data chain the list goes on where the chain ends that is read one doubleword further. -/
theorem goesOnAt?_of_chained (hs : Modifies s) (herror : p.status.hasError = false)
    (hlength : p.flags.contains .suppressLength = true) (hchain : p.flags.contains .dataChain = true) :
    (ended mem s p).goesOnAt? = match chainEnd? mem dataChainLimit p.flags (p.next + 8) with
      | some (last, flags) => if flags.contains .commandChain then some last else none
      | none => none := by
  obtain ⟨hclean, hchannel, hdevice, hnext⟩ := ending_of_modifies hs herror
  have hpasses := passedOver_skipChain mem dataChainLimit (hasError_modified.trans hclean) plain_modified
  have hflags : (ending s p).modified.flags = p.flags := flags_modified
  have hskip : (ending s p).modified.skipChain mem dataChainLimit = (ending s p).skipChain mem dataChainLimit :=
    skipChain_modified hclean hchain
  rw [PassedOver, hflags, hnext, hskip] at hpasses
  rw [goesOnAt?_ended hlength hs.goesOn]
  cases hend : chainEnd? mem dataChainLimit p.flags (p.next + 8) with
  | none =>
    rw [hend] at hpasses
    exact goesOnAt?_of_error hpasses
  | some found =>
    rw [hend] at hpasses
    rw [goesOnAt?_of_ended hpasses.clean (hpasses.channelEnd ((contains_modified (by decide)).trans hchannel))
      (hpasses.deviceEnd ((contains_modified (by decide)).trans hdevice)), modified_of_plain hpasses.plain, hpasses.flags,
      hpasses.next]

/-- The data chain of a command ends, and the doubleword at `last` has the next command. -/
def ChainEnds (mem : Memory) (p : ChannelProgram) (last : Address) : Prop :=
  ∃ limit flags, chainEnd? mem limit p.flags p.next = some (last, flags) ∧ flags.contains .commandChain = true

theorem goesOnAt?_iff (hs : Modifies s) (herror : p.status.hasError = false)
    (hlength : p.flags.contains .suppressLength = true) {last : Address} (hends : ChainEnds mem p last) :
    (ended mem s p).goesOnAt? = some (last + 8) ↔ p.flags.contains .dataChain = false ∨
      ∃ flags, chainEnd? mem dataChainLimit p.flags (p.next + 8) = some (last + 8, flags) ∧
        flags.contains .commandChain = true := by
  obtain ⟨limit, flags, hend, hchains⟩ := hends
  cases hchain : p.flags.contains .dataChain with
  | false =>
    rw [chainEnd?_of_not_chained hchain] at hend
    cases hend
    rw [goesOnAt?_of_last hs herror hlength hchain, if_pos hchains]
    exact ⟨fun _ => .inl rfl, fun _ => rfl⟩
  | true =>
    rw [goesOnAt?_of_chained hs herror hlength hchain]
    cases chainEnd? mem dataChainLimit p.flags (p.next + 8) with
    | none => simp
    | some found =>
      obtain ⟨place, flags⟩ := found
      simp [and_comm]

end Transfer

namespace Channels
open ChannelProgram
variable {δ ω : Type} [Peripheral δ ω] {c : Channels δ ω} {a : DeviceAddress} {now : Nat} {mem mem' : Memory}
  {subchannel : Subchannel δ} {p : ChannelProgram} {s : ChannelStatus} {x next last : Address} {e : Entry}

/-- A scan gives the device the next command of its list. -/
theorem scanDevice_of_goesOn (hsub : c.get? a = some subchannel) (hgoes : subchannel.program.goesOnAt? = some x)
    (hchain : subchannel.program.flags.contains .dataChain = false) (hentry : Progress.entryAt mem x true = .given next e) :
    ∃ place, place + 8 = next ∧ c.scanDevice now mem a =
      match (c.modifyProgram a fun _ => subchannel.program.modified.take place e).issue now a e.command with
      | (.error _, c) => (none, (c.modifyProgram a ChannelProgram.abandon).raise)
      | (.ok _, c) => (none, c.raise) := by
  have hprogram : c.program? a = some subchannel.program := by rw [program?, hsub]; rfl
  rw [goesOnAt?] at hgoes
  split at hgoes
  · next hends =>
    cases hgoes
    simp only [Bool.and_eq_true, Bool.not_eq_true'] at hends
    obtain ⟨⟨⟨hchannel, hdevice⟩, hcommand⟩, herror⟩ := hends
    obtain ⟨place, hplace, hcontinue⟩ := continueProgram_of_given now hsub herror hchain hentry
    have hscan : c.scanDevice now mem a = _ := scanDevice_of_chained hprogram hchannel hdevice hcommand
    rw [hcontinue] at hscan
    exact ⟨place, hplace, hscan⟩
  · cases hgoes

/-- A device ends a command whose data chain is followed by others, and asks for one to be passed over. That happens
exactly if the device has come to the end of the data chain, or if the chain that is read one doubleword further ends one
doubleword further by chance; a scan then gives it the command at the place where the list goes on. -/
theorem passesOver_iff (hs : Transfer.Modifies s) (herror : p.status.hasError = false)
    (hlength : p.flags.contains .suppressLength = true) (hends : Transfer.ChainEnds mem p last) :
    ((Transfer.ended mem s p).goesOnAt? = some (last + 8) ↔ p.flags.contains .dataChain = false ∨
      ∃ flags, chainEnd? mem dataChainLimit p.flags (p.next + 8) = some (last + 8, flags) ∧
        flags.contains .commandChain = true) ∧
      ∀ (c : Channels δ ω) (a : DeviceAddress) (subchannel : Subchannel δ) (now : Nat) (mem' : Memory)
        (x next : Address) (e : Entry), c.get? a = some subchannel → subchannel.program = Transfer.ended mem s p →
          subchannel.program.goesOnAt? = some x → Progress.entryAt mem' x true = .given next e →
            ∃ place, place + 8 = next ∧ c.scanDevice now mem' a =
              match (c.modifyProgram a fun _ => subchannel.program.modified.take place e).issue now a e.command with
              | (.error _, c) => (none, (c.modifyProgram a ChannelProgram.abandon).raise)
              | (.ok _, c) => (none, c.raise) := by
  refine ⟨Transfer.goesOnAt?_iff hs herror hlength hends, fun c a subchannel now mem' x next e hsub hprogram hgoes hentry => ?_⟩
  have hchain : subchannel.program.flags.contains .dataChain = false := by
    rw [hprogram]
    exact Transfer.sound_ended.data (Transfer.hasEnded_ended mem s p).command
  exact scanDevice_of_goesOn hsub hgoes hchain hentry

/-- A list in which command 1 has a data chain of three doublewords and is followed by the commands 2 and 3. -/
def threeParts : Memory :=
  ⟨#[0x01000030#32, 0xA0000004#32, 0x00000030#32, 0xA0000004#32, 0x00000030#32, 0x60000004#32, 0x02000030#32, 0x60000004#32,
    0x03000030#32, 0x20000004#32], by simp⟩

/-- The program of the list while its command is at one of the three doublewords. -/
def atPart (next : Address) (flags : CommandFlags) : ChannelProgram :=
  { ChannelProgram.idle with
    next := next
    dataAddress := 0x30#24
    count := 4#16
    flags := flags
    command := some 1#8
    phase := .active }

/-- Device end with a status modifier. -/
theorem modifies_deviceEnd : Transfer.Modifies (.union .deviceEnd .modifier) := ⟨rfl, rfl, rfl, rfl⟩

/-- A device that stops in the last doubleword is given command 3. -/
theorem passesOver_last : Transfer.ChainEnds threeParts (atPart 0x18#24 ⟨0x6000#16⟩) 0x18#24 ∧
    (Transfer.ended threeParts (.union .deviceEnd .modifier) (atPart 0x18#24 ⟨0x6000#16⟩)).goesOnAt? = some 0x20#24 ∧
      (Progress.entryAt threeParts 0x20#24 true).command? = some 3#8 := by
  have hends : Transfer.ChainEnds threeParts (atPart 0x18#24 ⟨0x6000#16⟩) 0x18#24 := ⟨0, ⟨0x6000#16⟩, rfl, rfl⟩
  have hpasses := passesOver_iff (δ := StandardDevice) (ω := Char) modifies_deviceEnd rfl rfl hends
  exact ⟨hends, hpasses.1.mpr (.inl rfl), rfl⟩

/-- A device that stops in the first doubleword is given command 2. -/
theorem not_passesOver : Transfer.ChainEnds threeParts (atPart 0x08#24 ⟨0xA000#16⟩) 0x18#24 ∧
    (Transfer.ended threeParts (.union .deviceEnd .modifier) (atPart 0x08#24 ⟨0xA000#16⟩)).goesOnAt? = some 0x18#24 ∧
      (Progress.entryAt threeParts 0x18#24 true).command? = some 2#8 :=
  ⟨⟨2, ⟨0x6000#16⟩, rfl, rfl⟩, rfl, rfl⟩

end Channels
end Concept32
