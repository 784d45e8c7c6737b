import Concept32.Proofs.Channels.Servicing
import Concept32.Proofs.Channels.Starting

/-!
# Programs that ask for an interrupt

What it changes that the first doubleword of a program asks for an interrupt. The start queues the status at once
and with that takes away what the program has of its command: the status that the device gave, the bytes that are
left, and the device.
-/

namespace Concept32
open ChannelStatus (none_union union_none union_union_self union_right_comm contains_union)

/-- The flags with a request for an interrupt. -/
def CommandFlags.asking (f : CommandFlags) : CommandFlags := ⟨f.bits ||| CommandFlags.programInterrupt.bits⟩

namespace ChannelProgram
open EStateM
variable {p q : ChannelProgram} {mem mem' : Memory} {a first : Address} {word1 word2 : Word}

/-- The program with a request for an interrupt in its flags and its status. -/
def asking (p : ChannelProgram) : ChannelProgram :=
  { p with
    flags := p.flags.asking
    status := p.status.union .programInterrupt }

/-- Two memories hold the same doubleword at an address, but only in the second it asks for an interrupt. -/
structure Asks (mem mem' : Memory) (first : Address) : Prop where
  command : wordAt? mem' first = wordAt? mem first
  flags : wordAt? mem' (first + 4) = (wordAt? mem (first + 4)).map (· ||| 0x08000000#32)
  unasked : ∀ w, wordAt? mem (first + 4) = some w → w &&& 0x08000000#32 = 0

theorem ofWords_asking (word1 word2 : Word) :
    Entry.ofWords word1 (word2 ||| 0x08000000#32) =
      { Entry.ofWords word1 word2 with flags := (Entry.ofWords word1 word2).flags.asking } := by
  unfold Entry.ofWords CommandFlags.asking
  rw [BitVec.extractLsb'_or, BitVec.setWidth_or]
  simp [CommandFlags.programInterrupt]

theorem contains_asking (f : CommandFlags) : f.asking.contains .programInterrupt = true := by
  unfold CommandFlags.contains CommandFlags.asking
  rw [beq_iff_eq]
  ext i hi
  simpa using fun h => Or.inr h

/-- Other flags are not changed by the request. -/
theorem contains_asking_of_disjoint {f g : CommandFlags} (h : CommandFlags.programInterrupt.bits &&& g.bits = 0) :
    f.asking.contains g = f.contains g := by
  have hbits : (f.bits ||| CommandFlags.programInterrupt.bits) &&& g.bits = f.bits &&& g.bits := by
    ext i hi
    have hbit : (CommandFlags.programInterrupt.bits[i] && g.bits[i]) = false := by
      rw [← BitVec.getElem_and, h]
      simp
    rw [BitVec.getElem_and, BitVec.getElem_or, Bool.and_or_distrib_right, hbit, Bool.or_false, BitVec.getElem_and]
  unfold CommandFlags.contains CommandFlags.asking
  rw [hbits]

theorem not_contains_ofWords (h : word2 &&& 0x08000000#32 = 0) :
    (Entry.ofWords word1 word2).flags.contains .programInterrupt = false := by
  unfold CommandFlags.contains Entry.ofWords
  have h2 : word2.extractLsb' 16 16 &&& CommandFlags.programInterrupt.bits =
      (word2 &&& 0x08000000#32).extractLsb' 16 16 := by
    rw [BitVec.extractLsb'_and]
    rfl
  rw [h2, h]
  rfl

theorem take_asking (h : word2 &&& 0x08000000#32 = 0) :
    p.take a (.ofWords word1 (word2 ||| 0x08000000#32)) = (p.take a (.ofWords word1 word2)).asking := by
  unfold take asking
  rw [ofWords_asking]
  dsimp only
  rw [contains_asking, not_contains_ofWords h]
  rfl

/-- How the first fetch of a program ends when its doubleword asks for an interrupt, and how without that. -/
theorem fetch_asks (h : Asks mem mem' p.next) (hstatus : p.status = .none)
    (hchain : p.flags.contains .dataChain = false) :
    (∃ q : ChannelProgram, p.fetch mem false = q.failed ∧ p.fetch mem' false = q.failed) ∨
      (∃ q : ChannelProgram, p.fetch mem false = q.failed ∧ p.fetch mem' false = q.asking.failed) ∨
      ∃ a e, p.fetch mem false = .ok (some e.command) (p.take a e) ∧
        p.fetch mem' false = .ok (some e.command) (p.take a e).asking ∧
          e.flags.contains .programInterrupt = false := by
  have herror : p.status.hasError = false := by rw [hstatus]; rfl
  have hmodified : p.modified = p := by
    unfold modified
    rw [hstatus]
    rfl
  rw [fetch_eq herror hchain, fetch_eq herror hchain, hmodified, place_first, place_first, h.command]
  cases hword1 : wordAt? mem p.next with
  | none => exact .inl ⟨_, rfl, rfl⟩
  | some word1 =>
    dsimp only
    cases ChannelCommand.isTransfer (commandOf word1) with
    | true => exact .inl ⟨_, rfl, rfl⟩
    | false =>
    rw [if_neg Bool.false_ne_true]
    dsimp only
    rw [h.flags]
    cases hword2 : wordAt? mem (p.next + 4) with
    | none => exact .inl ⟨_, rfl, rfl⟩
    | some word2 =>
      have hclear := h.unasked word2 hword2
      have hright : (Entry.ofWords word1 (word2 ||| 0x08000000#32)).IsRight ↔ (Entry.ofWords word1 word2).IsRight := by
        rw [ofWords_asking]
        rfl
      dsimp only [Option.map_some]
      by_cases hr : (Entry.ofWords word1 word2).IsRight
      · rw [if_pos hr, if_pos (hright.mpr hr), take_asking hclear]
        exact .inr (.inr ⟨_, _, rfl, rfl, not_contains_ofWords hclear⟩)
      · rw [if_neg hr, if_neg fun hr' => hr (hright.mp hr'), take_asking hclear]
        exact .inr (.inl ⟨_, rfl, rfl⟩)

end ChannelProgram

namespace Channels
open ChannelProgram
variable {δ ω : Type} {c : Channels δ ω} {a : DeviceAddress} {now : Nat} {mem mem' : Memory} {first : Address}
  {s : Subchannel δ} {command : Byte}

/-- The outcome of a command given for a program that asks for an interrupt, from that for one that does not. -/
def asked (a : DeviceAddress) :
    Except ChannelStatus Unit × Channels δ ω → Except ChannelStatus Unit × Channels δ ω
  | (.ok _, c) => (.ok (), c.modifyProgram a asking)
  | (.error s, c) =>
    (.error (s.union .programInterrupt), c.modifyProgram a fun p => p.addStatus .programInterrupt)

theorem answered_asking {response : CommandResponse} :
    (c.modifyProgram a asking).answered now a .programInterrupt response = asked a (c.answered now a .none response) := by
  cases response with
  | accepted delay =>
    exact congrArg (Prod.mk _)
      (modifyProgram_comm (c := { c with schedule := c.schedule.put a (now + delay) }) fun p => by
        unfold asking
        rw [none_union])
  | done status =>
    dsimp only [answered]
    rw [union_none, union_right_comm]
    split
    · exact congrArg (Prod.mk _) (modifyProgram_comm (c := c.raise) fun _ => rfl)
    split <;>
    · exact congrArg (Prod.mk _) (modifyProgram_comm (c := c.raise) fun _ => rfl)

/-- The outcomes of a first fetch without and with a request for an interrupt: the list is wrong before the request is
seen, or the start fails with it, or the command is with the device. -/
inductive Asked (a : DeviceAddress) :
    Except ChannelStatus Unit × Channels δ ω → Except ChannelStatus Unit × Channels δ ω → Prop
  | unseen (e : ChannelStatus) (c : Channels δ ω) : Asked a (.error e, c) (.error e, c)
  | failed {e e' : ChannelStatus} {c c' : Channels δ ω}
    (h : c'.modifyProgram a abandon =
      (c.modifyProgram a abandon).modifyProgram a fun p => p.addStatus .programInterrupt) :
    Asked a (.error e, c) (.error e', c')
  | begun (c : Channels δ ω) : Asked a (.ok (), c) (.ok (), c.modifyProgram a asking)

theorem asked_of_asking {r : Except ChannelStatus Unit × Channels δ ω} : Asked a r (asked a r) := by
  obtain ⟨r, c⟩ := r
  cases r with
  | ok u => exact .begun c
  | error e => exact .failed (modifyProgram_comm fun _ => rfl)

variable [Peripheral δ ω]

theorem issue_asking (now : Nat) (command : Byte) (hs : c.get? a = some s)
    (hstatus : s.program.status.contains .programInterrupt = false) :
    (c.modifyProgram a asking).issue now a command = asked a (c.issue now a command) := by
  rw [issue_eq hs, issue_eq (get?_modifyProgram_self hs), hstatus,
    show (asking s.program).status.contains .programInterrupt = true from contains_union]
  have haddressed : (c.modifyProgram a asking).addressed a command (asking s.program).dataAddress =
      (c.addressed a command s.program.dataAddress).modifyProgram a asking := by
    unfold addressed
    split <;> rfl
  rw [haddressed, absorb_modifyProgram]
  exact answered_asking

theorem continueProgram_asks (now : Nat) (hs : c.get? a = some s) (hasks : Asks mem mem' s.program.next)
    (hstatus : s.program.status = .none) (hchain : s.program.flags.contains .dataChain = false) :
    Asked a (c.continueProgram now mem a false) (c.continueProgram now mem' a false) := by
  have hprogram : c.program? a = some s.program := by rw [program?, hs]; rfl
  unfold continueProgram
  rw [hprogram]
  dsimp only
  rcases fetch_asks hasks hstatus hchain with
    ⟨q, hfetch, hfetch'⟩ | ⟨q, hfetch, hfetch'⟩ | ⟨b, e, hfetch, hfetch', hclear⟩
  · rw [hfetch, hfetch']
    exact .unseen _ _
  · rw [hfetch, hfetch']
    refine .failed ?_
    have habandon : (q.asking.addStatus .programCheck).abandon =
        (q.addStatus .programCheck).abandon.addStatus .programInterrupt := by
      unfold asking addStatus abandon
      rw [union_right_comm]
    show ((c.raise.modifyProgram a fun _ => q.asking.addStatus .programCheck).modifyProgram a abandon) =
      ((c.raise.modifyProgram a fun _ => q.addStatus .programCheck).modifyProgram a abandon).modifyProgram a _
    rw [modifyProgram_modifyProgram, modifyProgram_modifyProgram, modifyProgram_modifyProgram, habandon]
  · rw [hfetch, hfetch']
    dsimp only
    have htake : (s.program.take b e).status.contains .programInterrupt = false := by
      unfold take
      dsimp only
      rw [hclear, hstatus]
      rfl
    have hissue := issue_asking now e.command
      (get?_modifyProgram_self (f := fun _ => s.program.take b e) hs) htake
    rw [modifyProgram_modifyProgram] at hissue
    rw [hissue]
    exact asked_of_asking

end Channels

namespace ChannelProgram

/-- The program after its request for an interrupt was met: its status was queued while its command may go on. -/
def interrupted (p : ChannelProgram) : ChannelProgram :=
  Channels.stored { p with flags := p.flags.asking, pending := .none }

end ChannelProgram

namespace Channels
open ChannelProgram
variable {δ ω : Type} {c : Channels δ ω} {a : DeviceAddress} {now : Nat} {mem mem' : Memory} {first : Address}
  {s : Subchannel δ} {p : ChannelProgram}

/-- The outcomes of a start without and with a request for an interrupt: the program is in progress, and the request
takes its status, its count and its device; or it has ended, and its status is told. -/
def Interrupts (a : DeviceAddress) (p : ChannelProgram) (c c' : Channels δ ω) : Prop :=
  (p.device = some a ∧ c' =
    ((c.queueStatus a (.of a p.next (p.status.union .programInterrupt) p.count)).modifyProgram a interrupted).raise) ∨
  (p.device = none ∧ ∃ (d : Channels δ ω) (next : Address) (status status' : ChannelStatus) (count : Half) (f : CommandFlags),
    status'.union .programInterrupt = status.union .programInterrupt ∧ (f = p.flags ∨ f = p.flags.asking) ∧
    c = ((d.queueStatus a (.of a next status count)).modifyProgram a fun _ => p).raise ∧
    c' = ((d.queueStatus a (.of a next status' count)).modifyProgram a fun _ => { p with flags := f }).raise)

/-- Both programs have ended, and both statuses are told. -/
theorem interrupts_of_stored {d : Channels δ ω} {q : ChannelProgram} {f g : ChannelProgram → ChannelProgram}
    {flags : CommandFlags} (hq : d.program? a = some q)
    (hstatus : (g q).status.union .programInterrupt = (f q).status.union .programInterrupt)
    (hsame : g q = { f q with flags := flags, status := (g q).status })
    (hflags : flags = (f q).flags ∨ flags = (f q).flags.asking) :
    ((d.modifyProgram a f).storeStatus a).program? a = some (stored (f q)) ∧
      Interrupts a (stored (f q)) ((d.modifyProgram a f).storeStatus a) ((d.modifyProgram a g).storeStatus a) := by
  refine ⟨program?_storeStatus ?_, .inr ⟨rfl, d, (f q).next, (f q).status, (g q).status, (f q).count, flags, hstatus,
    hflags, storeStatus_modifyProgram hq, ?_⟩⟩
  · rw [program?_modifyProgram_self, hq]
    rfl
  · rw [storeStatus_modifyProgram hq, hsame]
    rfl

variable [Peripheral δ ω]

theorem launch_asks (now : Nat) (hs : c.get? a = some s) (hp : s.program = started a first)
    (hasks : Asks mem mem' first) :
    (c.launch now mem' a).1 = .acceptedNoEcho ∧ ∃ p, (c.launch now mem a).2.program? a = some p ∧
      p.pending = .none ∧ p.staged = none ∧ Interrupts a p (c.launch now mem a).2 (c.launch now mem' a).2 := by
  have hstatus : s.program.status = .none := by rw [hp]; rfl
  have herror : s.program.status.hasError = false := by rw [hstatus]; decide
  have hchain : s.program.flags.contains .dataChain = false := by
    rw [hp]
    exact (by decide : CommandFlags.none.contains .dataChain = false)
  obtain ⟨q, hq, hfetched⟩ := program?_continueProgram now mem false hs herror hchain
  have hasked := continueProgram_asks now hs (by rw [hp]; exact hasks) hstatus hchain
  have hstaged : q.staged = none := hfetched.staged (by rw [hp]; rfl)
  have hpending : q.pending = .none := hfetched.pending.trans (by rw [hp]; rfl)
  have hdevice : q.device = some a := hfetched.device.trans (by rw [hp]; rfl)
  unfold launch
  generalize c.continueProgram now mem a false = r at hq hasked
  generalize c.continueProgram now mem' a false = r' at hasked
  cases hasked with
  | unseen e d =>
    obtain ⟨hprogram, hinterrupts⟩ := interrupts_of_stored (f := fun p => { p.abandon with pending := .none })
      (g := fun p => { p.abandon with pending := .none }) hq rfl rfl (.inl rfl)
    exact ⟨rfl, _, hprogram, rfl, hstaged, hinterrupts⟩
  | @failed e e' d d' h =>
    obtain ⟨hprogram, hinterrupts⟩ := interrupts_of_stored (f := fun p => { p.abandon with pending := .none })
      (g := fun p => { p.abandon.addStatus .programInterrupt with pending := .none }) hq union_union_self rfl (.inl rfl)
    refine ⟨rfl, _, hprogram, rfl, hstaged, ?_⟩
    have hd : d'.modifyProgram a (fun p => { p.abandon with pending := .none }) =
        d.modifyProgram a fun p => { p.abandon.addStatus .programInterrupt with pending := .none } := by
      have hpair := congrArg (fun e : Channels δ ω => e.modifyProgram a fun p => { p with pending := .none }) h
      simpa only [modifyProgram_modifyProgram] using hpair
    dsimp only
    rw [hd]
    exact hinterrupts
  | begun d =>
    dsimp only at hq ⊢
    have hasking : ((d.modifyProgram a asking).program? a).any (fun p => p.status.contains .programInterrupt) = true := by
      rw [program?_modifyProgram_self, hq]
      exact contains_union
    rw [if_pos hasking, modifyProgram_modifyProgram]
    refine ⟨rfl, ?_⟩
    by_cases hinterrupt : (d.program? a).any (fun p => p.status.contains .programInterrupt) = true
    · obtain ⟨hprogram, hinterrupts⟩ := interrupts_of_stored (f := fun p => { p with pending := .none })
        (g := fun p => { p.asking with pending := .none }) hq union_union_self rfl (.inr rfl)
      rw [if_pos hinterrupt]
      exact ⟨_, hprogram, rfl, hstaged, hinterrupts⟩
    · have hplain : ∀ condition : IoCondition × Channels δ ω, condition.2 = d → ∃ p, condition.2.program? a = some p ∧
          p.pending = .none ∧ p.staged = none ∧ Interrupts a p condition.2
            ((d.modifyProgram a fun p => { p.asking with pending := .none }).storeStatus a) := by
        rintro ⟨condition, _⟩ rfl
        refine ⟨q, hq, hpending, hstaged, .inl ⟨hdevice, (storeStatus_modifyProgram hq).trans ?_⟩⟩
        exact congrArg raise (modifyProgram_congr hq rfl)
      rw [if_neg hinterrupt]
      refine hplain _ ?_
      cases (d.program? a).bind ChannelProgram.command <;> rfl

/-! ### Starting with a request -/

theorem get?_prepared (hs : c.get? a = some s) :
    (c.prepared now a first s.device).get? a =
      some ⟨(Peripheral.startIo s.device now : Reaction δ ω ChannelStatus).device, started a first⟩ := by
  rw [get?] at hs
  have habsorb : (c.absorb a (Peripheral.startIo s.device now)).get? a =
      some { s with device := (Peripheral.startIo s.device now : Reaction δ ω ChannelStatus).device } := by
    rw [get?, absorb, Table.get?_modify, if_pos rfl, hs]
    rfl
  exact get?_modifyProgram_self habsorb

/-- The program of which the status was queued early goes on as if nothing had happened only when its command has
neither a status nor bytes left. -/
theorem interrupted_eq_iff (hpending : p.pending = .none) :
    p.interrupted = { p with flags := p.flags.asking, device := none } ↔ p.status = .none ∧ p.count = 0 := by
  constructor
  · intro h
    exact ⟨(congrArg ChannelProgram.status h).symm, (congrArg ChannelProgram.count h).symm⟩
  · rintro ⟨hstatus, hcount⟩
    unfold interrupted stored
    rw [hstatus, hcount, hpending]

/-- Whether the program is busy is not changed. -/
theorem isBusy_interrupted : p.interrupted.isBusy = p.isBusy := by
  have hflags : p.flags.asking.chaining = p.flags.chaining := by
    unfold CommandFlags.chaining
    rw [contains_asking_of_disjoint (by decide), contains_asking_of_disjoint (by decide)]
  unfold ChannelProgram.isBusy
  rw [show p.interrupted.flags = p.flags.asking from rfl, hflags]
  rfl

/-- A device that is serviced for such a program moves nothing, unless its data are chained. -/
theorem memory_run_interrupted {α : Type} {service : Service ω α} {k : Connection} {output : Array ω}
    (hk : k.transfer.program = p.interrupted) (hstaged : p.staged = none)
    (hchain : p.flags.contains .dataChain = false) :
    (k.run service output).2.1.transfer.memory = k.transfer.memory := by
  have hspent : Transfer.Spent k.transfer.memory k.transfer := by
    refine ⟨rfl, by rw [hk]; rfl, ?_, by rw [hk]; exact hstaged⟩
    rw [hk]
    exact (contains_asking_of_disjoint (by decide)).trans hchain
  exact (Transfer.spent.run service hspent).memory

/-- A scan does nothing with such a program, even if its command has ended and another is chained to it. -/
theorem scanDevice_interrupted (hp : c.program? a = some p.interrupted) : c.scanDevice now mem a = (none, c) := by
  have hend : p.interrupted.status.contains .channelEnd = false :=
    (by decide : ChannelStatus.none.contains .channelEnd = false)
  have hpending : p.interrupted.pending.isEmpty = true := (by decide : ChannelStatus.none.isEmpty = true)
  unfold scanDevice
  rw [hp]
  dsimp only
  rw [hend, hpending]
  rfl

/-- What a request for an interrupt in the first doubleword changes: nothing if the start is refused. Otherwise the
program is the same only when its command has neither a status nor bytes left after the start; else the data of its
command stay where they are, or no scan goes on with the command chained to it. -/
theorem startIo_asks (hs : c.get? a = some s) (hasks : Asks (c.echoed a first mem) (c.echoed a first mem') first) :
    (¬(Free s ∧ Willing s now) →
      (c.startIo now mem' a first).1 = (c.startIo now mem a first).1 ∧
        (c.startIo now mem' a first).2.1 = (c.startIo now mem a first).2.1) ∧
    (Free s ∧ Willing s now →
      (c.startIo now mem' a first).1 = .acceptedNoEcho ∧
      ∃ p, (c.startIo now mem a first).2.1.program? a = some p ∧
        Interrupts a p (c.startIo now mem a first).2.1 (c.startIo now mem' a first).2.1 ∧
        (p.interrupted = { p with flags := p.flags.asking, device := none } ↔ p.status = .none ∧ p.count = 0) ∧
        p.interrupted.isBusy = p.isBusy ∧
        (p.flags.contains .dataChain = false → ∀ (service : Service ω (δ × Option Nat)) (k : Connection)
          (output : Array ω), k.transfer.program = p.interrupted →
            (k.run service output).2.1.transfer.memory = k.transfer.memory) ∧
        ∀ (d : Channels δ ω) (now : Nat) (mem : Memory), d.program? a = some p.interrupted →
          d.scanDevice now mem a = (none, d)) := by
  constructor
  · intro hrefused
    by_cases hfree : Free s
    · have hwilling : ¬Willing s now := fun h => hrefused ⟨hfree, h⟩
      rw [startIo_of_not_willing hs hfree hwilling, startIo_of_not_willing hs hfree hwilling]
      exact ⟨rfl, rfl⟩
    · obtain ⟨condition, -, heq⟩ := startIo_of_not_free now hs hfree
      rw [heq, heq]
      exact ⟨rfl, rfl⟩
  · rintro ⟨hfree, hwilling⟩
    obtain ⟨hcondition, p, hp, hpending, hstaged, hinterrupts⟩ := launch_asks now (get?_prepared hs) rfl hasks
    rw [startIo_of_willing hs hfree hwilling, startIo_of_willing hs hfree hwilling]
    exact ⟨hcondition, p, hp, hinterrupts, interrupted_eq_iff hpending, isBusy_interrupted,
      fun hchain _ _ _ hk => memory_run_interrupted hk hstaged hchain, fun _ _ _ => scanDevice_interrupted⟩

end Channels

/-! ### A read and a chain that ask for an interrupt -/

namespace ImageReader
open Channels ChannelProgram

/-- A list that reads four bytes to the word at 8. -/
def reading (flags : Word) : Memory := ⟨#[0x02000008, 0x00000004 ||| flags, 0x00000000], by simp⟩

/-- A list of two commands that end at once. -/
def pairing (flags : Word) : Memory := ⟨#[0x03000000, 0x40000000 ||| flags, 0x03000000, 0x00000000], by simp⟩

theorem asks_reading : Asks (reading 0) (reading 0x08000000) 0 where
  command := by decide +kernel
  flags := by decide +kernel
  unasked w hw := by
    obtain rfl : 0x00000004#32 = w := Option.some.inj hw
    decide

/-- Memory after the list was started and the reader serviced. -/
def transferred (mem : Memory) : Memory :=
  let (_, c, mem) := unused.startIo 0 mem address 0
  (c.poll recordTime mem).2

/-- The request keeps the bytes of a read from memory, and a chain from its second command. -/
theorem not_undisturbed :
    (transferred (reading 0)).words[2]? = some 0x11223344#32 ∧
    (transferred (reading 0x08000000)).words[2]? = some 0x00000000#32 ∧
    ((unused.startIo 0 (pairing 0) address 0).2.1.scan 0 (pairing 0)).2.isBusy address = false ∧
    ((unused.startIo 0 (pairing 0x08000000) address 0).2.1.scan 0 (pairing 0x08000000)).2.isBusy address = true := by
  decide +kernel

theorem get?_unused : unused.get? address = some ⟨.ofFile "" #[0x11, 0x22, 0x33, 0x44], .idle⟩ := rfl

/-- The read is with the reader and has four bytes to move, and the request takes them away. -/
theorem interrupts_reading : Asks (reading 0) (reading 0x08000000) 0 ∧
    (unused.startIo 0 (reading 0x08000000) address 0).1 = .acceptedNoEcho ∧
    ∃ p, (unused.startIo 0 (reading 0) address 0).2.1.program? address = some p ∧ p.count = 4 ∧
      Interrupts address p (unused.startIo 0 (reading 0) address 0).2.1
        (unused.startIo 0 (reading 0x08000000) address 0).2.1 ∧
      p.interrupted ≠ { p with flags := p.flags.asking, device := none } := by
  obtain ⟨hcondition, p, hp, hinterrupts, hiff, -⟩ :
      (unused.startIo 0 (reading 0x08000000) address 0).1 = .acceptedNoEcho ∧ _ :=
    (startIo_asks get?_unused asks_reading).2 ⟨⟨rfl, rfl⟩, rfl⟩
  have hcount : ((unused.startIo 0 (reading 0) address 0).2.1.program? address).map ChannelProgram.count = some 4 := by
    decide +kernel
  rw [show (unused.startIo 0 (reading 0) address 0).2.1.program? address = some p from hp] at hcount
  have hcount' : p.count = 4 := Option.some.inj hcount
  refine ⟨asks_reading, hcondition, p, hp, hcount', hinterrupts, fun h => ?_⟩
  have hzero := (hiff.mp h).2
  rw [hcount'] at hzero
  exact absurd hzero (by decide)

end ImageReader
end Concept32
