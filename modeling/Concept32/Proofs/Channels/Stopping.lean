import Concept32.Proofs.Channels.Appointments
import Concept32.Proofs.Channels.Recording
import Concept32.Proofs.Channels.Remainder
import Concept32.Proofs.Channels.Sharing
import Concept32.Proofs.Channels.SoundPrograms

/-!
# Programs that have been stopped

A program that has been found busy and stopped chains no further. Whatever happens to the channels after that, until
another program is started on the device, the device is given no command, and no byte moves that was not left of the
doubleword at which the program was stopped.
-/

namespace Concept32

namespace Channels
open ChannelProgram

/-! ### Other devices -/

section
variable {δ ω : Type} [Peripheral δ ω] {c : Channels δ ω} {a b : DeviceAddress} {now : Nat} {mem : Memory}
  {first : Address}

theorem get?_launch (hne : b ≠ a) : (c.launch now mem b).2.get? a = c.get? a := by
  have hbegun : (c.continueProgram now mem b false).2.get? a = c.get? a := (spares_continueProgram hne).subchannel
  rw [launch]
  generalize c.continueProgram now mem b false = begun at hbegun ⊢
  obtain ⟨_ | _, c'⟩ := begun
  · exact ((Touches.modifyProgram.trans .storeStatus : Touches 0 b c' _).others a hne.symm).trans hbegun
  · dsimp only
    split
    · exact ((Touches.modifyProgram.trans .storeStatus : Touches 0 b c' _).others a hne.symm).trans hbegun
    · split
      · exact hbegun
      · exact hbegun

theorem get?_startIo (hne : b ≠ a) : (c.startIo now mem b first).2.1.get? a = c.get? a := by
  cases hs : c.get? b with
  | none => rw [startIo, hs]
  | some s =>
    by_cases hfree : Free s
    · by_cases hwilling : Willing s now
      · rw [startIo_of_willing hs hfree hwilling]
        have hprepared : Touches 0 b c (c.prepared now b first s.device) := Touches.absorb.trans .modifyProgram
        exact (get?_launch hne).trans (hprepared.others a hne.symm)
      · rw [startIo_of_not_willing hs hfree hwilling]
        exact (Touches.absorb.trans .modifyProgram : Touches 0 b c _).others a hne.symm
    · rw [startIo_refused now mem first hs hfree]

theorem get?_boot (hne : b ≠ a) : (c.boot now mem b).2.get? a = c.get? a := by
  have hloadable : (c.loadable b).get? a = c.get? a :=
    (Touches.setChannel.trans .modifyProgram : Touches 0 b c _).others a hne.symm
  have hbegun : ((c.loadable b).continueProgram now mem b false).2.get? a = c.get? a :=
    (spares_continueProgram hne).subchannel.trans hloadable
  rw [boot, ← loadable]
  split
  · rfl
  split
  · rfl
  dsimp only
  generalize (c.loadable b).continueProgram now mem b false = begun at hbegun ⊢
  obtain ⟨_ | _, c'⟩ := begun
  · exact ((Touches.modifyProgram : Touches 0 b c' _).others a hne.symm).trans hbegun
  · exact hbegun

theorem get?_attach {device : δ} (hne : b ≠ a) : (c.attach now b device).get? a = c.get? a := by
  rw [attach, get?, Table.get?_set, if_neg (bits_ne hne.symm)]
  rfl

end

/-! ### What the operations keep -/

variable {δ ω : Type} {c c' : Channels (Recorded δ) ω} {a b : DeviceAddress} {now : Nat} {mem : Memory}
  {first : ChannelProgram} {log : List Byte} {n : Nat}

/-- The program on a device chains no further, after `n` bytes of what was left when it was at `first`, and the device
has been given the commands of `log`. -/
def Stopped (first : ChannelProgram) (log : List Byte) (n : Nat) (c : Channels (Recorded δ) ω) (a : DeviceAddress) :
    Prop :=
  ∃ s, c.get? a = some s ∧ s.device.commands = log ∧ GoesOn first n s.program

theorem subsides_stored {p : ChannelProgram} : p.Subsides (stored p) :=
  ⟨fun h => h.congr rfl, .inl rfl, fun hleft => absurd rfl hleft⟩

theorem subsides_idle {p : ChannelProgram} : p.Subsides .idle :=
  ⟨fun _ => .of_flags rfl, .inr rfl, fun hleft => absurd rfl hleft⟩

theorem subsides_halt {p : ChannelProgram} : p.Subsides p.halt :=
  ⟨fun _ => ⟨(chaining_unchained p.flags).1, (chaining_unchained p.flags).2⟩, .inl rfl, fun _ => ⟨rfl, rfl, rfl⟩⟩

namespace Stopped

theorem congr (h : Stopped first log n c a) (hget : c'.get? a = c.get? a) : Stopped first log n c' a := by
  obtain ⟨s, hs, hrest⟩ := h
  exact ⟨s, hget.trans hs, hrest⟩

theorem modifyProgram {f : ChannelProgram → ChannelProgram} (h : Stopped first log n c a)
    (hf : ∀ p : ChannelProgram, p.Subsides (f p)) : Stopped first log n (c.modifyProgram b f) a := by
  by_cases hb : a = b
  · obtain ⟨s, hs, hlog, hgoes⟩ := h
    refine ⟨{ s with program := f s.program }, ?_, hlog, hgoes.subsides (hf s.program)⟩
    rw [get?_modifyProgram, if_pos hb, ← hb, hs]
    rfl
  · exact h.congr (by rw [get?_modifyProgram, if_neg hb])

/-- A device that is asked something keeps its record. -/
theorem absorb {α : Type} {r : Reaction (Recorded δ) ω α} {s : Subchannel (Recorded δ)} (h : Stopped first log n c a)
    (hs : c.get? b = some s) (hr : r.device.commands = s.device.commands) : Stopped first log n (c.absorb b r) a := by
  by_cases hb : a = b
  · obtain ⟨s', hs', hlog, hgoes⟩ := h
    subst hb
    obtain rfl := Option.some.inj (hs.symm.trans hs')
    exact ⟨_, get?_absorb_self hs, hr.trans hlog, hgoes⟩
  · exact h.congr ((Touches.absorb : Touches 0 b c (c.absorb b r)).others a hb)

theorem storeStatus (h : Stopped first log n c a) : Stopped first log n (c.storeStatus b) a := by
  rw [Channels.storeStatus]
  split
  · exact h
  · next p _ =>
    have hqueued : Stopped first log n (c.queueStatus b (.of b p.next p.status p.count)) a := h.congr rfl
    exact (hqueued.modifyProgram fun _ => subsides_stored).congr rfl

theorem receive {status : ChannelStatus} (h : Stopped first log n c a) :
    Stopped first log n (c.receive b status) a := by
  rw [Channels.receive]
  split
  · exact (h.modifyProgram fun _ => subsides_receive).congr rfl
  · exact h

theorem postStatus {k : Byte} (h : Stopped first log n c a) : Stopped first log n (c.postStatus mem k).2.1 a := by
  rw [Channels.postStatus]
  split
  · exact h
  · exact h.congr rfl

theorem resetChannel {k : Byte} (h : Stopped first log n c a) : Stopped first log n (c.resetChannel k).2 a := by
  have hfold : ∀ (l : List DeviceAddress) {t : Table 15 (Subchannel (Recorded δ))},
      (∃ s, t.get? a.bits = some s ∧ s.device.commands = log ∧ GoesOn first n s.program) →
      ∃ s, (l.foldl (fun t a => t.modify a.bits fun s => { s with program := .idle }) t).get? a.bits = some s ∧
        s.device.commands = log ∧ GoesOn first n s.program := by
    intro l
    induction l with
    | nil => exact id
    | cons d rest ih =>
      refine fun ⟨s, hs, hlog, hgoes⟩ => ih ?_
      rw [Table.get?_modify]
      split
      · next hbits => exact ⟨{ s with program := .idle }, by rw [hs]; rfl, hlog, hgoes.subsides subsides_idle⟩
      · exact ⟨s, hs, hlog, hgoes⟩
  rw [Channels.resetChannel]
  split
  · exact h
  · exact hfold _ h

variable [Peripheral δ ω]

theorem resetDevice (h : Stopped first log n c a) : Stopped first log n (c.resetDevice now b) a := by
  rw [Channels.resetDevice]
  split
  · exact h
  · next s hs => exact h.absorb hs rfl

theorem reset (h : Stopped first log n c a) : Stopped first log n (c.reset now) a := by
  obtain ⟨s, hs, hlog, hgoes⟩ := h
  exact ⟨renewed now { s with program := .idle }, by rw [get?_reset, hs]; rfl, hlog, hgoes.subsides subsides_idle⟩

theorem testIo {icb : Word} (h : Stopped first log n c a) : Stopped first log n (c.testIo now mem b icb).2.1 a := by
  rw [Channels.testIo]
  split
  · exact h
  · next s hs =>
    dsimp only
    split
    · exact h
    split
    · exact h
    have habsorbed : Stopped first log n (c.absorb b (Peripheral.testIo s.device now)) a := h.absorb hs rfl
    split
    · exact habsorbed
    · have hpost : Stopped first log n ((c.absorb b (Peripheral.testIo s.device now)).postStatus mem b.channel).2.1 a :=
        habsorbed.postStatus
      generalize (c.absorb b (Peripheral.testIo s.device now)).postStatus mem b.channel = posted at hpost ⊢
      obtain ⟨_ | _, c', mem'⟩ := posted
      · exact hpost
      · exact hpost

theorem stopIo (h : Stopped first log n c a) : Stopped first log n (c.stopIo b).2 a := by
  rw [Channels.stopIo]
  split
  · exact h
  split
  · exact h.modifyProgram fun _ => subsides_halt
  · exact h

theorem haltIo (h : Stopped first log n c a) : Stopped first log n (c.haltIo now b).2 a := by
  rw [Channels.haltIo]
  split
  · exact h
  · next s hs =>
    dsimp only
    have habsorbed : Stopped first log n (c.absorb b (Peripheral.haltIo s.device now)) a := h.absorb hs rfl
    split
    · exact h
    split
    · exact habsorbed.modifyProgram fun _ => subsides_halt
    · exact habsorbed

theorem commandDevice {command : Half} (h : Stopped first log n c a) :
    Stopped first log n (c.commandDevice now b command).2 a := by
  rw [Channels.commandDevice]
  split
  · exact h
  · next s hs => exact h.absorb hs rfl

theorem testDevice {command : Half} (h : Stopped first log n c a) :
    Stopped first log n (c.testDevice now b command).2 a := by
  rw [Channels.testDevice]
  split
  · exact h
  · next s hs => exact h.absorb hs rfl

/-- A scan does not go on with a program that chains no further. -/
theorem scanDevice (h : Stopped first log n c a) : Stopped first log n (c.scanDevice now mem b).2 a := by
  by_cases hb : b = a
  · subst hb
    have ⟨s, hs, _, hgoes⟩ := h
    rw [Channels.scanDevice, show c.program? b = some s.program by rw [program?, hs]; rfl]
    dsimp only
    rw [hgoes.last.command]
    by_cases hend : s.program.status.contains .channelEnd = true
    · rw [if_pos hend, if_neg Bool.false_ne_true]
      split
      · split
        · exact h.congr rfl
        · have hended : Stopped first log n ({ c with loading := none } : Channels (Recorded δ) ω) b := h.congr rfl
          exact hended.modifyProgram fun _ => ⟨fun h => h.congr rfl, .inl rfl, fun _ => ⟨rfl, rfl, rfl⟩⟩
      · exact h.storeStatus
    · rw [if_neg hend]
      split
      · have hqueued : Stopped first log n (c.queueStatus b (.of b s.program.next s.program.pending 0)) b := h.congr rfl
        exact hqueued.modifyProgram fun _ => ⟨fun h => h.congr rfl, .inl rfl, fun _ => ⟨rfl, rfl, rfl⟩⟩
      · exact h
  · exact h.congr (get?_scanDevice hb)

theorem scan (h : Stopped first log n c a) : Stopped first log n (c.scan now mem).2 a := by
  have hscan : ∀ (l : List DeviceAddress) {c : Channels (Recorded δ) ω}, Stopped first log n c a →
      Stopped first log n (scanDevices now mem l c).2 a := by
    intro l
    induction l with
    | nil => exact id
    | cons d rest ih =>
      intro c h
      have hlook : Stopped first log n (c.scanDevice now mem d).2 a := h.scanDevice
      rw [scanDevices]
      generalize c.scanDevice now mem d = looked at hlook ⊢
      obtain ⟨_ | _, c'⟩ := looked
      · exact ih hlook
      · exact hlook
  rw [Channels.scan]
  split
  · exact hscan _ (h.congr rfl)
  · exact h

end Stopped

/-! ### Bytes that move -/

variable [Peripheral δ ω]

/-- The bytes that a service of the device moves, each with the program before. -/
def serviceMoves (c : Channels (Recorded δ) ω) (now : Nat) (mem : Memory) (a : DeviceAddress) : List ChannelProgram :=
  match c.get? a with
  | none => []
  | some s => Connection.moves (Peripheral.service s.device now) ⟨a, ⟨s.program, mem⟩, c.channel a.channel, c.raised⟩

theorem Stopped.serviceDevice (now : Nat) (mem : Memory) (h : Stopped first log n c a) :
    Follows first n (c.serviceMoves now mem a) ∧
      Stopped first log (n + (c.serviceMoves now mem a).length) (c.serviceDevice now mem a).1 a := by
  obtain ⟨s, hs, hlog, hgoes⟩ := h
  rw [serviceMoves, hs]
  dsimp only
  obtain ⟨hfollows, hend⟩ := Connection.goesOn_run (Peripheral.service s.device now)
    (c := ⟨a, ⟨s.program, mem⟩, c.channel a.channel, c.raised⟩) c.output hgoes
  have hvalue := Connection.run_ends (logs_recorded.service s.device now)
    ⟨a, ⟨s.program, mem⟩, c.channel a.channel, c.raised⟩ c.output
  refine ⟨hfollows, ?_⟩
  rw [Channels.serviceDevice, hs]
  dsimp only
  generalize Connection.run _ _ _ = done at hend hvalue ⊢
  obtain ⟨⟨device, again⟩, ⟨address, ⟨program, mem'⟩, channel, raised⟩, output⟩ := done
  refine ⟨⟨device, program⟩, ?_, hvalue.trans hlog, hend⟩
  rw [get?, Table.get?_modify, if_pos rfl, show c.subchannels.get? a.bits = some s from hs]
  rfl

/-- The bytes that move at an address while devices are serviced one after another. -/
def movesIn (a : DeviceAddress) (now : Nat) :
    List (DeviceAddress × Nat) → WithMemory (Recorded δ) ω → List ChannelProgram
  | [], _ => []
  | e :: rest, s =>
    (if e.1 = a then ({ s.1 with schedule := s.1.schedule.remove e.1 } : Channels (Recorded δ) ω).serviceMoves now s.2 a
      else []) ++ movesIn a now rest (attend now s e)

theorem Stopped.services {s : WithMemory (Recorded δ) ω} (now : Nat) (l : List (DeviceAddress × Nat))
    (h : Stopped first log n s.1 a) :
    Follows first n (movesIn a now l s) ∧
      Stopped first log (n + (movesIn a now l s).length) (l.foldl (attend now) s).1 a := by
  induction l generalizing n s with
  | nil => exact ⟨follows_nil, h⟩
  | cons e rest ih =>
    have hscheduled :
        Stopped first log n ({ s.1 with schedule := s.1.schedule.remove e.1 } : Channels (Recorded δ) ω) a :=
      h.congr rfl
    rw [movesIn, List.length_append, ← Nat.add_assoc]
    -- The moves of this service come before those of the rest, which go on from where it has left the program.
    by_cases he : e.1 = a
    · rw [if_pos he]
      obtain ⟨hfollows, hserviced⟩ := hscheduled.serviceDevice now s.2
      have hattended : (attend now s e).1 =
          (({ s.1 with schedule := s.1.schedule.remove e.1 } : Channels (Recorded δ) ω).serviceDevice now s.2 a).1 := by
        rw [attend, he]
      rw [← hattended] at hserviced
      obtain ⟨hlater, hend⟩ := ih hserviced
      exact ⟨hfollows.append hlater, hend⟩
    · rw [if_neg he]
      have hattended : Stopped first log n (attend now s e).1 a :=
        hscheduled.congr (spares_serviceDevice now s.2 he).subchannel
      exact ih hattended

end Channels

/-! ### Operations -/

namespace Operation
open Channels ChannelProgram
variable {δ ω : Type} [Peripheral δ ω] {s : WithMemory (Recorded δ) ω} {op : Operation (Recorded δ)}
  {ops : List (Operation (Recorded δ))} {a : DeviceAddress} {first : ChannelProgram} {log : List Byte} {n : Nat}

/-- The operation finds the program at an address busy, and stops it. -/
def Stops (s : WithMemory (Recorded δ) ω) (a : DeviceAddress) : Operation (Recorded δ) → Prop
  | stopIo b => b = a ∧ (s.1.stopIo a).1 = .channelBusy
  | haltIo now b => b = a ∧ (s.1.haltIo now a).1 = .accepted
  | _ => False

/-- Another program or another device comes to an address. -/
def Begins (a : DeviceAddress) : Operation (Recorded δ) → Prop
  | attach _ b _ | boot _ b | startIo _ b _ => b = a
  | _ => False

/-- The bytes that an operation moves at an address, each with the program before. -/
def moves (a : DeviceAddress) (s : WithMemory (Recorded δ) ω) : Operation (Recorded δ) → List ChannelProgram
  | poll now => movesIn a now (services now serviceLimit s.1 s.2) s
  | _ => []

def allMoves (a : DeviceAddress) (s : WithMemory (Recorded δ) ω) : List (Operation (Recorded δ)) → List ChannelProgram
  | [] => []
  | op :: rest => op.moves a s ++ allMoves a (op.perform s) rest

theorem stopped_perform (h : Stopped first log n s.1 a) (hbegins : ¬op.Begins a) :
    Follows first n (op.moves a s) ∧ Stopped first log (n + (op.moves a s).length) (op.perform s).1 a := by
  cases op with
  | poll now =>
    have hservices := h.services now (services now serviceLimit s.1 s.2)
    rw [show (perform s (poll now)) = _ from pollUpTo_eq_services]
    exact hservices
  | attach now b device => exact ⟨follows_nil, h.congr (get?_attach hbegins)⟩
  | boot now b => exact ⟨follows_nil, h.congr (get?_boot hbegins)⟩
  | startIo now b first => exact ⟨follows_nil, h.congr (get?_startIo hbegins)⟩
  | store f => exact ⟨follows_nil, h⟩
  | reset now => exact ⟨follows_nil, h.reset⟩
  | resetChannel k => exact ⟨follows_nil, h.resetChannel⟩
  | resetController now b => exact ⟨follows_nil, h.resetDevice⟩
  | testIo now b icb => exact ⟨follows_nil, h.testIo⟩
  | stopIo b => exact ⟨follows_nil, h.stopIo⟩
  | haltIo now b => exact ⟨follows_nil, h.haltIo⟩
  | commandDevice now b command => exact ⟨follows_nil, h.commandDevice⟩
  | testDevice now b command => exact ⟨follows_nil, h.testDevice⟩
  | postStatus k => exact ⟨follows_nil, h.postStatus⟩
  | storeStatus b => exact ⟨follows_nil, h.storeStatus⟩
  | receive b status => exact ⟨follows_nil, h.receive⟩
  | wake b status => exact ⟨follows_nil, h.congr rfl⟩
  | scan now => exact ⟨follows_nil, h.scan⟩

theorem stopped_performAll (h : Stopped first log n s.1 a) (hbegins : ∀ op ∈ ops, ¬op.Begins a) :
    Follows first n (allMoves a s ops) ∧
      Stopped first log (n + (allMoves a s ops).length) (performAll s ops).1 a := by
  induction ops generalizing n s with
  | nil => exact ⟨follows_nil, h⟩
  | cons op rest ih =>
    obtain ⟨hfollows, hstep⟩ := stopped_perform h (hbegins op List.mem_cons_self)
    obtain ⟨hlater, hend⟩ := ih hstep fun op' hop' => hbegins op' (List.mem_cons_of_mem _ hop')
    rw [allMoves, List.length_append, ← Nat.add_assoc]
    exact ⟨hfollows.append hlater, hend⟩

theorem stopped_of_stops (h : op.Stops s a) : ∃ before, s.1.get? a = some before ∧ before.program.isBusy = true ∧
    Stopped before.program before.device.commands 0 (op.perform s).1 a := by
  have hhalt : ∀ p : ChannelProgram, GoesOn p 0 p.halt := fun p => by
    refine ⟨⟨(chaining_unchained p.flags).1, (chaining_unchained p.flags).2⟩, .inl rfl, fun hleft => ?_⟩
    exact ⟨rfl, hleft, rfl, fun _ => (BitVec.add_zero _).symm⟩
  cases op with
  | stopIo b =>
    obtain ⟨rfl, hbusy⟩ := h
    rw [Channels.stopIo] at hbusy
    split at hbusy
    · cases hbusy
    next hattached =>
    split at hbusy
    · next hb =>
      obtain ⟨p, hp, hpb⟩ := Option.any_eq_true _ _ |>.mp hb
      obtain ⟨before, hs, rfl⟩ := Option.map_eq_some_iff.mp hp
      refine ⟨before, hs, hpb, { before with program := before.program.halt }, ?_, rfl, hhalt _⟩
      show (s.1.stopIo b).2.get? b = _
      rw [Channels.stopIo, if_neg hattached, if_pos hb]
      exact get?_modifyProgram_self hs
    · cases hbusy
  | haltIo now b =>
    obtain ⟨rfl, haccepted⟩ := h
    cases hs : s.1.get? b with
    | none =>
      rw [Channels.haltIo, hs] at haccepted
      cases haccepted
    | some before =>
      rw [Channels.haltIo, hs] at haccepted
      dsimp only at haccepted
      split at haccepted
      · cases haccepted
      next hattached =>
      split at haccepted
      · next hb =>
        refine ⟨before, rfl, hb, ⟨(Peripheral.haltIo before.device now).device, before.program.halt⟩, ?_, rfl, hhalt _⟩
        show (s.1.haltIo now b).2.get? b = _
        rw [Channels.haltIo, hs]
        dsimp only
        rw [if_neg hattached, if_pos hb]
        exact get?_modifyProgram_self (get?_absorb_self hs)
      · cases haccepted
  | _ => exact h.elim

/-- A program that is found busy and stopped never chains again. Whatever happens after that, and until a program is
started on the device or another device is attached, the device is given no command, and the bytes that move are, one
after another, bytes that were left of the doubleword at which the program was stopped. -/
theorem stopped_never_chains (hstop : op.Stops s a) (hbegins : ∀ op ∈ ops, ¬op.Begins a) :
    ∃ before after, s.1.get? a = some before ∧ before.program.isBusy = true ∧
      (performAll s (op :: ops)).1.get? a = some after ∧ after.device.commands = before.device.commands ∧
      (allMoves a (op.perform s) ops).length ≤ before.program.count.toNat ∧
      Follows before.program 0 (allMoves a (op.perform s) ops) := by
  obtain ⟨before, hs, hbusy, hstopped⟩ := stopped_of_stops hstop
  obtain ⟨hfollows, after, hafter, hcommands, -⟩ := stopped_performAll hstopped hbegins
  exact ⟨before, after, hs, hbusy, hafter, hcommands, hfollows.length_le, hfollows⟩

end Operation

namespace Trickle
open Channels Operation

/-- A list of two areas, of three bytes and two, and of another command. -/
def areas : Memory := ⟨#[0x02000018, 0x80000003, 0x02000020, 0x40000002, 0x02000024, 4, 0, 0, 0, 0], by decide⟩

/-- The device has put the first of its bytes in. -/
def receiving : WithMemory (Recorded Trickle) Char :=
  performAll (Channels.empty, areas)
    [.attach 0 left ⟨⟨[0x11, 0x22, 0x33, 0x44, 0x55]⟩, []⟩, .startIo 0 left 0, .poll 1]

/-- What happens when the program has been stopped: the device is serviced until it ends its command. -/
def remaining : List (Operation (Recorded Trickle)) :=
  [.poll 2, .scan 2, .receive left .attention, .poll 3, .poll 4, .poll 5, .poll 6, .scan 6]

theorem stopped_never_chains_receiving :
    (haltIo 1 left).Stops receiving left ∧ (∀ op ∈ remaining, ¬op.Begins left) ∧
    (allMoves left ((haltIo 1 left).perform receiving) remaining).map ChannelProgram.dataAddress = [25, 26] ∧
    ∃ before after, receiving.1.get? left = some before ∧ before.device.commands = [2] ∧ before.program.count = 2 ∧
      (performAll receiving (haltIo 1 left :: remaining)).1.get? left = some after ∧
      after.device.commands = before.device.commands := by
  have hstop : (haltIo 1 left).Stops receiving left := ⟨rfl, by decide +kernel⟩
  have hbegins : ∀ op ∈ remaining, ¬op.Begins left := by simp [remaining, Begins]
  obtain ⟨before, after, hs, -, hafter, hcommands, -⟩ := stopped_never_chains hstop hbegins
  have hknown : ∀ s ∈ receiving.1.get? left, s.device.commands = [2] ∧ s.program.count = 2 := by decide +kernel
  exact ⟨hstop, hbegins, by decide +kernel, before, after, hs, (hknown before hs).1, (hknown before hs).2, hafter,
    hcommands⟩

end Trickle
end Concept32
