import Concept32.Device.Standard
import Concept32.Proofs.Channels.Buffering
import Concept32.Proofs.Channels.Ending
import Concept32.Proofs.Channels.Scattering

/-!
# Reading a record

A reader of a file that is serviced for a read puts the next bytes of its file at the data address, as many as the
doubleword has room for, and ends the command. A record that is shorter than the doubleword stops the list, unless
the doubleword suppresses that.
-/

namespace Concept32

/-! ### Room for a record -/

namespace Transfer
open EStateM
variable {t r : Transfer} {start : Nat} {b : Byte}

/-- A read has begun, and what its doubleword has room for lies in memory from `start` on. -/
structure Receptive (r : Transfer) (start : Nat) : Prop where
  status : r.program.status = .none
  phase : r.program.phase = .active
  forward : r.program.command ≠ some ChannelCommand.readBackward
  unchained : r.program.flags.contains .dataChain = false
  kept : r.program.flags.contains .skip = false
  place : r.program.count ≠ 0 → r.program.dataAddress.toNat = start
  fits : start + r.program.count.toNat ≤ r.memory.sizeBytes

/-- The transfer after one byte more. -/
def takenIn (r : Transfer) (start : Nat) (b : Byte) : Transfer where
  program := { r.program with dataAddress := r.program.dataAddress + 1, count := r.program.count - 1 }
  memory := r.memory.update (start / 4) fun w => Memory.withByte w (start % 4) b

theorem Receptive.takenIn (h : Receptive r start) (hcount : r.program.count ≠ 0) (b : Byte) :
    Receptive (r.takenIn start b) (start + 1) := by
  have hless := toNat_sub_one hcount
  have hplace := h.place hcount
  have hfits := h.fits
  refine ⟨h.status, h.phase, h.forward, h.unchained, h.kept, fun hmore => ?_, ?_⟩
  · -- The data address wraps only when no byte is left.
    have hpositive : 0 < (r.program.count - 1).toNat := Nat.pos_of_ne_zero fun hzero =>
      hmore (BitVec.eq_of_toNat_eq hzero)
    have hsize := r.memory.size_le
    rw [Memory.sizeBytes] at hfits
    show (r.program.dataAddress + 1).toNat = start + 1
    rw [BitVec.toNat_add, hplace, show (1 : Address).toNat = 1 from rfl]
    omega
  · show start + 1 + (r.program.count - 1).toNat ≤ (r.memory.update _ _).sizeBytes
    rw [Memory.sizeBytes_update]
    omega

theorem writeDirect_of_receptive (h : Receptive r start) (hcount : r.program.count ≠ 0) (b : Byte) :
    writeDirect b r = .ok () (r.takenIn start b) := by
  have hplace := h.place hcount
  have hpresent : r.program.dataAddress.toNat / 4 < r.memory.words.size := by
    have hfits := h.fits
    have hless := toNat_sub_one hcount
    rw [Memory.sizeBytes] at hfits
    omega
  have hgo : ¬(r.program.status.hasError ∨ r.program.phase = .ended) := by
    rw [h.status, h.phase]
    decide
  have hchain : chainData r = .ok true r :=
    (chainData_of_not_chained h.unchained).trans (by rw [decide_eq_true hcount])
  have hput : putDirect b r = .ok () (r.takenIn start b) := by
    rw [putDirect, bind_of_ok (current_eq_ok r), bind_of_ok (current_eq_ok r), bind_of_ok (current_eq_ok r), h.kept,
      if_neg h.forward]
    refine (bind_of_ok (orStop_of_ok (storeByte_of_lt hpresent))).trans ?_
    rw [hplace, offsetOf, hplace]
    rfl
  rw [writeDirect]
  rcases accepting_cases _ r with ⟨hstop, -⟩ | ⟨-, haccepted⟩
  · exact absurd hstop hgo
  · rw [haccepted, withData_of_more hchain]
    exact hput

theorem isCompleteDirect_of_receptive (h : Receptive r start) :
    isCompleteDirect r =
      if r.program.count = 0 then .ok true ⟨finish r.program, r.memory⟩ else .ok false r := by
  rw [isCompleteDirect, if_neg (by rw [h.phase]; decide), h.unchained]
  by_cases hcount : r.program.count = 0
  · rw [if_neg (not_not_intro hcount), if_neg Bool.false_ne_true, if_pos hcount]
  · rw [if_pos hcount, if_neg hcount]

end Transfer

/-! ### A record -/

/-- What the reading of a record leaves of a program when `length` bytes have come in. -/
structure ChannelProgram.Filled (p : ChannelProgram) (length : Nat) (q : ChannelProgram) : Prop where
  stays : p.Stays q
  count : q.count.toNat + length = p.count.toNat
  status : q.status = .none ∨ q.status = .channelEnd

namespace Connection
open Transfer
variable {ω : Type} {c : Connection} {r r' : Transfer} {start : Nat}

theorem ok_of_sameEnd {ε α : Type} {x y : EStateM.Result ε Transfer α} {a : α}
    (h : EStateM.SameEnd Eq Shadows x y) (hy : y = .ok a r') : ∃ t', x = .ok a t' ∧ Shadows t' r' := by
  subst hy
  cases h with
  | ok hV hR =>
    subst hV
    exact ⟨_, rfl, hR⟩

theorem isComplete_of_shadows {complete : Bool} (h : Shadows c.transfer r)
    (hcomplete : isCompleteDirect r = .ok complete r') :
    ∃ t', c.isComplete = (complete, { c with transfer := t' }) ∧ Shadows t' r' := by
  obtain ⟨t', ht', hshadows⟩ := ok_of_sameEnd (simulates_isComplete c.transfer r h) hcomplete
  exact ⟨t', by rw [isComplete, ht'], hshadows⟩

theorem writeByte_of_shadows {b : Byte} (h : Shadows c.transfer r) (hwrite : writeDirect b r = .ok () r') :
    ∃ t', c.writeByte b = (.ok (), { c with transfer := t' }) ∧ Shadows t' r' := by
  obtain ⟨t', ht', hshadows⟩ := ok_of_sameEnd (simulates_writeByte c.transfer r h) hwrite
  exact ⟨t', by rw [writeByte, transferStep, ht'], hshadows⟩

/-- How the bytes of a record are put into memory: `r` is where the transfer was, without a staged word. -/
def PutsRecord (data : Array Byte) (position start : Nat) (r : Transfer) (c : Connection) (output : Array ω)
    (done : Nat × Connection × Array ω) : Prop :=
  let record := recordOf data position r.program.count.toNat
  ∃ t q, done = (position + record.length, { c with transfer := t }, output) ∧
    Shadows t ⟨q, r.memory.storeBytes start record⟩ ∧ r.program.Filled record.length q

theorem putsRecord_of_full (data : Array Byte) (left position : Nat) (output : Array ω)
    (hshadows : Shadows c.transfer r) (hr : Receptive r start) (hcount : r.program.count = 0) :
    PutsRecord data position start r c output (c.run (Service.fill data left position) output) := by
  have hcomplete := isCompleteDirect_of_receptive hr
  rw [if_pos hcount] at hcomplete
  obtain ⟨t, hask, hshadows'⟩ := isComplete_of_shadows hshadows hcomplete
  rw [PutsRecord, hcount, show (0 : Half).toNat = 0 from rfl, Load.recordOf_zero]
  refine ⟨t, finish r.program, ?_, hshadows', ⟨rfl, rfl, rfl⟩, rfl, .inr ?_⟩
  · cases left with
    | zero =>
      rw [Service.fill, run, hask]
      rfl
    | succ left =>
      rw [Service.fill, run, hask]
      rfl
  · show r.program.status.union .channelEnd = .channelEnd
    rw [hr.status]
    decide

/-- The bytes of a record are put one after the other, until there is no more room or there are no more of them. -/
theorem putsRecord_fill (data : Array Byte) (left : Nat) {position : Nat} (output : Array ω)
    (hshadows : Shadows c.transfer r) (hr : Receptive r start) (hleft : position + left = data.size) :
    PutsRecord data position start r c output (c.run (Service.fill data left position) output) := by
  -- On what is left of the file; `r` keeps up with the transfer, which may have a word staged.
  induction left generalizing c r start position with
  | zero =>
    by_cases hcount : r.program.count = 0
    · exact putsRecord_of_full data 0 position output hshadows hr hcount
    have hcomplete := isCompleteDirect_of_receptive hr
    rw [if_neg hcount] at hcomplete
    obtain ⟨t, hask, hshadows'⟩ := isComplete_of_shadows hshadows hcomplete
    rw [PutsRecord, Load.recordOf_end (by omega)]
    refine ⟨t, r.program, ?_, hshadows', .refl, rfl, .inl hr.status⟩
    rw [Service.fill, run, hask]
    rfl
  | succ left ih =>
    by_cases hcount : r.program.count = 0
    · exact putsRecord_of_full data (left + 1) position output hshadows hr hcount
    have hcomplete := isCompleteDirect_of_receptive hr
    rw [if_neg hcount] at hcomplete
    obtain ⟨t₁, hask, hshadows₁⟩ := isComplete_of_shadows hshadows hcomplete
    have hin : position < data.size := by omega
    obtain ⟨t₂, hwrite, hshadows₂⟩ :=
      writeByte_of_shadows (c := { c with transfer := t₁ }) hshadows₁
        (writeDirect_of_receptive hr hcount data[position])
    have hless := toNat_sub_one hcount
    have hcons : recordOf data position r.program.count.toNat =
        data[position] :: recordOf data (position + 1) (r.program.count - 1).toNat := by
      rw [← hless, Load.recordOf_succ hin]
    obtain ⟨t, q, hrun, hlast, hfilled⟩ :=
      ih (c := { c with transfer := t₂ }) hshadows₂ (hr.takenIn hcount data[position])
        (show position + 1 + left = data.size by omega)
    have hrest : q.count.toNat + (recordOf data (position + 1) (r.program.count - 1).toNat).length =
        (r.program.count - 1).toNat := hfilled.count
    rw [PutsRecord, hcons]
    refine ⟨t, q, ?_, hlast, ⟨hfilled.stays.next, hfilled.stays.flags, hfilled.stays.pending⟩, ?_, hfilled.status⟩
    · rw [Service.fill, run, hask]
      dsimp only
      rw [Array.getElem?_eq_getElem hin]
      dsimp only
      rw [run, hwrite]
      dsimp only
      rw [hrun, List.length_cons, Nat.add_right_comm, Nat.add_assoc]
      rfl
    · rw [List.length_cons]
      omega

end Connection

/-! ### The end of the command -/

namespace ChannelProgram
variable {p q : ChannelProgram} {next : Address} {e : Entry} {record : List Byte}

/-- The program has begun the read of a doubleword; `next` is where its list goes on. -/
structure Reads (next : Address) (e : Entry) (p : ChannelProgram) : Prop where
  next : p.next = next
  dataAddress : p.dataAddress = e.dataAddress
  count : p.count = e.count
  flags : p.flags = e.flags
  command : p.command = some ImageReader.readCommand
  status : p.status = .none
  pending : p.pending = .none
  staged : p.staged = none
  phase : p.phase = .active

/-- The command of the program has ended with a status; its list goes on at `next` if the flags say so. -/
structure HasEnded (next : Address) (flags : CommandFlags) (status : ChannelStatus) (p : ChannelProgram) : Prop where
  next : p.next = next
  flags : p.flags = flags
  status : p.status = status
  pending : p.pending = .none

theorem Reads.receptive {mem : Memory} (h : p.Reads next e) (hplain : e.Plain mem)
    (hcommand : e.command = ImageReader.readCommand) : Transfer.Receptive ⟨p, mem⟩ e.dataAddress.toNat where
  status := h.status
  phase := h.phase
  forward := by
    show p.command ≠ _
    rw [h.command]
    decide
  unchained := by
    show p.flags.contains _ = _
    rw [h.flags]
    exact hplain.unchained
  kept := by
    show p.flags.contains _ = _
    rw [h.flags]
    exact hplain.kept
  place _ := congrArg BitVec.toNat h.dataAddress
  fits := by
    show _ + p.count.toNat ≤ _
    rw [h.count]
    exact (hplain.read hcommand).2

/-- The status of a read that has ended: its record fills the doubleword, or is too short for it. -/
theorem endStatus_of_filled (h : p.Filled record.length q) (hcount : p.count = e.count) (hflags : p.flags = e.flags) :
    Transfer.endStatus .deviceEnd q = if e.isShort record then .tooShort else .concluded := by
  have hleft : q.count.toNat + record.length = e.count.toNat := by
    rw [← hcount]
    exact h.count
  have hshort : (q.count ≠ 0 && !q.flags.contains .suppressLength) = e.isShort record := by
    rw [Entry.isShort, h.stays.flags, hflags]
    congr 1
    refine decide_eq_decide.mpr ⟨fun hne => ?_, fun hlt heq => ?_⟩
    · have hpositive : q.count.toNat ≠ 0 := fun hzero => hne (BitVec.eq_of_toNat_eq hzero)
      omega
    · rw [heq, show (0 : Half).toNat = 0 from rfl] at hleft
      omega
  have hstatus : (q.status.union .channelEnd).union .deviceEnd = .concluded := by
    rcases h.status with hnone | hend
    · rw [hnone]
      decide
    · rw [hend]
      decide
  rw [Transfer.endStatus, hshort, hstatus]
  rfl

theorem hasEnded_ended {mem : Memory} (h : p.Reads next e) (hplain : e.Plain mem) (hfilled : p.Filled record.length q)
    (m : Memory) : (Transfer.ended m .deviceEnd q).HasEnded next (if e.isShort record then .none else e.flags)
      (if e.isShort record then .tooShort else .concluded) := by
  have hchain : q.flags.contains .dataChain = false := by
    rw [hfilled.stays.flags, h.flags]
    exact hplain.unchained
  rw [Transfer.ended_of_not_chained hchain, endStatus_of_filled hfilled h.count h.flags]
  refine ⟨hfilled.stays.next.trans h.next, ?_, rfl, hfilled.stays.pending.trans h.pending⟩
  dsimp only
  rw [hfilled.stays.flags, h.flags]
  cases e.isShort record with
  | true => rfl
  | false => rfl

end ChannelProgram

/-! ### A service -/

namespace ImageReader
open ChannelProgram
variable {r : ImageReader} {p : ChannelProgram} {mem : Memory} {next : Address} {e : Entry} {now : Nat}

/-- A reader that is serviced for a read puts its next record into memory and ends the command. -/
theorem run_service (h : p.Reads next e) (hplain : e.Plain mem) (hcommand : e.command = readCommand)
    (hdata : r.position < r.data.size) (a : DeviceAddress) (channel : RealChannel) (raised : Bool)
    (output : Array Char) :
    let record := recordOf r.data r.position e.count.toNat
    ∃ q, Connection.run (Peripheral.service (StandardDevice.imageReader r) now) ⟨a, ⟨p, mem⟩, channel, raised⟩ output =
        ((.imageReader { r with position := r.position + record.length }, none),
          ⟨a, ⟨q, mem.storeBytes e.dataAddress.toNat record⟩, channel, true⟩, output) ∧
      q.HasEnded next (if e.isShort record then .none else e.flags)
        (if e.isShort record then .tooShort else .concluded) := by
  intro record
  have hshadows : Transfer.Shadows ⟨p, mem⟩ ⟨p, mem⟩ :=
    (Transfer.Clean.of_none (by rw [unstaged, ← h.staged]) rfl h.staged).shadows
  have hleft : r.position + r.remaining = r.data.size := by
    rw [remaining]
    omega
  obtain ⟨t, q, hfill, hshadows', hfilled⟩ :=
    Connection.putsRecord_fill (c := ⟨a, ⟨p, mem⟩, channel, raised⟩) r.data r.remaining output hshadows
      (h.receptive hplain hcommand) hleft
  dsimp only at hfill hshadows' hfilled
  rw [h.count] at hfill hshadows' hfilled
  refine ⟨Transfer.ended _ .deviceEnd q, ?_,
    hasEnded_ended h hplain hfilled (mem.storeBytes e.dataAddress.toNat record)⟩
  have hservice : (Peripheral.service (StandardDevice.imageReader r) now : Service Char (StandardDevice × Option Nat)) =
      ((Service.fill r.data r.remaining r.position).andThen fun position =>
        .endCommand .deviceEnd (.done ({ r with position := position }, none))).andThen
          fun done => .done (.imageReader done.1, done.2) := rfl
  rw [hservice, Connection.run_andThen, Connection.run_andThen, hfill]
  dsimp only
  rw [Connection.run, Connection.run, Connection.run, Connection.endCommand, Transfer.endCommand_eq hshadows']
  rfl

end ImageReader
end Concept32
