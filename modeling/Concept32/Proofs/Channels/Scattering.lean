import Concept32.Machine.Basic
import Concept32.Proofs.Channels.CommandList
import Concept32.Proofs.Memory

/-!
# Scattering a file

What the list of a program load says is to become of a file: its bytes go to memory in the order of the file, an area
for each command that reads, and the list goes on with what memory then holds. No channel, no device and no time
are in it.
-/

namespace Concept32
open ChannelProgram

/-- How far a load has come. -/
structure Load where
  memory : Memory
  /-- The place of the next byte of the file. -/
  position : Nat

/-- How a load ends. -/
inductive LoadOutcome
  | loaded (memory : Memory)
  | failed (status : ChannelStatus)

/-- What a file has from a place on, as far as there is room. -/
def recordOf (file : Array Byte) (position room : Nat) : List Byte := (file.toList.drop position).take room

namespace ChannelStatus

/-- A command has ended on the channel and on the device. -/
def concluded : ChannelStatus := channelEnd.union deviceEnd

/-- The file is at its end. -/
def exhausted : ChannelStatus := concluded.union unitException

/-- The file does not have as many bytes as the doubleword has room for. -/
def tooShort : ChannelStatus := concluded.union length

end ChannelStatus

namespace ImageReader

def readCommand : Byte := 0x02#8

def noOperation : Byte := 0x03#8

def rewindCommand : Byte := 0x23#8

end ImageReader

namespace ChannelProgram.Entry

/-- The doubleword of a command that a load may have: it has no data chaining, throws nothing away and asks for no
interrupt, and a read has room in memory for at least one byte. -/
structure Plain (e : Entry) (mem : Memory) : Prop where
  unchained : e.flags.contains .dataChain = false
  kept : e.flags.contains .skip = false
  quiet : e.flags.contains .programInterrupt = false
  command : e.command = ImageReader.noOperation ∨ e.command = ImageReader.rewindCommand ∨
    e.command = ImageReader.readCommand ∧ e.count ≠ 0 ∧ e.dataAddress.toNat + e.count.toNat ≤ mem.sizeBytes

instance (e : Entry) (mem : Memory) : Decidable (e.Plain mem) :=
  decidable_of_iff (e.flags.contains .dataChain = false ∧ e.flags.contains .skip = false ∧
      e.flags.contains .programInterrupt = false ∧ (e.command = ImageReader.noOperation ∨
        e.command = ImageReader.rewindCommand ∨ e.command = ImageReader.readCommand ∧ e.count ≠ 0 ∧
          e.dataAddress.toNat + e.count.toNat ≤ mem.sizeBytes))
    ⟨fun ⟨h₁, h₂, h₃, h₄⟩ => ⟨h₁, h₂, h₃, h₄⟩, fun h => ⟨h.unchained, h.kept, h.quiet, h.command⟩⟩

theorem Plain.read {e : Entry} {mem : Memory} (h : e.Plain mem) (hcommand : e.command = ImageReader.readCommand) :
    e.count ≠ 0 ∧ e.dataAddress.toNat + e.count.toNat ≤ mem.sizeBytes := by
  rcases h.command with hother | hother | ⟨-, hread⟩
  · rw [hcommand] at hother
    exact absurd hother (by decide)
  · rw [hcommand] at hother
    exact absurd hother (by decide)
  · exact hread

/-- A record leaves room that the doubleword does not want left. -/
def isShort (e : Entry) (record : List Byte) : Bool :=
  record.length < e.count.toNat && !e.flags.contains .suppressLength

end ChannelProgram.Entry

namespace Load

/-- What a command of a list does, or the status with which it ends the load. -/
def carryOut (file : Array Byte) (e : Entry) (l : Load) : Except ChannelStatus Load :=
  if e.command = ImageReader.noOperation then .ok l
  else if e.command = ImageReader.rewindCommand then .ok { l with position := 0 }
  else
    let record := recordOf file l.position e.count.toNat
    if record.isEmpty then .error .exhausted
    else if e.isShort record then .error .tooShort
    else .ok ⟨l.memory.storeBytes e.dataAddress.toNat record, l.position + record.length⟩

section
variable {file : Array Byte} {e : Entry} {l : Load}

theorem carryOut_noOperation (h : e.command = ImageReader.noOperation) : l.carryOut file e = .ok l := if_pos h

theorem carryOut_rewind (h : e.command = ImageReader.rewindCommand) :
    l.carryOut file e = .ok { l with position := 0 } := by
  rw [carryOut, h]
  rfl

theorem carryOut_read (h : e.command = ImageReader.readCommand) :
    l.carryOut file e =
      let record := recordOf file l.position e.count.toNat
      if record.isEmpty then .error .exhausted
      else if e.isShort record then .error .tooShort
      else .ok ⟨l.memory.storeBytes e.dataAddress.toNat record, l.position + record.length⟩ := by
  rw [carryOut, h]
  rfl

theorem recordOf_end {position room : Nat} (h : file.size ≤ position) : recordOf file position room = [] := by
  rw [recordOf, List.drop_eq_nil_of_le (by simpa using h), List.take_nil]

theorem recordOf_succ {position room : Nat} (h : position < file.size) :
    recordOf file position (room + 1) = file[position] :: recordOf file (position + 1) room := by
  rw [recordOf, List.drop_eq_getElem_cons (by simpa using h), List.take_succ_cons]
  rfl

theorem recordOf_zero {position : Nat} : recordOf file position 0 = [] := List.take_zero

theorem carryOut_of_end (h : e.command = ImageReader.readCommand) (hend : file.size ≤ l.position) :
    l.carryOut file e = .error .exhausted := by
  rw [carryOut_read h, recordOf_end hend]
  rfl

/-- A record that has been begun ends as the doubleword wants, or is too short for it. -/
theorem carryOut_of_lt (h : e.command = ImageReader.readCommand) (hcount : e.count ≠ 0)
    (hmore : l.position < file.size) :
    l.carryOut file e =
      let record := recordOf file l.position e.count.toNat
      if e.isShort record then .error .tooShort
      else .ok ⟨l.memory.storeBytes e.dataAddress.toNat record, l.position + record.length⟩ := by
  obtain ⟨room, hroom⟩ : ∃ room, e.count.toNat = room + 1 :=
    Nat.exists_eq_succ_of_ne_zero fun hzero => hcount (BitVec.eq_of_toNat_eq hzero)
  rw [carryOut_read h, hroom, recordOf_succ hmore]
  rfl

/-- Only a read ends a load, and with one of two statuses. -/
theorem carryOut_error {status : ChannelStatus} (h : l.carryOut file e = .error status) :
    status = .exhausted ∨ status = .tooShort := by
  rw [carryOut] at h
  split at h
  · cases h
  split at h
  · cases h
  dsimp only at h
  split at h
  · cases h
    exact .inl rfl
  split at h
  · cases h
    exact .inr rfl
  · cases h

end

/-- What a list of at most `limit` commands makes of a file, from a doubleword on that memory holds. A list that is
wrong, has other commands or is longer has no outcome. -/
def scatter (file : Array Byte) : (limit : Nat) → (place : Address) → Load → Option LoadOutcome
  | 0, _, _ => none
  | limit + 1, place, l =>
    match Progress.entryAt l.memory place true with
    | .given next e =>
      if e.Plain l.memory then
        match l.carryOut file e with
        | .error status => some (.failed status)
        | .ok l => if e.flags.contains .commandChain then l.scatter file limit next else some (.loaded l.memory)
      else none
    | _ => none

/-- A command of a list, and what comes after it in the list, lead to an outcome. -/
def LeadsTo (file : Array Byte) (limit : Nat) (next : Address) (e : Entry) (outcome : LoadOutcome) :
    Except ChannelStatus Load → Prop
  | .error status => (status = .exhausted ∨ status = .tooShort) ∧ outcome = .failed status
  | .ok l =>
    if e.flags.contains .commandChain then l.scatter file limit next = some outcome else outcome = .loaded l.memory

theorem scatter_succ {file : Array Byte} {limit : Nat} {place : Address} {l : Load} {outcome : LoadOutcome}
    (h : l.scatter file (limit + 1) place = some outcome) :
    ∃ next e, Progress.entryAt l.memory place true = .given next e ∧ e.Plain l.memory ∧
      LeadsTo file limit next e outcome (l.carryOut file e) := by
  rw [scatter] at h
  split at h
  · next next e hentry =>
    split at h
    · next hplain =>
      refine ⟨next, e, hentry, hplain, ?_⟩
      cases hcarried : l.carryOut file e with
      | error status =>
        rw [hcarried] at h
        exact ⟨carryOut_error hcarried, (Option.some.inj h).symm⟩
      | ok l' =>
        rw [hcarried] at h
        dsimp only at h
        rw [LeadsTo]
        split at h
        · next hchain => rwa [if_pos hchain]
        · next hlast =>
          rw [if_neg hlast]
          exact (Option.some.inj h).symm
    · cases h
  · cases h

/-- A load of a machine that has a memory: the bootstrap is at address zero, and nothing of the file has been read. -/
def begun (memory : Memory) : Load :=
  ⟨memory.after (Memory.writePair 0 Machine.bootstrap.1 Machine.bootstrap.2), 0⟩

/-- The bootstrap is at address zero if memory has a word there. -/
theorem readWord_begun {memory : Memory} {w : Word} (h : (begun memory).memory.readWord 0 = .ok w) :
    w = Machine.bootstrap.1 := by
  have hstored : (memory.after (Memory.writeWord 0 Machine.bootstrap.1)).readWord 0 = .ok w := by
    rcases memory.after_writePair_cases 0 Machine.bootstrap.1 Machine.bootstrap.2 with heq | heq
    · rw [← heq]
      exact h
    · rw [begun, heq, Memory.writeWord, Memory.after_change] at h
      split at h
      · rwa [Memory.readWord_update_of_ne (by decide)] at h
      · exact h
  obtain ⟨haligned, hin, rfl⟩ := Memory.readWord_eq_ok.mp hstored
  rw [Memory.writeWord, Memory.size_after_change] at hin
  rw [Memory.writeWord, Memory.after_change, if_pos ⟨haligned, hin⟩, Memory.wordAt_update, if_pos ⟨rfl, hin⟩]

/-- The first command of a load is the bootstrap, which is a read. -/
theorem entryAt_begun {memory : Memory} {next : Address} {e : Entry}
    (h : Progress.entryAt (begun memory).memory 0 true = .given next e) :
    Progress.entryAt (begun memory).memory 0 false = .given next e ∧ e.command = ImageReader.readCommand := by
  cases hword : wordAt? (begun memory).memory 0 with
  | none =>
    rw [Progress.entryAt, place, hword] at h
    cases h
  | some word1 =>
    have hread : (begun memory).memory.readWord 0 = .ok word1 := by
      rw [wordAt?, show wordBoundary ((0 : Address).setWidth 32) = 0 from rfl] at hword
      cases hread : (begun memory).memory.readWord 0 with
      | error e =>
        rw [hread] at hword
        cases hword
      | ok w =>
        rw [hread] at hword
        cases hword
        rfl
    obtain rfl : word1 = Machine.bootstrap.1 := readWord_begun hread
    have hplace : ∀ allowed, place (begun memory).memory 0 allowed = .ok (0, Machine.bootstrap.1) := fun allowed => by
      rw [place, hword]
      rfl
    rw [Progress.entryAt, hplace] at h ⊢
    refine ⟨h, ?_⟩
    dsimp only at h
    split at h
    · cases h
    · split at h
      · cases h
        rfl
      · cases h

end Load
end Concept32
