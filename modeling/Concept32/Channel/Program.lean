import Concept32.Channel.Status
import Concept32.Device.Address
import Concept32.Memory

/-!
# Channel programs

A channel program is a list of doublewords in memory. The first word of each has a command and a data
address, the second has flags and a byte count. A doubleword with data chaining is continued by the next,
one with command chaining is followed by another command, and a transfer command makes the list go on
elsewhere. This module holds the state of a program and how it fetches its doublewords.
-/

namespace Concept32

/-- How far a command of a channel program has come. -/
inductive TransferPhase
  /-- No data have moved yet. -/
  | newCommand
  /-- Data are being moved. -/
  | active
  /-- There are no more data. -/
  | ended
  deriving DecidableEq, Repr

/-- The word of memory through which bytes are moved one by one. -/
structure StagedWord where
  address : Address
  value : Word
  /-- The word has changed since it was read. -/
  dirty : Bool
  deriving DecidableEq, Repr

inductive TransferEnd
  | exhausted
  | error (status : ChannelStatus)
  deriving DecidableEq, Repr

def TransferEnd.message : TransferEnd → String
  | .exhausted => "channel program data exhausted"
  | .error status => "channel program error (status " ++ status.text ++ ")"

/-- The state of the channel program of a device. -/
structure ChannelProgram where
  /-- Where the next doubleword is. -/
  next : Address
  /-- Where the next byte of data is. -/
  dataAddress : Address
  /-- The bytes that are left of the current doubleword. -/
  count : Half
  flags : CommandFlags
  command : Option Byte
  status : ChannelStatus
  /-- The device that the program was started for. -/
  device : Option DeviceAddress
  /-- Unsolicited status that is not queued yet. -/
  pending : ChannelStatus
  staged : Option StagedWord
  phase : TransferPhase
  deriving DecidableEq, Repr

namespace ChannelProgram

def idle : ChannelProgram where
  next := 0
  dataAddress := 0
  count := 0
  flags := .none
  command := none
  status := .none
  device := none
  pending := .none
  staged := none
  phase := .newCommand

/-- A command is in progress or another doubleword follows. -/
def isBusy (p : ChannelProgram) : Bool := p.command.isSome || p.flags.chaining

/-- The program with bits added to its status. -/
def addStatus (p : ChannelProgram) (s : ChannelStatus) : ChannelProgram :=
  { p with status := p.status.union s }

/-- The program stopped after an error; it keeps its status. -/
def abandon (p : ChannelProgram) : ChannelProgram :=
  { p with command := none, flags := .none, phase := .newCommand }

/-- The program stopped by an instruction: it does not chain any further. -/
def halt (p : ChannelProgram) : ChannelProgram :=
  { p with flags := p.flags.unchained, status := p.status.union .echo }

/-- Status that comes unasked. Device end joins the status of a command that is just ending; anything
else waits until the program is idle. -/
def receive (p : ChannelProgram) (device : DeviceAddress) (s : ChannelStatus) : ChannelProgram :=
  if p.device = some device && p.status.contains .channelEnd && s.contains .deviceEnd then p.addStatus s
  else { p with pending := p.pending.union s }

/-! ### Fetching -/

/-- A step of a program; it fails with the status that stops the program. -/
abbrev Step (α : Type) := EStateM ChannelStatus ChannelProgram α

def fail {α : Type} (s : ChannelStatus) : Step α := do
  modify fun p => p.addStatus s
  throw (← get).status

def listWord (mem : Memory) (a : Address) : Step Word :=
  match mem.readWord (wordBoundary (a.setWidth 32)) with
  | .ok w => pure w
  | .error _ => fail .programCheck

/-- The command in the first word of a doubleword. -/
def commandOf (word1 : Word) : Byte := word1.extractLsb' 24 8

/-- The first word of the next doubleword. A status modifier passes over one doubleword; a transfer
command is followed if it is allowed, and may not lead to another. -/
def firstWord (mem : Memory) (transferAllowed : Bool) : Step Word := do
  if (← get).status.hasError then throw (← get).status
  if (← get).status.contains .modifier then
    modify fun p => { p with next := p.next + 8, status := p.status.without .modifier }
  let word1 ← listWord mem (← get).next
  if !ChannelCommand.isTransfer (commandOf word1) then return word1
  if !transferAllowed then fail .programCheck
  modify fun p => { p with next := word1.setWidth 24 }
  let word1 ← listWord mem (← get).next
  if ChannelCommand.isTransfer (commandOf word1) then fail .programCheck
  return word1

/-- Fetch the next doubleword. The answer is the command to give to the device, or nothing if the
doubleword continues the data of the current command. A count of zero is right only without data. -/
def fetch (mem : Memory) (transferAllowed : Bool) : Step (Option Byte) := do
  let word1 ← firstWord mem transferAllowed
  let issued := if (← get).flags.contains .dataChain then none else some (commandOf word1)
  modify fun p =>
    { p with command := issued.or p.command, dataAddress := word1.setWidth 24 }
  let word2 ← listWord mem ((← get).next + 4)
  modify fun p =>
    { p with
      next := p.next + 8
      count := word2.setWidth 16
      flags := ⟨word2.extractLsb' 16 16⟩
      staged := none
      phase := .active }
  if (← get).flags.contains .programInterrupt then modify fun p => p.addStatus .programInterrupt
  if (← get).count = 0 && (← get).dataAddress ≠ 0 then fail .programCheck
  return issued

/-- The number of doublewords without data that may follow one another by data chaining. -/
def dataChainLimit : Nat := 64

/-- Go on to the next doubleword that has data, past at most `limit` others; the answer is whether there
is one. -/
def chainData (mem : Memory) (limit : Nat) (p : ChannelProgram) :
    EStateM.Result ChannelStatus ChannelProgram Bool :=
  if p.count ≠ 0 then .ok true p
  else if !p.flags.contains .dataChain then .ok false p
  else match limit with
    | 0 => fail .programCheck p
    | limit + 1 =>
      match fetch mem true p with
      | .error s p => .error s p
      | .ok _ p => chainData mem limit p

/-- Pass over the rest of a list that data chaining continues, past at most `limit` doublewords. A
doubleword that does not suppress length errors makes the transfer too short. -/
def skipChain (mem : Memory) (limit : Nat) (p : ChannelProgram) : ChannelProgram :=
  if !p.flags.contains .dataChain then p
  else match limit with
    | 0 => p.addStatus .programCheck
    | limit + 1 =>
      match fetch mem true p with
      | .error _ p => p
      | .ok _ p =>
        if p.flags.contains .suppressLength then skipChain mem limit p
        else { p.addStatus .length with flags := .none }

end ChannelProgram
end Concept32
