import Concept32.Channel.Connection
import Concept32.Device.Peripheral
import Concept32.Schedule
import Concept32.Table

/-!
# The channels and their devices

All devices with their channel programs, the real channels, and when each device next wants service. A
device and its program are attached together, so an address has both or neither.
-/

namespace Concept32

/-- A device with its channel program. -/
structure Subchannel (δ : Type) where
  device : δ
  program : ChannelProgram

/-- The channels; `δ` are the states of devices and `ω` is what devices put out. -/
structure Channels (δ ω : Type) where
  subchannels : Table 15 (Subchannel δ)
  real : Table 8 RealChannel
  /-- When devices want service; it may hold addresses at which there is no device. -/
  schedule : Schedule DeviceAddress
  /-- The device from which the machine is being loaded. -/
  loading : Option DeviceAddress
  /-- Some program may have a command to continue or status to present. -/
  raised : Bool
  /-- What devices have put out, in order. -/
  output : Array ω

inductive BootError
  | noSuchDevice (device : DeviceAddress)
  | notAttached (device : DeviceAddress)
  | channelProgram (device : DeviceAddress) (status : ChannelStatus)
  deriving DecidableEq, Repr

def BootError.message : BootError → String
  | .noSuchDevice a => "there is no device at " ++ a.text
  | .notAttached a => "device " ++ a.text ++ " is not attached"
  | .channelProgram a status =>
    "bootstrap program on " ++ a.text ++ " failed with status " ++ status.text

namespace Channels
variable {δ ω : Type}

def empty : Channels δ ω where
  subchannels := .empty
  real := .empty
  schedule := .empty
  loading := none
  raised := false
  output := #[]

/-- The channels with another choice among devices that want service at the same time. -/
def choosing (c : Channels δ ω) (choice : Nat → Nat) : Channels δ ω :=
  { c with schedule := c.schedule.choosing choice }

/-! ### Looking up and changing -/

def get? (c : Channels δ ω) (a : DeviceAddress) : Option (Subchannel δ) := c.subchannels.get? a.bits

def program? (c : Channels δ ω) (a : DeviceAddress) : Option ChannelProgram :=
  (c.get? a).map Subchannel.program

def contains (c : Channels δ ω) (a : DeviceAddress) : Bool := (c.get? a).isSome

/-- The addresses of the devices, in ascending order. -/
def addresses (c : Channels δ ω) : List DeviceAddress := c.subchannels.keys.map DeviceAddress.mk

def hasChannel (c : Channels δ ω) (channel : Byte) : Bool :=
  c.addresses.any fun a => a.channel == channel

def channel (c : Channels δ ω) (channel : Byte) : RealChannel := (c.real.get? channel).getD .idle

def setChannel (c : Channels δ ω) (channel : Byte) (r : RealChannel) : Channels δ ω :=
  { c with real := c.real.set channel r }

def modifyProgram (c : Channels δ ω) (a : DeviceAddress) (f : ChannelProgram → ChannelProgram) :
    Channels δ ω :=
  { c with subchannels := c.subchannels.modify a.bits fun s => { s with program := f s.program } }

/-- The channels with another device state at an address, after a reaction of the device. -/
def absorb {α : Type} (c : Channels δ ω) (a : DeviceAddress) (r : Reaction δ ω α) : Channels δ ω :=
  { c with
    subchannels := c.subchannels.modify a.bits fun s => { s with device := r.device }
    output := c.output.appendList r.output }

def raise (c : Channels δ ω) : Channels δ ω := { c with raised := true }

def isBusy (c : Channels δ ω) (a : DeviceAddress) : Bool := (c.program? a).any ChannelProgram.isBusy

def nextService? (c : Channels δ ω) : Option Nat := c.schedule.next?

/-- Some channel may have status to present. -/
def interruptPending (c : Channels δ ω) : Bool := c.raised || c.real.values.any RealChannel.hasStatus

def queueStatus (c : Channels δ ω) (a : DeviceAddress) (s : StatusDoubleword) : Channels δ ω :=
  c.setChannel a.channel ((c.channel a.channel).push s)

/-- Queue the status of the program at an address and clear it. -/
def storeStatus (c : Channels δ ω) (a : DeviceAddress) : Channels δ ω :=
  match c.program? a with
  | none => c
  | some p =>
    ((c.queueStatus a (.of a p.next p.status p.count)).modifyProgram a fun p =>
      { p with status := .none, count := 0, device := none }).raise

/-- Status that a device presents without being asked. -/
def receive (c : Channels δ ω) (a : DeviceAddress) (s : ChannelStatus) : Channels δ ω :=
  if c.contains a then (c.modifyProgram a fun p => p.receive a s).raise else c

/-- Queue status that belongs to no program. -/
def wake (c : Channels δ ω) (a : DeviceAddress) (s : ChannelStatus) : Channels δ ω :=
  (c.queueStatus a (.of a 0 s 0)).raise

variable [Peripheral δ ω]

/-- There is a device at the address and it has its medium. -/
def isAttached (c : Channels δ ω) (a : DeviceAddress) : Bool :=
  (c.get? a).any fun s => Peripheral.attached s.device

/-! ### Attaching and resetting -/

/-- Attach a device. A device that was at the address is replaced, and its service is called off. -/
def attach (c : Channels δ ω) (now : Nat) (a : DeviceAddress) (device : δ) : Channels δ ω :=
  let r := Peripheral.reset device now true
  { c with
    subchannels := c.subchannels.set a.bits ⟨r.device, .idle⟩
    schedule := if c.contains a then c.schedule.remove a else c.schedule
    output := c.output.appendList r.output }

def resetDevice (c : Channels δ ω) (now : Nat) (a : DeviceAddress) : Channels δ ω :=
  match c.get? a with
  | none => c
  | some s => c.absorb a (Peripheral.reset s.device now false)

def reset (c : Channels δ ω) (now : Nat) : Channels δ ω :=
  let c : Channels δ ω :=
    { c with
      subchannels := c.subchannels.mapValues fun _ s => { s with program := .idle }
      real := c.real.mapValues fun _ _ => .idle
      schedule := c.schedule.clear
      loading := none
      raised := false }
  c.addresses.foldl (fun c a => c.resetDevice now a) c

/-! ### Commands -/

/-- Give a command to the device at an address. A device that is write-protected refuses a command that
writes. The request of the program for an interrupt is carried over into its new status. -/
def issue (c : Channels δ ω) (now : Nat) (a : DeviceAddress) (command : Byte) :
    Except ChannelStatus Unit × Channels δ ω :=
  match c.get? a with
  | none => (.error .programCheck, c)
  | some s =>
    let c :=
      if command = ChannelCommand.setStatusAddress then
        c.setChannel a.channel { c.channel a.channel with statusAddress := s.program.dataAddress }
      else c
    let r : Reaction δ ω CommandResponse :=
      if ChannelCommand.isWrite command && Peripheral.writeProtected s.device then
        .only s.device (.done (ChannelStatus.unitCheck.union .deviceEnd))
      else Peripheral.startCommand s.device now command
    let c := c.absorb a r
    let carried : ChannelStatus :=
      if s.program.status.contains .programInterrupt then .programInterrupt else .none
    match r.answer with
    | .accepted delay =>
      let c := c.modifyProgram a fun p => { p with status := carried }
      (.ok (), { c with schedule := c.schedule.put a (now + delay) })
    | .done status =>
      let c := c.raise
      let whole := (status.union carried).union .channelEnd
      if status.endsChain then
        (.error whole,
          c.modifyProgram a fun p => { p with status := whole, flags := .none, command := none })
      else if status.intersects (ChannelStatus.channelEnd.union .deviceEnd) then
        (.ok (),
          c.modifyProgram a fun p => { p with status := whole, phase := .newCommand, command := none })
      else (.ok (), c.modifyProgram a fun p => { p with status := status.union carried })

/-- Fetch the next doubleword of the program at an address and, if it holds a new command, give that to
the device. -/
def continueProgram (c : Channels δ ω) (now : Nat) (mem : Memory) (a : DeviceAddress)
    (transferAllowed : Bool) : Except ChannelStatus Unit × Channels δ ω :=
  match c.program? a with
  | none => (.error .programCheck, c)
  | some p =>
    match p.fetch mem transferAllowed with
    | .error s p => (.error s, (c.modifyProgram a fun _ => p).raise)
    | .ok none p => (.ok (), c.modifyProgram a fun _ => p)
    | .ok (some command) p => (c.modifyProgram a fun _ => p).issue now a command

end Channels
end Concept32
