import Concept32.Channel.Channels

/-!
# Instructions for channels and devices

What the channels do for the instructions that start, test and stop channel programs, and how the loading
of a machine begins.
-/

namespace Concept32.Channels
variable {δ ω : Type} [Peripheral δ ω]

/-- The state of a program that begins at an address of memory. -/
def started (a : DeviceAddress) (first : Address) : ChannelProgram :=
  { ChannelProgram.idle with next := first, device := some a }

/-- Start the program at `first` on the device at `a`. Status that the program has at once, by an error or
by asking for an interrupt, is queued. -/
def startIo (c : Channels δ ω) (now : Nat) (mem : Memory) (a : DeviceAddress) (first : Address) :
    IoCondition × Channels δ ω × Memory :=
  match c.get? a with
  | none => (.inoperative, c, mem)
  | some s =>
    if !Peripheral.attached s.device then (.inoperative, c, mem)
    else if s.program.isBusy then (.channelBusy, c, mem)
    else
      let r := Peripheral.startIo s.device now
      let c := c.absorb a r
      if !r.answer.isEmpty then
        (.subchannelBusy, c.modifyProgram a fun p => { p with status := .none }, mem)
      else
        let place := (c.channel a.channel).statusAddress
        let c := c.modifyProgram a fun _ => started a first
        let mem :=
          if place = 0 then mem
          else
            let word1 := (StatusDoubleword.of a first .none 0).word1
            Memory.after (Memory.writePair (place.setWidth 32) word1 0) mem
        let (begun, c) := c.continueProgram now mem a false
        let asked := (c.program? a).any fun p => p.status.contains .programInterrupt
        match begun with
        | .error _ =>
          (.acceptedNoEcho,
            (c.modifyProgram a fun p => { p.abandon with pending := .none }).storeStatus a, mem)
        | .ok _ =>
          if asked then
            (.acceptedNoEcho, (c.modifyProgram a fun p => { p with pending := .none }).storeStatus a, mem)
          else
            match (c.program? a).bind ChannelProgram.command with
            | none => (.acceptedNoEcho, c, mem)
            | some command =>
              if command = ChannelCommand.setStatusAddress then (.acceptedNoEcho, c, mem)
              else (.accepted, c, mem)

/-- Present the oldest status of a real channel; the answer is the word that tells where. -/
def postStatus (c : Channels δ ω) (mem : Memory) (channel : Byte) :
    Option Word × Channels δ ω × Memory :=
  match c.real.get? channel with
  | none => (none, c, mem)
  | some r =>
    match r.post mem with
    | (posted, r, mem) => (posted, c.setChannel channel r, mem)

/-- Test the device at `a`. Status that waits on its channel is presented, and the context block at `icb`
told where. -/
def testIo (c : Channels δ ω) (now : Nat) (mem : Memory) (a : DeviceAddress) (icb : Word) :
    IoCondition × Channels δ ω × Memory :=
  match c.get? a with
  | none => (.inoperative, c, mem)
  | some s =>
    if !Peripheral.attached s.device then (.inoperative, c, mem)
    else if s.program.isBusy then (.channelBusy, c, mem)
    else
      let r := Peripheral.testIo s.device now
      let c := c.absorb a r
      if r.answer.contains .busy then (.subchannelBusy, c, mem)
      else
        match c.postStatus mem a.channel with
        | (none, c, mem) => (.acceptedNoEcho, c, mem)
        | (some place, c, mem) =>
          (.statusStored, c, Memory.after (Memory.writeWord (icb + 20) place) mem)

/-- Let the current command of a program finish, but chain no further. -/
def stopIo (c : Channels δ ω) (a : DeviceAddress) : IoCondition × Channels δ ω :=
  if !c.isAttached a then (.inoperative, c)
  else if c.isBusy a then (.channelBusy, c.modifyProgram a ChannelProgram.halt)
  else (.accepted, c)

/-- Stop a program after its current command, and tell the device. -/
def haltIo (c : Channels δ ω) (now : Nat) (a : DeviceAddress) : IoCondition × Channels δ ω :=
  match c.get? a with
  | none => (.inoperative, c)
  | some s =>
    if !Peripheral.attached s.device then (.inoperative, c)
    else
      let c := c.absorb a (Peripheral.haltIo s.device now)
      if s.program.isBusy then (.accepted, c.modifyProgram a ChannelProgram.halt)
      else (.statusStored, c)

/-- Stop every program on a real channel and drop the status that waits on it. -/
def resetChannel (c : Channels δ ω) (channel : Byte) : IoCondition × Channels δ ω :=
  if !c.hasChannel channel then (.inoperative, c)
  else
    let on := c.addresses.filter fun a => a.channel == channel
    (.acceptedNoEcho,
      { c.setChannel channel .idle with
        subchannels := on.foldl (fun t a => t.modify a.bits fun s => { s with program := .idle })
          c.subchannels
        schedule := on.foldl Schedule.remove c.schedule })

def grabIo (c : Channels δ ω) (a : DeviceAddress) : IoCondition :=
  if c.isBusy a then .channelBusy else .accepted

def resetController (c : Channels δ ω) (now : Nat) (a : DeviceAddress) : IoCondition × Channels δ ω :=
  (.accepted, c.resetDevice now a)

def commandDevice (c : Channels δ ω) (now : Nat) (a : DeviceAddress) (command : Half) :
    IoCondition × Channels δ ω :=
  match c.get? a with
  | none => (.inoperative, c)
  | some s =>
    let r := Peripheral.commandDevice s.device now command
    (r.answer, c.absorb a r)

def testDevice (c : Channels δ ω) (now : Nat) (a : DeviceAddress) (command : Half) :
    IoCondition × Channels δ ω :=
  match c.get? a with
  | none => (.inoperative, c)
  | some s =>
    let r := Peripheral.testDevice s.device now command
    (r.answer, c.absorb a r)

/-- Begin to load the machine from the device at `a`, by the program at address zero. -/
def boot (c : Channels δ ω) (now : Nat) (mem : Memory) (a : DeviceAddress) :
    Except BootError Unit × Channels δ ω :=
  if !c.contains a then (.error (.noSuchDevice a), c)
  else if !c.isAttached a then (.error (.notAttached a), c)
  else
    let c := (c.setChannel a.channel .idle).modifyProgram a fun _ => started a 0
    match c.continueProgram now mem a false with
    | (.error s, c) =>
      (.error (.channelProgram a s), c.modifyProgram a fun p => { p.abandon with pending := .none })
    | (.ok _, c) => (.ok (), { c with loading := some a })

end Concept32.Channels
