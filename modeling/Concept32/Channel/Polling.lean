import Concept32.Channel.Channels

/-!
# Servicing devices and continuing programs

Devices are serviced in the order of the times at which they want it. Programs whose command has ended go
on to their next command or, when there is none, have their status queued.
-/

namespace Concept32

/-- How the loading of a machine ended. -/
inductive LoadProgress
  | complete (device : DeviceAddress)
  | failed (error : BootError)
  deriving DecidableEq, Repr

namespace Channels
variable {δ ω : Type} [Peripheral δ ω]

/-! ### Devices -/

def serviceDevice (c : Channels δ ω) (now : Nat) (mem : Memory) (a : DeviceAddress) :
    Channels δ ω × Memory :=
  match c.get? a with
  | none => (c, mem)
  | some s =>
    let connection : Connection := ⟨a, ⟨s.program, mem⟩, c.channel a.channel, c.raised⟩
    match connection.run (Peripheral.service s.device now) c.output with
    | ((device, again), ⟨_, ⟨program, mem⟩, channel, raised⟩, output) =>
      let schedule := match again with
        | none => c.schedule
        | some delay => c.schedule.put a (now + delay)
      ({ c with
          subchannels := c.subchannels.modify a.bits fun _ => ⟨device, program⟩
          real := c.real.set a.channel channel
          schedule := schedule
          raised := raised
          output := output }, mem)

/-- Service the devices that are due, at most `limit` times. -/
def pollUpTo (now : Nat) : Nat → Channels δ ω → Memory → Channels δ ω × Memory
  | 0, c, mem => (c, mem)
  | limit + 1, c, mem =>
    match c.schedule.popDue? now with
    | none => (c, mem)
    | some (a, schedule) =>
      match ({ c with schedule := schedule } : Channels δ ω).serviceDevice now mem a with
      | (c, mem) => pollUpTo now limit c mem

/-- More services than any device asks for at one time: only a device that never stops asking for service
without delay would need more. -/
def serviceLimit : Nat := 0x4000000000000000

def poll (c : Channels δ ω) (now : Nat) (mem : Memory) : Channels δ ω × Memory :=
  pollUpTo now serviceLimit c mem

/-! ### Programs -/

/-- What a scan does with one device: continue the command chain of a program whose device has ended its
command, or queue the status of a program that has ended, or else unsolicited status. A program whose
chain cannot be continued has its status queued by the next scan. The answer is how loading from this
device ended, if it did. -/
def scanDevice (c : Channels δ ω) (now : Nat) (mem : Memory) (a : DeviceAddress) :
    Option LoadProgress × Channels δ ω :=
  match c.program? a with
  | none => (none, c)
  | some p =>
    if p.status.contains .channelEnd then
      if p.flags.contains .commandChain then
        if p.status.contains .deviceEnd then
          match c.continueProgram now mem a true with
          | (.error _, c) => (none, (c.modifyProgram a ChannelProgram.abandon).raise)
          | (.ok _, c) => (none, c.raise)
        else (none, c.raise)
      else if c.loading = some a then
        let c : Channels δ ω := { c with loading := none }
        if p.status.hasError then (some (.failed (.channelProgram a p.status)), c)
        else
          (some (.complete a),
            c.modifyProgram a fun p => { p with status := .none, pending := .none })
      else (none, c.storeStatus a)
    else if !p.pending.isEmpty && !p.isBusy then
      (none, (c.queueStatus a (.of a p.next p.pending 0)).modifyProgram a fun p =>
        { p with pending := .none })
    else (none, c)

/-- Scan devices in order, up to one whose loading has ended. -/
def scanDevices (now : Nat) (mem : Memory) :
    List DeviceAddress → Channels δ ω → Option LoadProgress × Channels δ ω
  | [], c => (none, c)
  | a :: rest, c =>
    match c.scanDevice now mem a with
    | (some progress, c) => (some progress, c)
    | (none, c) => scanDevices now mem rest c

/-- Look at every program if the signal is raised. -/
def scan (c : Channels δ ω) (now : Nat) (mem : Memory) : Option LoadProgress × Channels δ ω :=
  if c.raised then scanDevices now mem c.addresses { c with raised := false } else (none, c)

end Channels
end Concept32
