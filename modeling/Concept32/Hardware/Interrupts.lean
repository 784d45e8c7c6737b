import Concept32.Hardware.Basic

/-!
# Taking interrupts

The first level that is enabled and requested interrupts the program, unless interrupts are blocked or an
earlier level is active. A level of class F also asks for an interrupt by having status queued on its
channel, and that status is presented first.
-/

namespace Concept32.Hardware
variable {δ ω : Type}

/-- Take an interrupt on a level, if it has a context block; without one its request is dropped. A level of
class F does not stay active while its routine has interrupts blocked. -/
def takeInterrupt (now : Nat) (level : Nat) (entry : ConfigurationEntry) : Delivery Bool := do
  let core ← get
  match core.cpu.levelBlock? core.memory level with
  | none =>
    Delivery.modifyCpu fun c => { c with levels := c.levels.clearRequest level }
    return false
  | some block =>
    Delivery.modifyCpu fun c => c.activateLevel level
    let resume := core.cpu.psd.address
    Delivery.orHalt now .machineCheck (Exec.exchange block resume)
    if entry.isClassF && (← get).cpu.psd.blocking = .block then
      Delivery.modifyCpu fun c => c.deactivateLevel level
    Delivery.modifyCpu fun c => { c with mode := .running }
    return true

/-- Present status that is queued on the channel of a level, and tell the level's context block where; the
answer is whether both could be done. -/
def presentStatus (entry : ConfigurationEntry) (level : Nat) : EStateM TrapHalt (Hardware δ ω) Bool :=
  fun ⟨⟨cpu, memory⟩, channels⟩ =>
    match cpu.levelBlock? memory level with
    | none => .ok false ⟨⟨cpu, memory⟩, channels⟩
    | some block =>
      match channels.postStatus memory entry.realChannel with
      | (none, channels, memory) => .ok false ⟨⟨cpu, memory⟩, channels⟩
      | (some place, channels, memory) =>
        match Memory.writeWord (block + 20) place memory with
        | .error _ memory => .ok false ⟨⟨cpu, memory⟩, channels⟩
        | .ok _ memory => .ok true ⟨⟨cpu.requestInterrupt level, memory⟩, channels⟩

/-- Look for a level to take among the last `left` levels. -/
def scanLevels (now : Nat) : (left : Nat) → EStateM TrapHalt (Hardware δ ω) Bool
  | 0 => pure false
  | left + 1 => do
    let level := levelCount - (left + 1)
    let cpu := (← get).core.cpu
    let state := cpu.levels.get level
    let entry := cpu.scratchpad.levelEntry level
    if state.active then return false
    if !entry.isConfigured || !state.enabled then scanLevels now left
    else if state.requested then onCore (takeInterrupt now level entry)
    else if !entry.isClassF then scanLevels now left
    else if ← presentStatus entry level then onCore (takeInterrupt now level entry)
    else scanLevels now left

/-- Look for an interrupt to take; the answer is whether one was taken. -/
def scanForInterrupt (now : Nat) : EStateM TrapHalt (Hardware δ ω) Bool := do
  if (← get).core.cpu.interruptsBlocked then return false
  scanLevels now levelCount

end Concept32.Hardware
