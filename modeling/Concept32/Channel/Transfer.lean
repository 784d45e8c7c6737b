import Concept32.Channel.Program

/-!
# Moving data

A channel moves bytes between a device and memory one at a time, through one word that it keeps. The word
is written back when the program goes on to another word or doubleword and when the command ends. When the
current doubleword has no bytes left, data chaining leads to the next.
-/

namespace Concept32

/-- A channel program with the memory that it works on. -/
structure Transfer where
  program : ChannelProgram
  memory : Memory

namespace Transfer

/-- A step of a transfer; it fails when no byte can be moved. -/
abbrev Step (ε α : Type) := EStateM ε Transfer α

/-- A step of the program alone. -/
def onProgram {ε α : Type} (x : EStateM ε ChannelProgram α) : Step ε α := fun ⟨program, memory⟩ =>
  match x program with
  | .ok a program => .ok a ⟨program, memory⟩
  | .error e program => .error e ⟨program, memory⟩

def modifyProgram {ε : Type} (f : ChannelProgram → ChannelProgram) : Step ε Unit :=
  onProgram (modify f)

def current {ε : Type} : Step ε ChannelProgram := onProgram get

/-- Go on to the next doubleword that has data; the answer is whether there is one. -/
def chainData : Step ChannelStatus Bool := fun ⟨program, memory⟩ =>
  match program.chainData memory ChannelProgram.dataChainLimit with
  | .ok a program => .ok a ⟨program, memory⟩
  | .error e program => .error e ⟨program, memory⟩

/-- Memory failed the transfer: it ends with a program check. -/
def failMemory {α : Type} : Step ChannelStatus α := do
  modifyProgram fun p => { p.addStatus .programCheck with phase := .ended }
  throw (← current).status

/-- Write the staged word back if it has changed. -/
def flush : Step ChannelStatus Unit := do
  match (← current).staged with
  | some word =>
    if word.dirty then
      let stored ← fun ⟨program, memory⟩ =>
        match Memory.writeWord (word.address.setWidth 32) word.value memory with
        | .ok _ memory => .ok true ⟨program, memory⟩
        | .error _ memory => .ok false ⟨program, memory⟩
      if stored then modifyProgram fun p => { p with staged := some { word with dirty := false } }
      else failMemory
  | none => return

/-- Make the word that holds a byte address the staged one; the answer is the word. -/
def stage (a : Address) : Step ChannelStatus StagedWord := do
  let wordAddress : Address := a &&& 0xFFFFFC#24
  let staged := (← current).staged
  match staged with
  | some word => if word.address = wordAddress then return word
  | none => pure ()
  flush
  match (← get).memory.readWord (wordAddress.setWidth 32) with
  | .ok value =>
    let word : StagedWord := ⟨wordAddress, value, false⟩
    modifyProgram fun p => { p with staged := some word }
    return word
  | .error _ => failMemory

/-- No more data will move for this command. -/
def finish (p : ChannelProgram) : ChannelProgram := { p.addStatus .channelEnd with phase := .ended }

/-- A step that fails with a status, as part of one that fails because no byte can be moved. -/
def orStop {α : Type} (x : Step ChannelStatus α) : Step TransferEnd α := fun t =>
  match x t with
  | .ok a t => .ok a t
  | .error s t => .error (.error s) t

/-- The place of a byte address in its word. -/
def offsetOf (a : Address) : Nat := a.toNat % 4

/-- Take a step where the list of the program goes on to data; where it has no more the transfer is over. -/
def withData {α : Type} (x : Step TransferEnd α) : Step TransferEnd α := do
  if !(← orStop chainData) then
    modifyProgram finish
    throw .exhausted
  x

/-- Take the byte at the place of the program. -/
def take : Step TransferEnd Byte := do
  let a := (← current).dataAddress
  let word ← orStop (stage a)
  modifyProgram fun p => { p with dataAddress := a + 1, count := p.count - 1 }
  return Memory.byteOf word.value (offsetOf a)

/-- Take the next byte from memory. -/
def readByte : Step TransferEnd Byte := do
  if (← current).status.hasError then throw (.error (← current).status)
  if (← current).phase = .ended then throw .exhausted
  withData take

/-- Put a byte at the place of the program, where there is room for it. Bytes are thrown away while the
doubleword says so, and are put at descending addresses by a command that reads backward. -/
def put (b : Byte) : Step TransferEnd Unit := do
  let a := (← current).dataAddress
  let next := if (← current).command = some ChannelCommand.readBackward then a - 1 else a + 1
  if !(← current).flags.contains .skip then
    let word ← orStop (stage a)
    let word : StagedWord :=
      { word with value := Memory.withByte word.value (offsetOf a) b, dirty := true }
    modifyProgram fun p => { p with staged := some word }
  modifyProgram fun p => { p with dataAddress := next, count := p.count - 1 }

/-- Refuse a byte that comes in when the program has failed or has ended; otherwise go on. -/
def accepting (x : Step TransferEnd Unit) : Step TransferEnd Unit := do
  if (← current).status.hasError then throw (.error (← current).status)
  if (← current).phase = .ended then
    if !(← current).flags.contains .suppressLength then modifyProgram fun p => p.addStatus .length
    throw .exhausted
  x

/-- Put the next byte into memory. -/
def writeByte (b : Byte) : Step TransferEnd Unit := accepting do
  if (← current).count = 0 then
    orStop flush
    withData (put b)
  else put b

/-- The program has no more room for data that come in. -/
def isComplete : Step Empty Bool := fun t =>
  if t.program.phase = .ended then .ok true t
  else if t.program.count ≠ 0 then .ok false t
  else match flush t with
    | .error _ t => .ok true t
    | .ok _ ⟨program, memory⟩ =>
      if program.flags.contains .dataChain then .ok false ⟨program, memory⟩
      else .ok true ⟨finish program, memory⟩

/-- The state of a program whose command has ended with a device status. A number of bytes that is not
what the program has stops it, unless the doubleword suppresses that; so does a status that ends the
chain. The rest of a list that data chaining continues is passed over. -/
def ended (mem : Memory) (s : ChannelStatus) (p : ChannelProgram) : ChannelProgram :=
  let p := { (p.addStatus .channelEnd).addStatus s with staged := none, command := none }
  let p :=
    if p.count ≠ 0 && !p.flags.contains .suppressLength then { p.addStatus .length with flags := .none }
    else p
  let p := if s.endsChain then { p with flags := .none } else p
  let p := { p with phase := .newCommand }
  let p := p.skipChain mem ChannelProgram.dataChainLimit
  { p with
    flags := if p.status.hasError then .none else p.flags
    phase := .newCommand }

def endCommand (s : ChannelStatus) : Step Empty Unit := fun t =>
  match flush t with
  | .error _ t => .ok () t
  | .ok _ ⟨program, memory⟩ => .ok () ⟨ended memory s program, memory⟩

end Transfer
end Concept32
