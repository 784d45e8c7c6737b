import Concept32.Channel.Transfer
import Concept32.Proofs.Memory

/-!
# Transfers without a staged word

The reference for the moving of data: a channel that keeps no word of memory and moves every byte directly to or
from its byte address. It goes through the list of the program as the channel does.
-/

namespace Concept32.Transfer

/-! ### Bytes of memory -/

/-- The byte at an address; beyond the end of memory the transfer ends. -/
def loadByte (a : Address) : Step ChannelStatus Byte := do
  match (← get).memory.readByte (a.setWidth 32) with
  | .ok b => return b
  | .error _ => failMemory

/-- Store a byte at an address; beyond the end of memory the transfer ends. -/
def storeByte (a : Address) (b : Byte) : Step ChannelStatus Unit := fun ⟨program, memory⟩ =>
  match Memory.writeByte (a.setWidth 32) b memory with
  | .ok _ memory => .ok () ⟨program, memory⟩
  | .error _ memory => failMemory ⟨program, memory⟩

/-! ### The calls of a device -/

/-- Take the byte at the place of the program. -/
def takeDirect : Step TransferEnd Byte := do
  let a := (← current).dataAddress
  let b ← orStop (loadByte a)
  modifyProgram fun p => { p with dataAddress := a + 1, count := p.count - 1 }
  return b

/-- Take the next byte from memory. -/
def readDirect : Step TransferEnd Byte := do
  if (← current).status.hasError then throw (.error (← current).status)
  if (← current).phase = .ended then throw .exhausted
  withData takeDirect

/-- Put a byte into memory, or throw it away while the doubleword says so. -/
def putDirect (b : Byte) : Step TransferEnd Unit := do
  let a := (← current).dataAddress
  let next := if (← current).command = some ChannelCommand.readBackward then a - 1 else a + 1
  if !(← current).flags.contains .skip then orStop (storeByte a b)
  modifyProgram fun p => { p with dataAddress := next, count := p.count - 1 }

/-- Take the next byte that comes in. -/
def writeDirect (b : Byte) : Step TransferEnd Unit := accepting (withData (putDirect b))

/-- The program has no more room for data that come in. -/
def isCompleteDirect : Step Empty Bool := fun t =>
  if t.program.phase = .ended then .ok true t
  else if t.program.count ≠ 0 then .ok false t
  else if t.program.flags.contains .dataChain then .ok false t
  else .ok true ⟨finish t.program, t.memory⟩

/-- End the command with a device status. -/
def endDirect (s : ChannelStatus) : Step Empty Unit := fun ⟨program, memory⟩ =>
  .ok () ⟨ended memory s program, memory⟩

/-- The address at which the next byte that comes in is stored, if it is stored. -/
def target? (t : Transfer) : Option Address :=
  if t.program.status.hasError ∨ t.program.phase = .ended then none
  else match t.program.chainData t.memory ChannelProgram.dataChainLimit with
    | .ok true p => if p.flags.contains .skip then none else some p.dataAddress
    | _ => none

/-! ### Sequences of calls -/

/-- What a channel does for a device. -/
structure Port where
  readByte : Step TransferEnd Byte
  writeByte : Byte → Step TransferEnd Unit
  isComplete : Step Empty Bool
  endCommand : ChannelStatus → Step Empty Unit

/-- The channel with its staged word. -/
def Port.buffered : Port := ⟨Transfer.readByte, Transfer.writeByte, Transfer.isComplete, Transfer.endCommand⟩

/-- The channel without a staged word. -/
def Port.direct : Port := ⟨readDirect, writeDirect, isCompleteDirect, endDirect⟩

/-- A call of a device. -/
inductive PortCall
  | readByte
  | writeByte (b : Byte)
  | isComplete
  deriving DecidableEq

/-- The answer to a call. -/
inductive PortAnswer
  | byte (answer : Except TransferEnd Byte)
  | stored (answer : Except TransferEnd Unit)
  | complete (answer : Except Empty Bool)

/-- The answer to a call, with what can be seen of the program after it. -/
structure PortReport where
  answer : PortAnswer
  count : Half
  flags : CommandFlags
  status : ChannelStatus
  next : Address

/-- What can be seen of a call: its answer and the transfer after it. -/
def PortReport.of (seen : PortAnswer × Transfer) : PortReport where
  answer := seen.1
  count := seen.2.program.count
  flags := seen.2.program.flags
  status := seen.2.program.status
  next := seen.2.program.next

/-- The answer of a step and the transfer after it. -/
def Step.run {ε α : Type} (x : Step ε α) (t : Transfer) : Except ε α × Transfer :=
  match x t with
  | .ok a t => (.ok a, t)
  | .error e t => (.error e, t)

namespace Port

/-- Make a call. -/
def call (port : Port) (c : PortCall) (t : Transfer) : PortAnswer × Transfer :=
  match c with
  | .readByte => (port.readByte.run t).map .byte id
  | .writeByte b => ((port.writeByte b).run t).map .stored id
  | .isComplete => (port.isComplete.run t).map .complete id

/-- Make calls in turn; the report of each, and the transfer after all. -/
def calls (port : Port) : List PortCall → Transfer → List PortReport × Transfer
  | [], t => ([], t)
  | c :: rest, t =>
    let seen := port.call c t
    let (reports, last) := port.calls rest seen.2
    (.of seen :: reports, last)

/-- End the command. -/
def finished (port : Port) (s : ChannelStatus) (t : Transfer) : Transfer := ((port.endCommand s).run t).2

end Port

/-- The address at which a call stores a byte, if it does. -/
def PortCall.target? : PortCall → Transfer → Option Address
  | .writeByte _, t => t.target?
  | .readByte, _ => none
  | .isComplete, _ => none

/-- The addresses at which calls in turn store bytes. -/
def targets : List PortCall → Transfer → List Address
  | [], _ => []
  | c :: rest, t => (c.target? t).toList ++ targets rest (Port.direct.call c t).2

/-! ### What the calls do to memory -/

section
variable {t : Transfer} {b : Byte} {n : Nat}

/-- A byte address as the address of a word of memory. -/
theorem toNat_setWidth_word (a : Address) : (a.setWidth 32).toNat = a.toNat := by
  simp only [BitVec.toNat_setWidth]
  omega

theorem current_eq_ok {ε : Type} (t : Transfer) : (current : Step ε ChannelProgram) t = .ok t.program t := rfl

theorem orStop_of_ok {α : Type} {x : Step ChannelStatus α} {a : α} {t' : Transfer} (h : x t = .ok a t') :
    orStop x t = .ok a t' := by
  rw [orStop, h]

theorem orStop_of_error {α : Type} {x : Step ChannelStatus α} {s : ChannelStatus} {t' : Transfer} (h : x t = .error s t') :
    orStop x t = .error (.error s) t' := by
  rw [orStop, h]

theorem chainData_of_ok {more : Bool} {p : ChannelProgram}
    (h : t.program.chainData t.memory ChannelProgram.dataChainLimit = .ok more p) :
    chainData t = .ok more ⟨p, t.memory⟩ := by
  rw [chainData, h]

theorem chainData_of_error {s : ChannelStatus} {p : ChannelProgram}
    (h : t.program.chainData t.memory ChannelProgram.dataChainLimit = .error s p) :
    chainData t = .error s ⟨p, t.memory⟩ := by
  rw [chainData, h]

section
variable {α : Type} {x : Step TransferEnd α} {t' : Transfer}

theorem withData_of_more (h : chainData t = .ok true t') : withData x t = x t' :=
  EStateM.bind_of_ok (orStop_of_ok h)

theorem withData_of_none (h : chainData t = .ok false t') :
    withData x t = .error .exhausted ⟨finish t'.program, t'.memory⟩ :=
  EStateM.bind_of_ok (orStop_of_ok h)

theorem withData_of_error {s : ChannelStatus} (h : chainData t = .error s t') : withData x t = .error (.error s) t' :=
  EStateM.bind_of_error (orStop_of_error h)

end

/-- The memory of the result of a step. -/
def memoryOf {ε α : Type} : EStateM.Result ε Transfer α → Memory
  | .ok _ t => t.memory
  | .error _ t => t.memory

theorem memory_run {ε α : Type} {x : Step ε α} : (x.run t).2.memory = memoryOf (x t) := by
  rw [Step.run]
  cases x t with
  | ok a t' => rfl
  | error e t' => rfl

theorem memoryOf_orStop {α : Type} {x : Step ChannelStatus α} : memoryOf (orStop x t) = memoryOf (x t) := by
  rw [orStop]
  cases x t with
  | ok a t' => rfl
  | error s t' => rfl

/-- However the step ends, memory is as it was. -/
def Still {ε α : Type} (x : Step ε α) : Prop := ∀ t, memoryOf (x t) = t.memory

namespace Still
variable {ε α β : Type}

theorem pure {a : α} : Still (Pure.pure a : Step ε α) := fun _ => rfl

theorem throw {e : ε} : Still (MonadExcept.throw e : Step ε α) := fun _ => rfl

/-- What comes after does not touch memory. -/
theorem memoryOf_bind {x : Step ε α} {f : α → Step ε β} (hf : ∀ a, Still (f a)) :
    memoryOf ((x >>= f) t) = memoryOf (x t) := by
  cases hstep : x t with
  | ok a t' =>
    rw [EStateM.bind_of_ok hstep]
    exact hf a t'
  | error e t' =>
    rw [EStateM.bind_of_error hstep]
    rfl

theorem bind {x : Step ε α} {f : α → Step ε β} (hx : Still x) (hf : ∀ a, Still (f a)) : Still (x >>= f) := fun t =>
  (memoryOf_bind hf).trans (hx t)

theorem current {f : ChannelProgram → Step ε α} (hf : ∀ p, Still (f p)) : Still (Transfer.current >>= f) :=
  fun t => hf t.program t

theorem change {f : ChannelProgram → ChannelProgram} : Still (modifyProgram f : Step ε Unit) := fun _ => rfl

theorem ite {c : Prop} [Decidable c] {x y : Step ε α} (hx : Still x) (hy : Still y) : Still (if c then x else y) := by
  split
  · exact hx
  · exact hy

theorem orStop {x : Step ChannelStatus α} (hx : Still x) : Still (orStop x) := fun t =>
  memoryOf_orStop.trans (hx t)

theorem chainData : Still chainData := fun t => by
  rw [Transfer.chainData]
  cases t.program.chainData t.memory ChannelProgram.dataChainLimit with
  | ok a p => rfl
  | error s p => rfl

theorem failMemory : Still (failMemory : Step ChannelStatus α) := .bind .change fun _ => .current fun _ => .throw

theorem loadByte {a : Address} : Still (loadByte a) := by
  refine .bind (fun _ => rfl) fun u => ?_
  split
  · exact .pure
  · exact .failMemory

theorem readDirect : Still readDirect :=
  .current fun _ => .ite (.current fun _ => .throw) <| .current fun _ => .ite .throw <|
    .bind (.orStop .chainData) fun _ => .ite (.bind .change fun _ => .throw) <|
      .current fun _ => .bind (.orStop .loadByte) fun _ => .bind .change fun _ => .pure

end Still

theorem memory_storeByte {a : Address} :
    memoryOf (storeByte a b t) = t.memory.after (Memory.writeByte (a.setWidth 32) b) := by
  rw [storeByte, Memory.after]
  cases Memory.writeByte (a.setWidth 32) b t.memory with
  | ok _ m => rfl
  | error _ m => exact Still.failMemory _

theorem memory_putDirect :
    memoryOf (putDirect b t) =
      if t.program.flags.contains .skip then t.memory
      else t.memory.after (Memory.writeByte (t.program.dataAddress.setWidth 32) b) := by
  rw [putDirect, EStateM.bind_of_ok (current_eq_ok t), EStateM.bind_of_ok (current_eq_ok t),
    EStateM.bind_of_ok (current_eq_ok t)]
  cases t.program.flags.contains .skip with
  | true => rfl
  | false => exact (Still.memoryOf_bind fun _ => .change).trans (memoryOf_orStop.trans memory_storeByte)

/-- A byte that is refused changes neither memory nor the program, whose status may tell of it. -/
theorem accepting_cases (x : Step TransferEnd Unit) (t : Transfer) :
    ((t.program.status.hasError ∨ t.program.phase = .ended) ∧
      ∃ p e, (p = t.program ∨ p = t.program.addStatus .length) ∧ accepting x t = .error e ⟨p, t.memory⟩) ∨
    (¬(t.program.status.hasError ∨ t.program.phase = .ended) ∧ accepting x t = x t) := by
  by_cases herror : t.program.status.hasError
  · exact .inl ⟨.inl herror, t.program, _, .inl rfl, congrFun (if_pos herror) t⟩
  by_cases hended : t.program.phase = .ended
  · have hstop : accepting x t = (do
        if !(← current).flags.contains .suppressLength then modifyProgram fun p => p.addStatus .length
        throw TransferEnd.exhausted) t :=
      (congrFun (if_neg herror) t).trans (congrFun (if_pos hended) t)
    by_cases hsuppress : !t.program.flags.contains .suppressLength
    · exact .inl ⟨.inr hended, t.program.addStatus .length, _, .inr rfl, hstop.trans (congrFun (if_pos hsuppress) t)⟩
    · exact .inl ⟨.inr hended, t.program, _, .inl rfl, hstop.trans (congrFun (if_neg hsuppress) t)⟩
  · exact .inr ⟨not_or.mpr ⟨herror, hended⟩, (congrFun (if_neg herror) t).trans (congrFun (if_neg hended) t)⟩

/-- A byte that comes in is stored at its address; everything else of memory stays. -/
theorem memory_writeDirect :
    memoryOf (writeDirect b t) = match t.target? with
      | some a => t.memory.after (Memory.writeByte (a.setWidth 32) b)
      | none => t.memory := by
  rw [target?, writeDirect]
  rcases accepting_cases _ t with ⟨hstop, p, e, -, hrefused⟩ | ⟨hgo, haccepted⟩
  · rw [if_pos hstop, hrefused]
    rfl
  rw [if_neg hgo, haccepted]
  cases hchain : t.program.chainData t.memory ChannelProgram.dataChainLimit with
  | error s p =>
    rw [withData_of_error (chainData_of_error hchain)]
    rfl
  | ok more p =>
    cases more with
    | false =>
      rw [withData_of_none (chainData_of_ok hchain)]
      rfl
    | true =>
      rw [withData_of_more (chainData_of_ok hchain)]
      refine memory_putDirect.trans ?_
      dsimp only
      split
      · rfl
      · rfl

theorem still_isCompleteDirect : Still isCompleteDirect := fun t => by
  rw [isCompleteDirect]
  split
  · rfl
  split
  · rfl
  split
  · rfl
  · rfl

/-- A byte at which a call stores nothing stays. -/
theorem byteAt_call {c : PortCall} (hn : ∀ a ∈ c.target? t, n ≠ a.toNat) :
    (Port.direct.call c t).2.memory.byteAt n = t.memory.byteAt n := by
  cases c with
  | readByte => exact congrArg (·.byteAt n) (memory_run.trans (Still.readDirect t))
  | isComplete => exact congrArg (·.byteAt n) (memory_run.trans (still_isCompleteDirect t))
  | writeByte b =>
    have hmemory : (Port.direct.call (.writeByte b) t).2.memory = _ := memory_run.trans memory_writeDirect
    rw [hmemory]
    split
    · next a ha =>
      have hne : n ≠ (a.setWidth 32).toNat := by
        rw [toNat_setWidth_word]
        exact hn a ha
      exact Memory.byteAt_writeByte_of_ne hne
    · rfl

/-- The bytes at which no call stores anything stay. -/
theorem byteAt_calls {calls : List PortCall} (hn : ∀ a ∈ targets calls t, n ≠ a.toNat) :
    (Port.direct.calls calls t).2.memory.byteAt n = t.memory.byteAt n := by
  induction calls generalizing t with
  | nil => rfl
  | cons c rest ih =>
    have hcall := byteAt_call (c := c) (t := t) fun a ha => hn a (List.mem_append_left _ (by simpa using ha))
    exact (ih fun a ha => hn a (List.mem_append_right _ ha)).trans hcall

end

end Concept32.Transfer
