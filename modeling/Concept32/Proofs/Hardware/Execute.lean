import Concept32.Hardware.Execute
import Concept32.Proofs.Channels.Instructions
import Concept32.Proofs.Hardware.Parts
import Concept32.Proofs.Instructions.Kinds

/-!
# What instructions do to the channels

An instruction reaches the channels only through the calls that there are for it, so what each of these keeps every
instruction keeps. No instruction begins or ends the loading of the machine.
-/

namespace Concept32.Hardware
open EStateM
variable {δ ω α : Type}

/-- The channels before and after are related. -/
def OnChannels (R : Channels δ ω → Channels δ ω → Prop) (s s' : Hardware δ ω) : Prop := R s.channels s'.channels

section
variable {R : Channels δ ω → Channels δ ω → Prop}

instance [Std.Refl R] : Std.Refl (OnChannels R) := ⟨fun s => Std.Refl.refl s.channels⟩

instance [Trans R R R] : Trans (OnChannels R) (OnChannels R) (OnChannels R) where
  trans h h' := (Trans.trans h h' : R _ _)

theorem related_onCore [Std.Refl R] {ε : Type} {x : EStateM ε Core α} : Moves (OnChannels R) (onCore x) :=
  moves_onCore fun _ _ channels => (Std.Refl.refl channels : R channels channels)

end

variable [Peripheral δ ω] {now : Nat}

/-! ### Instructions for levels, devices and channels -/

section
variable {R : Hardware δ ω → Hardware δ ω → Prop} {o : Operand}

/-- The parts of an instruction for a level, a device or a channel relate the hardware before and after them. -/
structure Permits (now : Nat) (R : Hardware δ ω → Hardware δ ω → Prop) : Prop where
  computing : ∀ {α : Type} {x : Concept32.Exec α}, Concept32.Exec.Computing α x → Moves R (onCore x)
  switching : ∀ {f : Cpu → Cpu}, (∀ c, Cpu.Switches c (f c)) → Moves R (onCore (Concept32.Exec.modifyCpu f))
  startIo : ∀ a first, Moves R (onChannelsAndMemory fun c mem => c.startIo now mem a first : Exec δ ω IoCondition)
  testIo : ∀ a block, Moves R (onChannelsAndMemory fun c mem => c.testIo now mem a block : Exec δ ω IoCondition)
  stopIo : ∀ a, Moves R (onChannels fun c => c.stopIo a : Exec δ ω IoCondition)
  haltIo : ∀ a, Moves R (onChannels fun c => c.haltIo now a : Exec δ ω IoCondition)
  grabIo : ∀ a, Moves R (onChannels fun c => (c.grabIo a, c) : Exec δ ω IoCondition)
  resetChannel : ∀ n, Moves R (onChannels fun c => c.resetChannel n : Exec δ ω IoCondition)
  resetController : ∀ a, Moves R (onChannels fun c => c.resetController now a : Exec δ ω IoCondition)
  testDevice : ∀ a command, Moves R (onChannels fun c => c.testDevice now a command : Exec δ ω IoCondition)
  commandDevice : ∀ a command, Moves R (onChannels fun c => c.commandDevice now a command : Exec δ ω IoCondition)

/-- A part that is a computation. -/
theorem Permits.compute (h : Permits now R) {x : Concept32.Exec α} [hx : Concept32.Exec.Of Concept32.Exec.Computing x] :
    Moves R (onCore x) := h.computing hx.holds

instance {K : (α : Type) → Concept32.Exec α → Prop} [Concept32.Exec.Kind K] :
    Concept32.Exec.Of K (channelOperand o) := by
  rw [channelOperand]
  infer_instance

variable [Std.Refl R] [Trans R R R]

theorem moves_channelInstruction (h : Permits now R) : Moves R (channelInstruction now o) := by
  have hblock : ∀ level, Concept32.Exec.Computing (Option Word) fun core =>
      .ok (core.cpu.levelBlock? core.memory level) core := fun _ => ⟨fun h => by cases h; exact .refl, fun h => by cases h⟩
  rw [channelInstruction]
  refine .bind h.compute fun ⟨_, _⟩ => .bind h.compute fun entry => ?_
  dsimp only
  split
  · exact .throw _
  refine .bind (h.computing (hblock _)) fun block => ?_
  split
  · exact .throw _
  have hcodes : ∀ condition : IoCondition, Moves R
      (do onCore (Concept32.Exec.setCodes condition.codes); return Flow.next : Exec δ ω Flow) :=
    fun _ => .bind h.compute fun _ => .pure _
  have hlevel : ∀ {f : Cpu → Cpu}, (∀ c, Cpu.Switches c (f c)) → Moves R
      (do onCore (Concept32.Exec.modifyCpu f); return IoCondition.accepted : Exec δ ω IoCondition) :=
    fun hf => .bind (h.switching hf) fun _ => .pure _
  split
  · exact .bind h.compute fun _ => .bind (h.startIo _ _) hcodes
  · exact .bind (h.testIo _ _) hcodes
  · exact .bind (h.stopIo _) hcodes
  · exact .bind (h.resetChannel _) hcodes
  · exact .bind (h.haltIo _) hcodes
  · exact .bind (h.grabIo _) hcodes
  · exact .bind (h.resetController _) hcodes
  · exact .bind (hlevel fun _ => .enable _) hcodes
  · exact .bind (hlevel fun _ => .disable _) hcodes
  · exact .bind (hlevel fun _ => .activate _) hcodes
  · exact .bind (hlevel fun _ => .deactivate _) hcodes
  · exact .throw _

theorem moves_classECommand (h : Permits now R) {logicalChannel : Byte} {isTest : Bool} :
    Moves R (classECommand now o logicalChannel isTest) := by
  rw [classECommand]
  refine .bind h.compute fun entry => ?_
  dsimp only
  split
  · exact .pure _
  · split
    · exact h.testDevice _ _
    · exact h.commandDevice _ _

theorem moves_ioInstruction (h : Permits now R) : Moves R (ioInstruction now o) := by
  rw [ioInstruction]
  refine .bind h.compute fun _ => ?_
  have hlevel : ∀ {f : Cpu → Cpu}, (∀ c, Cpu.Switches c (f c)) → Moves R
      (do onCore (Concept32.Exec.modifyCpu f); return Flow.next : Exec δ ω Flow) :=
    fun hf => .bind (h.switching hf) fun _ => .pure _
  have hcommand : ∀ isTest : Bool, Moves R (do
      let condition ← classECommand now o ((o.instruction.bits.extractLsb' 19 7).setWidth 8) isTest
      onCore (Concept32.Exec.setCodes condition.codes)
      return Flow.next : Exec δ ω Flow) :=
    fun _ => .bind (moves_classECommand h) fun _ => .bind h.compute fun _ => .pure _
  dsimp only
  split
  · exact hlevel fun _ => .enable _
  · exact hlevel fun _ => .disable _
  · exact hlevel fun _ => .request _
  · exact hlevel fun _ => .activate _
  · exact hlevel fun _ => .deactivate _
  · exact hcommand true
  · exact hcommand false
  · exact moves_channelInstruction h

end

/-! ### Instructions that reach the channels -/

/-- Every call by which an instruction reaches the channels relates them before and after it. -/
structure Instructs (now : Nat) (R : Channels δ ω → Channels δ ω → Prop) : Prop where
  startIo : ∀ c mem a first, R c (c.startIo now mem a first).2.1
  testIo : ∀ c mem a block, R c (c.testIo now mem a block).2.1
  stopIo : ∀ c a, R c (c.stopIo a).2
  haltIo : ∀ c a, R c (c.haltIo now a).2
  resetChannel : ∀ c n, R c (c.resetChannel n).2
  resetController : ∀ c a, R c (c.resetController now a).2
  testDevice : ∀ c a command, R c (c.testDevice now a command).2
  commandDevice : ∀ c a command, R c (c.commandDevice now a command).2

section
variable {R : Channels δ ω → Channels δ ω → Prop} [Std.Refl R] [Trans R R R]

theorem related_ioInstruction (h : Instructs now R) {o : Operand} :
    Moves (OnChannels R) (ioInstruction now o) :=
  moves_ioInstruction {
    computing := fun _ => related_onCore
    switching := fun _ => related_onCore
    startIo := fun _ _ => moves_onChannelsAndMemory fun _ mem c => h.startIo c mem _ _
    testIo := fun _ _ => moves_onChannelsAndMemory fun _ mem c => h.testIo c mem _ _
    stopIo := fun _ => moves_onChannels fun _ c => h.stopIo c _
    haltIo := fun _ => moves_onChannels fun _ c => h.haltIo c _
    grabIo := fun _ => moves_onChannels fun _ c => (Std.Refl.refl c : R c c)
    resetChannel := fun _ => moves_onChannels fun _ c => h.resetChannel c _
    resetController := fun _ => moves_onChannels fun _ c => h.resetController c _
    testDevice := fun _ _ => moves_onChannels fun _ c => h.testDevice c _ _
    commandDevice := fun _ _ => moves_onChannels fun _ c => h.commandDevice c _ _ }

theorem related_perform (h : Instructs now R) {i : Instruction} {next : Word} :
    Moves (OnChannels R) (perform now i next) := by
  rw [perform]
  refine .bind related_onCore fun _ => ?_
  split
  · exact .throw _
  · refine .bind related_onCore fun _ => ?_
    split
    · exact related_ioInstruction h
    · exact related_onCore

theorem related_dispatch (h : Instructs now R) {i : Instruction} {next : Word} :
    Moves (OnChannels R) (dispatch now i next) := by
  rw [dispatch]
  split
  · refine .bind related_onCore fun _ => ?_
    split
    · exact .throw _
    · exact related_perform h
  · exact related_perform h

/-- What every call keeps an instruction keeps. -/
theorem related_executeInstruction (h : Instructs now R) {s s' : Hardware δ ω} {duration : Nat}
    (hexecute : executeInstruction now s = .ok duration s') : R s.channels s'.channels := by
  obtain ⟨⟨cpu, memory⟩, channels⟩ := s
  have hfinish : ∀ {x : Delivery Unit} {y : EStateM TrapHalt (Hardware δ ω) Nat}, Moves (OnChannels R) y →
      Moves (OnChannels R) (do onCore x; y) := fun hy => .bind related_onCore fun _ => hy
  have hremember : ∀ before i, Moves (OnChannels R) (do
      onCore (Delivery.modifyCpu (remember before i))
      let indirections := (← get).core.cpu.indirections
      return Timing.instruction i before.based indirections : EStateM TrapHalt (Hardware δ ω) Nat) :=
    fun _ _ => .bind related_onCore fun _ =>
      .bind ⟨fun h => by cases h; exact Std.Refl.refl _, fun h => by cases h⟩ fun _ => .pure _
  rw [executeInstruction] at hexecute
  dsimp only at hexecute
  split at hexecute
  · have hsame := (hfinish (.pure _)).ok hexecute
    exact hsame
  · split at hexecute
    · next flow s heq =>
      exact (Trans.trans ((related_dispatch h).ok heq) ((hfinish (hremember _ _)).ok hexecute) : R _ _)
    · next t s heq =>
      exact (Trans.trans ((related_dispatch h).error heq) ((hfinish (hremember _ _)).ok hexecute) : R _ _)

end

/-! ### Loading -/

theorem instructs_loading : Instructs now (Keeps (Channels.loading : Channels δ ω → _)) where
  startIo _ _ _ _ := Channels.loading_startIo
  testIo _ _ _ _ := Channels.loading_testIo
  stopIo _ _ := Channels.loading_stopIo
  haltIo _ _ := Channels.loading_haltIo
  resetChannel _ _ := Channels.loading_resetChannel
  resetController _ _ := Channels.loading_resetDevice
  testDevice _ _ _ := Channels.loading_testDevice
  commandDevice _ _ _ := Channels.loading_commandDevice

/-- No instruction begins or ends the loading of the machine. -/
theorem sameLoading_executeInstruction {s s' : Hardware δ ω} {duration : Nat}
    (h : executeInstruction now s = .ok duration s') : s'.channels.loading = s.channels.loading :=
  related_executeInstruction instructs_loading h

end Concept32.Hardware
