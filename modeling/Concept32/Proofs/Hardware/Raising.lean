import Concept32.Proofs.Hardware.Traps
import Concept32.Proofs.Instructions.Raising

/-!
# Which traps are raised, and where

Whatever goes wrong in an instruction that does not call the supervisor, at its fetch, in an execute instruction or at
the channels, the trap says what is wrong, and the processor and the channels are as they were when the instruction
began.
-/

namespace Concept32

/-- The instruction calls the supervisor: SVC or CALM. -/
def Instruction.callsSupervisor (i : Instruction) (based : Bool) : Prop :=
  i.opcode? based = some .calm ∨ (i.opcode? based = some .imm ∧ i.augment = 6)

namespace Hardware
open Concept32.Core Concept32.Exec EStateM
variable {δ ω α : Type} {s s' : Hardware δ ω} {core core' : Core} {i : Instruction} {next : Word} {o : Operand} {t : Trap}
  {now : Nat}

/-- Every trap that the step of the hardware raises says what is wrong. -/
abbrev Explains (x : Exec δ ω α) : Prop := Fails (fun t s => Explained t s.core) x

/-! ### Steps that can fail by themselves -/

theorem explained_of_error {x : Exec δ ω α} [h : Explains x] (hx : x s = .error t s') : Explained t s'.core :=
  h.of_error hx

instance {x : Concept32.Exec α} [h : Concept32.Exec.Explains x] : Explains (onCore x : Exec δ ω α) where
  of_error hx := h.of_error (onCore_eq_error hx).2

instance {f : Channels δ ω → α × Channels δ ω} : Explains (onChannels f : Exec δ ω α) := ⟨fun h => by cases h⟩

instance {f : Channels δ ω → Memory → α × Channels δ ω × Memory} : Explains (onChannelsAndMemory f : Exec δ ω α) :=
  ⟨fun h => by cases h⟩

instance [t.Plain] : Explains (throw t : Exec δ ω α) := ⟨fun h => by cases h; exact .of_plain⟩

/-! ### Fetching -/

instance : Concept32.Exec.Explains fetch := by
  rw [fetch]
  infer_instance

instance : Concept32.Exec.Explains (executeTarget i next) := by
  have hread : ∀ o : Operand, Concept32.Exec.Explains (do
      match o.field with
      | .leftHalf | .rightHalf => return .ofHalf (← Concept32.Exec.readHalf o.operandAddress)
      | .word => return ⟨← Concept32.Exec.readWord o.address .read⟩
      | .byte _ | .double => throw .addressSpecification : Concept32.Exec Instruction) := fun o => by
    split <;> infer_instance
  rw [executeTarget]
  infer_instance

/-! ### Instructions for channels -/

instance : Concept32.Exec.Explains (channelOperand o) := by rw [channelOperand]; infer_instance

variable [Peripheral δ ω]

instance {logicalChannel : Byte} {isTest : Bool} : Explains (classECommand now o logicalChannel isTest : Exec δ ω _) := by
  rw [classECommand]
  infer_instance

instance : Explains (channelInstruction now o : Exec δ ω Flow) := by
  rw [channelInstruction]
  refine .andThen fun ⟨_, _⟩ => .andThen fun entry => ?_
  dsimp only
  split
  · exact ⟨fun h => by cases h; exact .of_plain⟩
  have hblock : Explains (onCore fun core => .ok (core.cpu.levelBlock? core.memory entry.level) core :
      Exec δ ω (Option Word)) := ⟨fun h => by cases h⟩
  refine .andThen fun block => ?_
  split
  · infer_instance
  · split <;> infer_instance

instance : Explains (ioInstruction now o : Exec δ ω Flow) := by
  rw [ioInstruction]
  refine .andThen fun _ => ?_
  dsimp only
  split <;> infer_instance

/-! ### Carrying out an instruction -/

theorem callsSupervisor_of_operandOf {format : Format} (ho : Concept32.Exec.operandOf i format next core = .ok o core')
    {based : Bool} {opcode : Opcode} (hopcode : i.opcode? based = some opcode)
    (h : Concept32.Exec.callsSupervisor opcode o) : i.callsSupervisor based := by
  rcases h with rfl | ⟨rfl, haugment⟩
  · exact .inl hopcode
  · rw [Operand.augment, Concept32.Exec.operandOf_instruction ho] at haugment
    exact .inr ⟨hopcode, haugment⟩

theorem perform_raises (h : perform now i next s = .error t s') (hi : ¬i.callsSupervisor s.core.cpu.psd.based) :
    Explained t s'.core ∧ OnCore Steady s s' := by
  rcases perform_eq_error h with ⟨rfl, rfl⟩ | ⟨opcode, hopcode, hx | ⟨o, u, hx, hperform⟩⟩
  · exact ⟨.of_plain, Std.Refl.refl _⟩
  · exact ⟨explained_of_error hx, (ends_onCore (steady_of_reads reads_operandOf)).error hx⟩
  · have hread : OnCore Steady s u := (ends_onCore (steady_of_reads reads_operandOf)).ok hx
    rcases hperform with hio | hcore
    · have hsame : OnCore Same u s' := guarded_ioInstruction.error hio
      have hsteady : OnCore Steady u s' := ⟨hsame.1.steady, hsame.2⟩
      exact ⟨explained_of_error hio, Trans.trans hread hsteady⟩
    · have hnot : ¬callsSupervisor opcode o := fun hcalls =>
        hi (callsSupervisor_of_operandOf (onCore_eq_ok hx).2 hopcode hcalls)
      have hexplains : Concept32.Exec.Explains (Concept32.Exec.perform opcode o) := explains_perform hnot
      exact ⟨explained_of_error hcore, Trans.trans hread ((ends_onCore (steady_perform hnot)).error hcore)⟩

/-- An instruction that traps without calling the supervisor, by itself or through an execute instruction. -/
theorem dispatch_raises (h : dispatch now i next s = .error t s')
    (hi : ∀ target, carriedOut? i next s.core = some target → ¬target.callsSupervisor s.core.cpu.psd.based) :
    Explained t s'.core ∧ OnCore Steady s s' := by
  rw [dispatch] at h
  rw [carriedOut?] at hi
  split at h
  · next hexecute =>
    rw [if_pos hexecute] at hi
    obtain hx | ⟨target, u, hx, hperform⟩ := bind_eq_error.mp h
    · exact ⟨explained_of_error hx, (ends_onCore (steady_of_reads reads_executeTarget)).error hx⟩
    have hread : OnCore Steady s u := (ends_onCore (steady_of_reads reads_executeTarget)).ok hx
    rw [(onCore_eq_ok hx).2] at hi
    split at hperform
    · cases hperform
      exact ⟨.of_plain, hread⟩
    · have hbased : u.core.cpu.psd.based = s.core.cpu.psd.based := by
        obtain ⟨⟨_, _, hcpu⟩, -⟩ := hread
        rw [hcpu]
      obtain ⟨hexplained, hsteady⟩ := perform_raises hperform (hbased ▸ hi target rfl)
      exact ⟨hexplained, Trans.trans hread hsteady⟩
  · next hexecute =>
    rw [if_neg hexecute] at hi
    exact perform_raises h (hi i rfl)

theorem fetch_raises (h : fetch core = .error t core') : Explained t core' ∧ Same core core' :=
  ⟨Fails.of_error h, reads_fetch.error h⟩

end Hardware
end Concept32
