import Concept32.Device.Standard
import Concept32.Hardware.Execute
import Concept32.Proofs.Hardware.Parts
import Concept32.Proofs.Instructions.Dispatch

/-!
# An instruction that traps does nothing

An instruction that raises a trap leaves the registers, the status doubleword, the scratchpad, the interrupt levels,
the map, memory and the channels as they were, unless it is one of the few that store several words one after the
other.
-/

namespace Concept32

/-- The instructions that store several words one after the other, STF, CALL, CALLM, SVC and CALM; they may trap when
some of the words are stored. -/
def Instruction.storesInSteps (i : Instruction) (based : Bool) : Prop :=
  match i.opcode? based with
  | some .stf | some .calm => True
  | some .reg => based = true ∧ i.augment = 8
  | some .lwbr => i.fBit = true ∧ i.register.val = 1
  | some .imm => i.augment = 6
  | _ => False

namespace Exec
open Concept32.Core EStateM
variable {i : Instruction} {next : Word} {format : Format} {o : Operand} {s s' : Core} {t : Trap}

/-! ### The operand keeps the instruction -/

theorem resolve_eq_ok {isIndexed : Bool} (h : resolve i isIndexed next s = .ok o s') :
    o.instruction = i ∧ o.next = next ∧ (s.cpu.psd.based = true → o.fBit = i.fBit) := by
  have hsum : ∀ (mask index : Word) (b : RegisterNumber),
      Answers (fun o => o.instruction = i ∧ o.next = next ∧ o.fBit = i.fBit) (do
        let origin ← if b.val ≠ 0 then base b else pure 0
        let address := (i.displacement + index + origin) &&& mask
        return (⟨i, address, i.fBit, .decode i.fBit address, none, next⟩ : Operand) : Exec Operand) := fun _ _ _ => by
    split
    · exact .bind fun _ => .pure ⟨rfl, rfl, rfl⟩
    · exact .bind fun _ => .pure ⟨rfl, rfl, rfl⟩
  rw [resolve] at h
  obtain ⟨based, u, hx, h⟩ := bind_eq_ok.mp h
  cases hx
  split at h
  · have hanswers : o.instruction = i ∧ o.next = next ∧ o.fBit = i.fBit := by
      refine Answers.of_ok (P := fun o => o.instruction = i ∧ o.next = next ∧ o.fBit = i.fBit) h (.bind fun _ => ?_)
      dsimp only
      split
      · exact .bind fun _ => hsum _ _ _
      · exact .bind fun _ => hsum _ _ _
    exact ⟨hanswers.1, hanswers.2.1, fun _ => hanswers.2.2⟩
  · next hbased =>
    have hanswers : o.instruction = i ∧ o.next = next :=
      Answers.of_ok (P := fun o => o.instruction = i ∧ o.next = next) h (.bind fun _ => .bind fun _ => .pure ⟨rfl, rfl⟩)
    exact ⟨hanswers.1, hanswers.2, fun h => absurd h hbased⟩

theorem operandOf_instruction (h : operandOf i format next s = .ok o s') : o.instruction = i := by
  cases format with
  | halfword => cases h; rfl
  | immediate => cases h; rfl
  | memory => exact (resolve_eq_ok h).1
  | memoryNoIndex => exact (resolve_eq_ok h).1

theorem operandOf_next (h : operandOf i format next s = .ok o s') : o.next = next := by
  cases format with
  | halfword => cases h; rfl
  | immediate => cases h; rfl
  | memory => exact (resolve_eq_ok h).2.1
  | memoryNoIndex => exact (resolve_eq_ok h).2.1

/-- Only with base registers is there an opcode for calls through memory. -/
theorem based_of_lwbr {based : Bool} (h : i.opcode? based = some .lwbr) : based = true := by
  have hnone : ∀ n : Fin 64, Opcode.nonBasedTable.get n ≠ some .lwbr := by decide
  cases based with
  | false => exact absurd h (hnone _)
  | true => rfl

/-- Without base registers there is no call through the register group. -/
theorem same_registerGroup (h : registerGroup o s = .error t s') (hbased : s.cpu.psd.based = false)
    (haugment : o.augment = 8) : Same s s' := by
  obtain hx | ⟨based, u, hx, hgroup⟩ := bind_eq_error.mp h
  · cases hx
  · have hvalue : based = false ∧ u = s := by cases hx; exact ⟨hbased, rfl⟩
    obtain ⟨rfl, rfl⟩ := hvalue
    rw [haugment] at hgroup
    cases hgroup
    exact Std.Refl.refl _

theorem same_perform {opcode : Opcode} (hopcode : i.opcode? s.cpu.psd.based = some opcode)
    (hi : ¬i.storesInSteps s.cpu.psd.based) {u : Core} (ho : operandOf i opcode.format next s = .ok o u)
    (h : perform opcode o u = .error t s') : Same u s' := by
  have hinstruction := operandOf_instruction ho
  obtain ⟨_, _, rfl⟩ := reads_operandOf.ok ho
  rw [Instruction.storesInSteps, hopcode] at hi
  by_cases hsteps : storesInSteps opcode o
  · cases opcode with
    | stf | calm => exact absurd trivial hi
    | reg =>
      have haugment : o.augment = 8 := hsteps
      rw [Operand.augment, hinstruction] at haugment
      exact same_registerGroup h (Bool.eq_false_iff.mpr fun hbased => hi ⟨hbased, haugment⟩) hsteps
    | lwbr =>
      obtain ⟨hfBit, hregister⟩ := hsteps
      have hbased : s.cpu.psd.based = true := based_of_lwbr hopcode
      rw [(resolve_eq_ok ho).2.2 hbased] at hfBit
      rw [Operand.register, hinstruction] at hregister
      exact absurd ⟨hfBit, hregister⟩ hi
    | imm =>
      have haugment : o.augment = 6 := hsteps
      rw [Operand.augment, hinstruction] at haugment
      exact absurd haugment hi
    | _ => exact absurd hsteps id
  · exact (commits_perform hsteps).error h

theorem reads_executeTarget : Reads (Hardware.executeTarget i next) := by
  rw [Hardware.executeTarget]
  split
  · refine .bind reads_operandOf fun _ => ?_
    split
    · exact .bind reads_readHalf fun _ => .pure
    · exact .bind reads_readHalf fun _ => .pure
    · exact .bind reads_readWord fun _ => .pure
    · exact .throw
    · exact .throw
  · refine .bind ends_ask fun _ => ?_
    split
    · exact .pure
    · exact .bind ends_ask fun _ => .pure

end Exec

namespace Hardware
open Concept32.Core EStateM
variable {δ ω α β : Type} {s s' : Hardware δ ω} {i : Instruction} {next : Word} {t : Trap} {now : Nat}

/-! ### Channel instructions -/

section
variable [Peripheral δ ω] {o : Operand}

/-- An instruction for a channel has read all it needs before it reaches the channel. -/
theorem anyhow_channelInstruction :
    Ends (fun _ => Anyhow) (OnCore Same) (channelInstruction now o : Exec δ ω Flow) := by
  have hoperand : Exec.Reads (channelOperand o) := by
    rw [channelOperand]
    dsimp only
    split
    · exact .bind (Q := Same) .pure fun _ => .pure
    · exact .bind Concept32.Exec.ends_ask fun _ => .pure
  rw [channelInstruction]
  refine .bind (ends_onCore hoperand) fun operand => ?_
  obtain ⟨_, _⟩ := operand
  refine .bind (ends_onCore Concept32.Exec.ends_ask) fun entry => ?_
  dsimp only
  split
  · exact .throw
  have hblock : Exec.Reads fun core : Core => .ok (core.cpu.levelBlock? core.memory entry.level) core :=
    ⟨fun h => by cases h; exact Std.Refl.refl _, fun h => by cases h⟩
  refine .bind (ends_onCore hblock) fun block => ?_
  split
  · exact .throw
  have hcodes : ∀ condition : IoCondition, Ends (fun _ => Anyhow) Never
      (do onCore (Concept32.Exec.setCodes condition.codes); return Flow.next : Exec δ ω Flow) := fun _ =>
    .finish (anyhow_onCore (Concept32.Exec.ends_setCodes.mono (fun _ _ _ _ => trivial) fun _ _ => id)) fun _ => .pure
  have hlevel : ∀ f : Cpu → Cpu, Ends (fun _ => Anyhow) (OnCore Same)
      (do onCore (Concept32.Exec.modifyCpu f); return IoCondition.accepted : Exec δ ω IoCondition) := fun _ =>
    (Ends.finish (anyhow_onCore Concept32.Exec.anyhow_modifyCpu) fun _ => .pure).mono (fun _ _ _ => id)
      fun _ _ => False.elim
  split
  · exact .bind (ends_onCore Concept32.Exec.reads_fromMemory) fun _ => .finish anyhow_onChannelsAndMemory hcodes
  · exact .finish anyhow_onChannelsAndMemory hcodes
  · exact .finish anyhow_onChannels hcodes
  · exact .finish anyhow_onChannels hcodes
  · exact .finish anyhow_onChannels hcodes
  · exact .finish anyhow_onChannels hcodes
  · exact .finish anyhow_onChannels hcodes
  · exact .finish (hlevel _) hcodes
  · exact .finish (hlevel _) hcodes
  · exact .finish (hlevel _) hcodes
  · exact .finish (hlevel _) hcodes
  · exact .throw

theorem guarded_ioInstruction :
    Ends (fun _ s _ => s.core.cpu.psd.privileged = true) (OnCore Same) (ioInstruction now o : Exec δ ω Flow) := by
  have hlevel : ∀ f : Cpu → Cpu, Ends (fun _ => Anyhow) (OnCore Same)
      (do onCore (Concept32.Exec.modifyCpu f); return Flow.next : Exec δ ω Flow) := fun _ =>
    (Ends.finish (anyhow_onCore Concept32.Exec.anyhow_modifyCpu) fun _ => .pure).mono (fun _ _ _ => id)
      fun _ _ => False.elim
  have hcommand : ∀ isTest : Bool, Ends (fun _ => Anyhow) (OnCore Same)
      (classECommand now o ((o.instruction.bits.extractLsb' 19 7).setWidth 8) isTest : Exec δ ω IoCondition) :=
    fun isTest => by
      rw [classECommand]
      refine .bind (ends_onCore Concept32.Exec.ends_ask) fun entry => ?_
      dsimp only
      split
      · exact .pure
      · split
        · exact anyhow_onChannels
        · exact anyhow_onChannels
  have hcodes : ∀ condition : IoCondition, Ends (fun _ => Anyhow) Never
      (do onCore (Concept32.Exec.setCodes condition.codes); return Flow.next : Exec δ ω Flow) := fun _ =>
    .finish (anyhow_onCore (Concept32.Exec.ends_setCodes.mono (fun _ _ _ _ => trivial) fun _ _ => id)) fun _ => .pure
  have hcheck : Ends (fun _ s s' => s.core.cpu.psd.privileged = true ∧ s' = s) (OnCore Same)
      (onCore Concept32.Exec.requirePrivileged : Exec δ ω Unit) :=
    (ends_onCore Concept32.Exec.checks_requirePrivileged).mono
      (fun _ ⟨_, _⟩ ⟨_, _⟩ ⟨⟨hp, hcore⟩, hchannels⟩ => ⟨hp, by cases hcore; cases hchannels; rfl⟩) fun _ _ => id
  rw [ioInstruction]
  refine .bind_check hcheck fun _ => ?_
  dsimp only
  split
  · exact hlevel _
  · exact hlevel _
  · exact hlevel _
  · exact hlevel _
  · exact hlevel _
  · exact .finish (hcommand true) hcodes
  · exact .finish (hcommand false) hcodes
  · exact anyhow_channelInstruction

/-! ### Fetching -/

theorem reads_fetch : Concept32.Exec.Reads fetch := by
  rw [fetch]
  refine .bind Concept32.Exec.ends_ask fun _ => ?_
  dsimp only
  refine .bind Concept32.Exec.reads_readWord fun _ => ?_
  split
  · split
    · exact .pure
    · exact .throw
  · split
    · exact .pure
    · refine .bind Concept32.Exec.ends_ask fun _ => ?_
      split
      · exact .pure
      · exact .pure

/-! ### Instructions that trap -/

/-- Where an instruction traps: it is not defined, its operand cannot be found, or it cannot be carried out. -/
theorem perform_eq_error (h : perform now i next s = .error t s') :
    (t = .undefinedInstruction ∧ s' = s) ∨ ∃ opcode, i.opcode? s.core.cpu.psd.based = some opcode ∧
      (onCore (Concept32.Exec.operandOf i opcode.format next) s = .error t s' ∨
        ∃ o u, onCore (Concept32.Exec.operandOf i opcode.format next) s = .ok o u ∧
          (ioInstruction now o u = .error t s' ∨ onCore (Concept32.Exec.perform opcode o) u = .error t s')) := by
  rw [perform] at h
  obtain hx | ⟨based, u, hx, hrest⟩ := bind_eq_error.mp h
  · cases hx
  have hvalue : based = s.core.cpu.psd.based ∧ u = s := by cases hx; exact ⟨rfl, rfl⟩
  obtain ⟨rfl, rfl⟩ := hvalue
  cases hopcode : i.opcode? u.core.cpu.psd.based with
  | none =>
    rw [hopcode] at hrest
    cases hrest
    exact .inl ⟨rfl, rfl⟩
  | some opcode =>
    rw [hopcode] at hrest
    refine .inr ⟨opcode, rfl, ?_⟩
    obtain hx | ⟨o, v, hx, hperform⟩ := bind_eq_error.mp hrest
    · exact .inl hx
    · split at hperform
      · exact .inr ⟨o, v, hx, .inl hperform⟩
      · exact .inr ⟨o, v, hx, .inr hperform⟩

theorem perform_error (h : perform now i next s = .error t s') (hi : ¬i.storesInSteps s.core.cpu.psd.based) :
    OnCore Same s s' := by
  rcases perform_eq_error h with ⟨-, rfl⟩ | ⟨opcode, hopcode, hx | ⟨o, u, hx, hperform⟩⟩
  · exact Std.Refl.refl _
  · exact (ends_onCore Concept32.Exec.reads_operandOf).error hx
  · have hread : OnCore Same s u := (ends_onCore Concept32.Exec.reads_operandOf).ok hx
    rcases hperform with hio | hcore
    · exact Trans.trans hread (guarded_ioInstruction.error hio)
    · obtain ⟨hchannels, htrap⟩ := onCore_eq_error hcore
      have hsame : OnCore Same u s' := ⟨Concept32.Exec.same_perform hopcode hi (onCore_eq_ok hx).2 htrap, hchannels⟩
      exact Trans.trans hread hsame

/-- The instruction that an instruction carries out: for an execute instruction the one that it names. -/
def carriedOut? (i : Instruction) (next : Word) (core : Core) : Option Instruction :=
  if i.isExecute then
    match executeTarget i next core with
    | .ok target _ => some target
    | .error _ _ => none
  else some i

/-- An instruction that traps leaves everything as it was but the notes that the processor keeps about it, whether
it is carried out by itself or by an execute instruction. -/
theorem dispatch_error (h : dispatch now i next s = .error t s')
    (hi : ∀ target, carriedOut? i next s.core = some target → ¬target.storesInSteps s.core.cpu.psd.based) :
    ∃ address count, s' =
      ⟨⟨{ s.core.cpu with faultAddress := address, indirections := count }, s.core.memory⟩, s.channels⟩ := by
  have hsame : OnCore Same s s' := by
    rw [dispatch] at h
    rw [carriedOut?] at hi
    split at h
    · next hexecute =>
      rw [if_pos hexecute] at hi
      obtain hx | ⟨target, u, hx, hperform⟩ := bind_eq_error.mp h
      · exact (ends_onCore Concept32.Exec.reads_executeTarget).error hx
      have hread : OnCore Same s u := (ends_onCore Concept32.Exec.reads_executeTarget).ok hx
      rw [(onCore_eq_ok hx).2] at hi
      split at hperform
      · cases hperform
        exact hread
      · have hbased : u.core.cpu.psd.based = s.core.cpu.psd.based := by
          obtain ⟨⟨_, _, hcore⟩, -⟩ := hread
          rw [hcore]
        exact Trans.trans hread (perform_error hperform (hbased ▸ hi target rfl))
    · next hexecute =>
      rw [if_neg hexecute] at hi
      exact perform_error h (hi i rfl)
  obtain ⟨⟨address, count, hcore⟩, hchannels⟩ := hsame
  exact ⟨address, count, by rw [← hcore, ← hchannels]⟩

end

/-- A machine as it is switched on. -/
def switchedOn : Hardware StandardDevice Char := .initial ⟨.c3227, .k128, 0⟩

/-- A multiplication into a pair that begins with an odd register. -/
theorem dispatch_error_oddPair :
    dispatch 0 ⟨0x40800000#32⟩ 4 switchedOn = .error .addressSpecification switchedOn ∧
      ∃ address count, switchedOn =
        ⟨⟨{ switchedOn.core.cpu with faultAddress := address, indirections := count }, switchedOn.core.memory⟩,
          switchedOn.channels⟩ := by
  have htrap : dispatch 0 ⟨0x40800000#32⟩ 4 switchedOn = .error .addressSpecification switchedOn := rfl
  have hsteps : ¬(⟨0x40800000#32⟩ : Instruction).storesInSteps switchedOn.core.cpu.psd.based := not_false
  exact ⟨htrap, dispatch_error htrap fun target h => Option.some.inj h ▸ hsteps⟩

end Hardware
end Concept32
