import Concept32.Proofs.Delivery
import Concept32.Proofs.Hardware.Traps

/-!
# Unprivileged programs are confined

One instruction of an unprivileged program either completes inside the program's rights, or passes control through
a context block that the trap table leads to, or halts the machine. It never becomes privileged by itself, and it
never reaches the channels.
-/

namespace Concept32

namespace Core
variable {s s' s'' : Core} {flow : Flow}

/-- An instruction completed inside the rights of its program, or it called the supervisor. -/
def Completes (flow : Flow) (s s' : Core) : Prop :=
  ((flow = .next ∨ ∃ a, flow = .jump a) ∧ Confined s s') ∨ (flow = .loaded ∧ ∃ mid, Confined s mid ∧ Enters mid s')

/-- An instruction trapped; before that it stayed inside the rights of its program, but may have begun to call the
supervisor. -/
def Traps (s s' : Core) : Prop := ∃ mid, Confined s mid ∧ Abandons mid s'

/-- Control has passed to the supervisor, after the instruction did something inside the rights of its program and may
have begun to pass control otherwise. -/
def Delivers (s s' : Core) : Prop := ∃ mid mid', Confined s mid ∧ Abandons mid mid' ∧ Enters mid' s'

/-- The machine has halted because control could not pass to the supervisor. -/
def Halts (s s' : Core) : Prop :=
  s'.cpu.mode = .halted ∧ ∃ mid mid', Confined s mid ∧ Abandons mid mid' ∧
    (s'.memory = mid'.memory ∨ ∃ block, Handler mid' block ∧ SavesInto block mid' s')

theorem Completes.of_same (h : Same s s') (hp : s.cpu.psd.privileged = false) (h' : Completes flow s' s'') :
    Completes flow s s'' := by
  rcases h' with ⟨hflow, hconfined⟩ | ⟨hflow, mid, hconfined, henters⟩
  · exact .inl ⟨hflow, (h.permitted hp).trans hconfined⟩
  · exact .inr ⟨hflow, mid, (h.permitted hp).trans hconfined, henters⟩

theorem Traps.of_same (h : Same s s') (hp : s.cpu.psd.privileged = false) (h' : Traps s' s'') : Traps s s'' := by
  obtain ⟨mid, hconfined, habandons⟩ := h'
  exact ⟨mid, (h.permitted hp).trans hconfined, habandons⟩

end Core

namespace Hardware
open Concept32.Core EStateM
variable {δ ω α : Type} {s s' : Hardware δ ω} {i : Instruction} {next : Word} {flow : Flow} {now : Nat}

/-- An instruction of an unprivileged program completed, and the channels are as they were. -/
def Completes (flow : Flow) (s s' : Hardware δ ω) : Prop :=
  s.core.cpu.psd.privileged = false → OnCore (Core.Completes flow) s s'

/-- An instruction of an unprivileged program trapped, and the channels are as they were. -/
def Traps (s s' : Hardware δ ω) : Prop := s.core.cpu.psd.privileged = false → OnCore Core.Traps s s'

instance : Std.Refl (@Traps δ ω) := ⟨fun s hp => ⟨⟨s.core, .refl hp, .inl rfl⟩, rfl⟩⟩

instance : Trans (@OnCore δ ω Same) (Completes flow) (Completes flow) where
  trans h h' hp :=
    have hrest := h' ((h.1.permitted hp).privileged)
    ⟨hrest.1.of_same h.1 hp, hrest.2.trans h.2⟩

instance : Trans (@OnCore δ ω Same) Traps Traps where
  trans h h' hp :=
    have hrest := h' ((h.1.permitted hp).privileged)
    ⟨hrest.1.of_same h.1 hp, hrest.2.trans h.2⟩

theorem ends_reads {x : Concept32.Exec α} (h : Concept32.Exec.Reads x) :
    Ends (fun _ => @OnCore δ ω Same) Traps (onCore x) :=
  (ends_onCore h).mono (fun _ _ _ => id) fun _ _ hs hp => ⟨⟨_, hs.1.permitted hp, .inl rfl⟩, hs.2⟩

/-! ### Parts of an instruction -/

theorem ends_perform_core {opcode : Opcode} {o : Operand} :
    Ends (@Completes δ ω) Traps (onCore (Concept32.Exec.perform opcode o)) := by
  have hcall : ∀ (index : Nat) (number : Word), index < 16 →
      Ends (@Completes δ ω) Traps (onCore (Concept32.Exec.callSupervisor index number o.next)) :=
    fun _ _ hindex => (ends_onCore (Concept32.Exec.ends_callSupervisor hindex)).mono
      (fun _ s _ h hp => ⟨.inr ⟨h.1.1, s.core, .refl hp, h.1.2⟩, h.2⟩)
      fun s _ h hp => ⟨⟨s.core, .refl hp, h.1⟩, h.2⟩
  by_cases hsupervisor : Concept32.Exec.callsSupervisor opcode o
  · rcases hsupervisor with rfl | ⟨rfl, haugment⟩
    · exact hcall _ _ (by decide)
    · rw [Concept32.Exec.perform, Concept32.Exec.immediateGroup, haugment]
      exact hcall _ _ (BitVec.isLt _)
  · exact (ends_onCore (Concept32.Exec.obeys_perform hsupervisor)).mono
      (fun _ _ _ h hp => ⟨.inl (h.1 hp), h.2⟩) fun _ _ h hp => ⟨⟨_, h.1 hp, .inl rfl⟩, h.2⟩

/-! ### After the instruction -/

/-- What an instruction of an unprivileged program does as a whole, if the machine goes on. -/
def GoesOn (s s' : Hardware δ ω) : Prop :=
  s'.channels = s.channels ∧ (Confined s.core s'.core ∨ Delivers s.core s'.core)

theorem GoesOn.remember (h : s.GoesOn s') (before : Psd) (i : Instruction) :
    s.GoesOn ⟨⟨remember before i s'.core.cpu, s'.core.memory⟩, s'.channels⟩ := by
  obtain ⟨hchannels, hconfined | ⟨mid, mid', hmid, habandons, block, hhandler, hsaves, hruns⟩⟩ := h
  · exact ⟨hchannels, .inl ⟨hconfined.privileged, hconfined.word2, hconfined.scratchpad, hconfined.levels,
      hconfined.map, hconfined.protect, hconfined.mode, hconfined.size, hconfined.memory⟩⟩
  · exact ⟨hchannels, .inr ⟨mid, mid', hmid, habandons, block, hhandler,
      ⟨hsaves.trapTable, hsaves.size, hsaves.memory⟩, hruns⟩⟩

theorem GoesOn.proceed (h : OnCore (Core.Completes flow) s s') :
    s.GoesOn ⟨⟨proceed flow next s'.core.cpu, s'.core.memory⟩, s'.channels⟩ := by
  obtain ⟨⟨rfl | ⟨a, rfl⟩, hconfined⟩ | ⟨rfl, mid, hmid, henters⟩, hchannels⟩ := h
  · exact ⟨hchannels, .inl ⟨Psd.privileged_withAddress.trans hconfined.privileged, hconfined.word2, hconfined.scratchpad,
      hconfined.levels, hconfined.map, hconfined.protect, hconfined.mode, hconfined.size, hconfined.memory⟩⟩
  · exact ⟨hchannels, .inl ⟨Psd.privileged_withAddress.trans hconfined.privileged, hconfined.word2, hconfined.scratchpad,
      hconfined.levels, hconfined.map, hconfined.protect, hconfined.mode, hconfined.size, hconfined.memory⟩⟩
  · exact ⟨hchannels, .inr ⟨mid, mid, hmid, .inl rfl, henters⟩⟩

/-- How an instruction of an unprivileged program ends: the machine goes on or halts. -/
def Outcome (s : Hardware δ ω) : Result TrapHalt (Hardware δ ω) Nat → Prop
  | .ok _ s' => s.GoesOn s'
  | .error _ s' => s'.channels = s.channels ∧ Halts s.core s'.core

theorem outcome_takeTrap {t : Trap} {resume : Word} {x : EStateM TrapHalt (Hardware δ ω) Nat}
    (h : OnCore Core.Traps s s') (hx : ∀ u, s.GoesOn u → s.Outcome (x u)) :
    s.Outcome ((do onCore (Delivery.takeTrap now t resume); x : EStateM TrapHalt (Hardware δ ω) Nat) s') := by
  obtain ⟨⟨mid, hmid, habandons⟩, hchannels⟩ := h
  cases htake : onCore (Delivery.takeTrap now t resume) s' with
  | ok _ u =>
    obtain ⟨hsame, htrap⟩ := onCore_eq_ok htake
    rw [bind_of_ok htake]
    exact hx u ⟨hsame.trans hchannels, .inr ⟨mid, _, hmid, habandons, Delivery.takeTrap_eq_ok htrap⟩⟩
  | error e u =>
    obtain ⟨hsame, htrap⟩ := onCore_eq_error htake
    obtain ⟨hmode, hmemory⟩ := Delivery.takeTrap_eq_error htrap
    rw [bind_of_error htake]
    exact ⟨hsame.trans hchannels, hmode, mid, _, hmid, habandons, hmemory⟩

/-! ### Carrying out an instruction -/

variable [Peripheral δ ω]

theorem ends_perform : Ends (@Completes δ ω) Traps (perform now i next) := by
  rw [perform]
  refine .bind (ends_reads Concept32.Exec.ends_ask) fun _ => ?_
  split
  · exact .throw
  · refine .bind (ends_reads Concept32.Exec.reads_operandOf) fun o => ?_
    split
    · exact guarded_ioInstruction.mono (fun _ _ _ h hp => by rw [hp] at h; cases h)
        fun _ _ h hp => ⟨⟨_, h.1.permitted hp, .inl rfl⟩, h.2⟩
    · exact ends_perform_core

theorem ends_dispatch : Ends (@Completes δ ω) Traps (dispatch now i next) := by
  rw [dispatch]
  split
  · refine .bind (ends_reads Concept32.Exec.reads_executeTarget) fun _ => ?_
    split
    · exact .throw
    · exact ends_perform
  · exact ends_perform

/-- An instruction of an unprivileged program stays inside its rights or passes control through a context block; if
it cannot do that the machine halts. -/
theorem executeInstruction_unprivileged (now : Nat) (hp : s.core.cpu.psd.privileged = false) :
    match executeInstruction now s with
    | .ok _ s' => s'.channels = s.channels ∧ (Confined s.core s'.core ∨ Delivers s.core s'.core)
    | .error _ s' => s'.channels = s.channels ∧ Halts s.core s'.core := by
  obtain ⟨⟨cpu, memory⟩, channels⟩ := s
  have hstart : Same ⟨cpu, memory⟩ ⟨{ cpu with indirections := 0 }, memory⟩ := ⟨cpu.faultAddress, 0, rfl⟩
  show Outcome _ (executeInstruction now _)
  rw [executeInstruction]
  dsimp only
  cases hfetch : fetch ⟨{ cpu with indirections := 0 }, memory⟩ with
  | error t core =>
    have hsame : Same ⟨cpu, memory⟩ core := Trans.trans hstart (reads_fetch.error hfetch)
    exact outcome_takeTrap ⟨⟨core, hsame.permitted hp, .inl rfl⟩, rfl⟩ fun _ h => h
  | ok found core =>
    obtain ⟨i, next⟩ := found
    have hsame : Same ⟨cpu, memory⟩ core := Trans.trans hstart (reads_fetch.ok hfetch)
    have hread : OnCore Same ⟨⟨cpu, memory⟩, channels⟩ ⟨core, channels⟩ := ⟨hsame, rfl⟩
    dsimp only
    cases hdispatch : dispatch now i next ⟨core, channels⟩ with
    | ok flow u =>
      have hcompletes : Completes flow ⟨⟨cpu, memory⟩, channels⟩ u := Trans.trans hread (ends_dispatch.ok hdispatch)
      have hproceed : GoesOn _ ⟨⟨proceed flow next u.core.cpu, u.core.memory⟩, u.channels⟩ :=
        GoesOn.proceed (hcompletes hp)
      exact hproceed.remember cpu.psd i
    | error t u =>
      have htraps : Traps ⟨⟨cpu, memory⟩, channels⟩ u := Trans.trans hread (ends_dispatch.error hdispatch)
      exact outcome_takeTrap (htraps hp) fun _ h => h.remember cpu.psd i

/-- An unprivileged program of one instruction, which stores general register 0 into the word after it. -/
def storing : Hardware StandardDevice Char :=
  ⟨⟨{ Cpu.initial .c3227 0 with psd := ⟨0, 0⟩ }, ⟨#[0xD4000004#32, 0xFFFFFFFF#32], by decide⟩⟩, .empty⟩

theorem executeInstruction_unprivileged_storing :
    storing.core.cpu.psd.privileged = false ∧ ∃ duration s', executeInstruction 0 storing = .ok duration s' ∧
      s'.core.memory.words = #[0xD4000004#32, 0] ∧ s'.channels = storing.channels ∧
        (Confined storing.core s'.core ∨ Delivers storing.core s'.core) := by
  have hp : storing.core.cpu.psd.privileged = false := rfl
  have houtcome : storing.Outcome (executeInstruction 0 storing) := executeInstruction_unprivileged 0 hp
  exact ⟨hp, _, _, rfl, rfl, houtcome⟩

end Hardware
end Concept32
