import Mathlib.Logic.Relation
import Concept32.Proofs.Exchange
import Concept32.Proofs.Instructions.Kinds
import Concept32.Proofs.Instructions.Raising

/-!
# How an instruction changes the processor

What an instruction does to the processor, as far as its control rests on it, is a course of a few kinds of changes.
An instruction changes no slot of the scratchpad but the one to which it transfers a register, and it puts no status
doubleword in force unless it says so or calls the supervisor.
-/

namespace Concept32

namespace Cpu

/-- One change of the processor. Software transfers to the scratchpad only into `slots`, and a status doubleword is put
in force only if the processor `loads` one. -/
inductive Change (slots : Nat → Prop) (loads : Prop) : Cpu → Cpu → Prop
  | compute {c c' : Cpu} (h : Computes c c') : Change slots loads c c'
  | extend {c : Cpu} {on : Bool} (h : on = true → c.model.hasExtendedAddressing = true) :
      Change slots loads c { c with psd := c.psd.withExtended on }
  | go {c : Cpu} (a : Word) : Change slots loads c { c with psd := c.psd.withAddress a }
  | start {c : Cpu} (a : Word) : Change slots loads c { c with psd := Psd.initial.withAddress a }
  | switch {c c' : Cpu} (h : Switches c c') : Change slots loads c c'
  | transfer {c : Cpu} {slot : Nat} (w : Word) (h : slots slot) :
      Change slots loads c { c with scratchpad := c.scratchpad.set slot w }
  | enforce {c : Cpu} (p : Psd) (h : loads) : Change slots loads c (Exec.enforced p c)
  | reset {c : Cpu} : Change slots loads c c.reset

variable {slots slots' : Nat → Prop} {loads loads' : Prop} {c c' : Cpu}

theorem Change.mono (h : Change slots loads c c') (hslots : ∀ slot, slots slot → slots' slot) (hloads : loads → loads') :
    Change slots' loads' c c' := by
  cases h with
  | compute h => exact .compute h
  | extend h => exact .extend h
  | go a => exact .go a
  | start a => exact .start a
  | switch h => exact .switch h
  | transfer w h => exact .transfer w (hslots _ h)
  | enforce p h => exact .enforce p (hloads h)
  | reset => exact .reset

end Cpu

namespace Core
open Concept32.Cpu
variable {slots slots' : Nat → Prop} {loads loads' : Prop} {s s' s'' : Core}

/-- The processor has changed step by step. -/
def Evolves (slots : Nat → Prop) (loads : Prop) (s s' : Core) : Prop :=
  Relation.ReflTransGen (Change slots loads) s.cpu s'.cpu

theorem Evolves.trans (h : Evolves slots loads s s') (h' : Evolves slots loads s' s'') : Evolves slots loads s s'' :=
  Relation.ReflTransGen.trans h h'

instance : Std.Refl (Evolves slots loads) := ⟨fun _ => .refl⟩

instance : Trans (Evolves slots loads) (Evolves slots loads) (Evolves slots loads) := ⟨.trans⟩

theorem Evolves.of_change (h : Change slots loads s.cpu s'.cpu) : Evolves slots loads s s' := .single h

theorem Evolves.mono (h : Evolves slots loads s s') (hslots : ∀ slot, slots slot → slots' slot) (hloads : loads → loads') :
    Evolves slots' loads' s s' :=
  Relation.ReflTransGen.mono (fun _ _ hchange => hchange.mono hslots hloads) _ _ h

/-- What every change keeps the whole course keeps. -/
theorem Evolves.keeps {P : Cpu → Prop} (h : Evolves slots loads s s')
    (hstep : ∀ {c c'}, Change slots loads c c' → P c → P c') (hp : P s.cpu) : P s'.cpu := by
  have hcourse : ∀ {c c'}, Relation.ReflTransGen (Change slots loads) c c' → P c → P c' := fun hcourse hc => by
    induction hcourse with
    | refl => exact hc
    | tail _ hchange ih => exact hstep hchange ih
  exact hcourse h hp

theorem Steady.evolves (h : Steady s s') : Evolves slots loads s s' := by
  obtain ⟨address, count, hcpu⟩ := h
  refine .of_change (.compute ?_)
  rw [hcpu]
  exact ⟨rfl, rfl, fun _ _ => rfl, rfl⟩

end Core

namespace Exec
open Concept32.Cpu Concept32.Core EStateM
variable {slots : Nat → Prop} {loads : Prop} {α : Type} {x : Exec α} {o : Operand} {opcode : Opcode}

/-! ### Parts -/

theorem evolves_of_computing (h : Computing α x) : Moves (Evolves slots loads) x :=
  h.mono (fun _ _ _ hc => .of_change (.compute hc)) fun _ _ hc => .of_change (.compute hc)

/-- A step that only computes. -/
theorem evolves_of [h : Of Computing x] : Moves (Evolves slots loads) x := evolves_of_computing h.holds

theorem evolves_modifyCpu {f : Cpu → Cpu} (h : ∀ c, Change slots loads c (f c)) :
    Moves (Evolves slots loads) (modifyCpu f) :=
  moves_modifyCpu fun cpu _ => .of_change (h cpu)

theorem evolves_loadPsd {p : Psd} {changeMaps : Bool} : Moves (Evolves slots True) (loadPsd p changeMaps) :=
  moves_loadPsd (fun _ _ _ => .of_change (.compute ⟨rfl, rfl, fun _ _ => rfl, rfl⟩))
    fun _ _ => .of_change (.enforce p trivial)

instance {a : Word} : Of Computing (readPsd a) := by rw [readPsd]; infer_instance

theorem evolves_exchange {block resume : Word} : Moves (Evolves slots True) (exchange block resume) := by
  rw [exchange]
  exact .bind evolves_of fun _ => .bind evolves_of fun _ => .bind evolves_of fun _ => .bind evolves_of fun _ =>
    .bind evolves_of fun _ => evolves_loadPsd

/-- A start that fails has put nothing in force. -/
theorem evolves_startAt {a : Word} : Ends (fun _ => Evolves slots True) (Evolves slots False) (startAt a) where
  ok {s s' u} h := by
    rw [startAt] at h
    obtain ⟨p, t, hread, h⟩ := bind_eq_ok.mp h
    obtain ⟨_, v, hload, hmode⟩ := bind_eq_ok.mp h
    have hloaded : Evolves slots True s v := (evolves_of.ok hread).trans (evolves_loadPsd.ok hload)
    cases hmode
    exact hloaded.trans (.of_change (.compute ⟨rfl, rfl, fun _ _ => rfl, rfl⟩))
  error h := by
    rw [Evolves, cpu_of_startAt_error h]

/-! ### Instructions that take hold of the processor -/

theorem evolves_extendAddressing {on : Bool} : Moves (Evolves slots loads) (extendAddressing on) := by
  have hset : ∀ s : Core, (on = true → s.cpu.model.hasExtendedAddressing = true) →
      extendAddressing on s = .ok .next ⟨{ s.cpu with psd := s.cpu.psd.withExtended on }, s.memory⟩ := fun s hhas => by
    have hchecked : (on && !s.cpu.model.hasExtendedAddressing) = false := by
      cases on with
      | false => rfl
      | true => rw [hhas rfl]; rfl
    rw [extendAddressing, bind_of_ok (show ask Cpu.model s = .ok s.cpu.model s from rfl), hchecked]
    rfl
  have hrefuse : ∀ s : Core, ¬(on = true → s.cpu.model.hasExtendedAddressing = true) →
      extendAddressing on s = .error .undefinedInstruction s := fun s hnot => by
    obtain ⟨rfl, hhas⟩ := Classical.not_imp.mp hnot
    rw [extendAddressing, bind_of_ok (show ask Cpu.model s = .ok s.cpu.model s from rfl), Bool.eq_false_iff.mpr hhas]
    rfl
  constructor
  · intro s s' flow h
    by_cases hhas : on = true → s.cpu.model.hasExtendedAddressing = true
    · rw [hset s hhas] at h
      cases h
      exact .of_change (.extend hhas)
    · rw [hrefuse s hhas] at h
      cases h
  · intro s s' t h
    by_cases hhas : on = true → s.cpu.model.hasExtendedAddressing = true
    · rw [hset s hhas] at h
      cases h
    · rw [hrefuse s hhas] at h
      cases h
      exact .refl

/-- The slot to which an instruction transfers a register. -/
def transfers (opcode : Opcode) (o : Operand) (c : Cpu) (slot : Nat) : Prop :=
  opcode = .trr ∧ o.augment = 0xE ∧ slot = (c.gpr.get o.source).toNat

theorem evolves_registerToScratchpad {s s' : Core} {flow : Flow} (haugment : o.augment = 0xE)
    (h : registerToScratchpad o s = .ok flow s') : Evolves (transfers .trr o s.cpu) loads s s' := by
  rw [registerToScratchpad] at h
  obtain ⟨_, t, hcheck, hrest⟩ := bind_eq_ok.mp h
  obtain ⟨-, rfl⟩ := checks_requirePrivileged.ok hcheck
  obtain ⟨_, _, hslot, hset⟩ := bind_eq_ok.mp hrest
  cases hslot
  obtain ⟨w, _, hw, hset⟩ := bind_eq_ok.mp hset
  cases hw
  cases hset
  exact .of_change (.transfer _ ⟨rfl, haugment, rfl⟩)

theorem evolves_loadPsdOperand {changeMaps : Option Bool} :
    Moves (Evolves slots True) (loadPsdOperand o changeMaps) := by
  rw [loadPsdOperand]
  exact .bind evolves_of fun _ => .bind evolves_of fun _ => evolves_loadPsd

theorem evolves_returnFromInterrupt : Moves (Evolves slots True) (returnFromInterrupt o) := by
  rw [returnFromInterrupt]
  refine .bind evolves_loadPsdOperand fun _ => .bind evolves_of fun first => ?_
  split
  · exact .bind (evolves_modifyCpu fun c => .switch (.deactivate _)) fun _ => evolves_of
  · exact evolves_of

theorem evolves_loadStatusDoubleword {changeMaps : Bool} :
    Moves (Evolves slots True) (loadStatusDoubleword o changeMaps) := by
  rw [loadStatusDoubleword]
  exact .bind evolves_loadPsdOperand fun _ => evolves_of

theorem evolves_callSupervisor {index : Nat} {number next : Word} :
    Moves (Evolves slots True) (callSupervisor index number next) := by
  have hget : Moves (Evolves slots True) (get : Exec Core) := ⟨fun h => by cases h; exact .refl, fun h => by cases h⟩
  rw [callSupervisor]
  refine .bind evolves_of fun _ => .bind hget fun _ => ?_
  split
  · exact .throw _
  refine .bind evolves_of fun _ => .bind hget fun _ => ?_
  split
  · exact .throw _
  · exact .bind evolves_exchange fun _ => .bind evolves_of fun _ => evolves_of

/-! ### Every instruction -/

/-- An instruction that always says that it has loaded a status doubleword. -/
theorem ends_of_answers {x : Exec Flow} (h : Moves (Evolves slots True) x) (hanswers : Answers (· = .loaded) x) :
    Ends (fun flow => Evolves slots (flow = .loaded)) (Evolves slots True) x where
  ok hx := (h.ok hx).mono (fun _ => id) fun _ => hanswers _ _ _ hx
  error hx := h.error hx

theorem loaded_callSupervisor {index : Nat} {number next : Word} :
    Answers (· = .loaded) (callSupervisor index number next) := by
  rw [callSupervisor]
  refine .bind fun _ => .bind fun _ => ?_
  split
  · exact fun _ _ _ h => by cases h
  refine .bind fun _ => .bind fun _ => ?_
  split
  · exact fun _ _ _ h => by cases h
  · exact .bind fun _ => .bind fun _ => .pure rfl

theorem loaded_returnFromInterrupt : Answers (· = .loaded) (returnFromInterrupt o) := by
  rw [returnFromInterrupt]
  refine .bind fun _ => .bind fun first => ?_
  split
  · exact .bind fun _ => .pure rfl
  · exact .pure rfl

/-- An instruction that transfers nothing to the scratchpad. -/
theorem evolves_perform_of_not_transfer (h : ¬(opcode = .trr ∧ o.augment = 0xE)) :
    Ends (fun flow => Evolves slots (flow = .loaded)) (Evolves slots True) (perform opcode o) := by
  obtain hcontrols | hof := controls_or_of opcode o
  · generalize perform opcode o = x at hcontrols ⊢
    cases hcontrols with
    | extend | contract => exact ⟨evolves_extendAddressing.ok, evolves_extendAddressing.error⟩
    | transfer haugment => exact absurd ⟨rfl, haugment⟩ h
    | returning => exact ends_of_answers evolves_returnFromInterrupt loaded_returnFromInterrupt
    | loading => exact ends_of_answers evolves_loadStatusDoubleword (.bind fun _ => .pure rfl)
    | supervisor | monitor => exact ends_of_answers evolves_callSupervisor loaded_callSupervisor
  · have hcomputing : Computing Flow (perform opcode o) := (hof Computing).holds
    exact ⟨(evolves_of_computing hcomputing).ok, (evolves_of_computing hcomputing).error⟩

/-- An instruction puts a status doubleword in force only if it says so; if it traps it has done that only if it has
called the supervisor. -/
theorem evolves_perform :
    Ends (fun flow s s' => Evolves (transfers opcode o s.cpu) (flow = .loaded) s s')
      (fun s s' => Evolves (transfers opcode o s.cpu) (callsSupervisor opcode o) s s') (perform opcode o) where
  ok h := by
    by_cases htransfer : opcode = .trr ∧ o.augment = 0xE
    · obtain ⟨rfl, haugment⟩ := htransfer
      rw [perform, transferGroup, haugment] at h
      exact evolves_registerToScratchpad haugment h
    · exact (evolves_perform_of_not_transfer htransfer).ok h
  error h := by
    by_cases hcalls : callsSupervisor opcode o
    · have hnot : ¬(opcode = .trr ∧ o.augment = 0xE) := by
        rintro ⟨rfl, -⟩
        obtain hcalls | ⟨hcalls, -⟩ := hcalls <;> cases hcalls
      exact ((evolves_perform_of_not_transfer hnot).error h).mono (fun _ => id) fun _ => hcalls
    · exact ((steady_perform hcalls).error h).evolves

end Exec
end Concept32
