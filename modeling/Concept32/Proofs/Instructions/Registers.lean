import Concept32.Proofs.Instructions.Changes

/-!
# Instructions without an operand

A halfword instruction that goes on at the next instruction stores nothing in memory and leaves alone whether memory is
mapped. Only one of them looks where the next instruction is, to put that into a base register.
-/

namespace Concept32

/-- What the next instruction is found by is as it was: memory, the mapping mode and the count of indirect words. -/
structure Core.Undisturbed (s s' : Core) : Prop where
  memory : s'.memory = s.memory
  word2 : s'.cpu.psd.word2 = s.cpu.psd.word2
  indirections : s'.cpu.indirections = s.cpu.indirections

namespace Core
variable {s s' s'' : Core}

theorem Undisturbed.trans (h : Undisturbed s s') (h' : Undisturbed s' s'') : Undisturbed s s'' where
  memory := h'.memory.trans h.memory
  word2 := h'.word2.trans h.word2
  indirections := h'.indirections.trans h.indirections

instance : Std.Refl Undisturbed := ⟨fun _ => ⟨rfl, rfl, rfl⟩⟩

instance : Trans Undisturbed Undisturbed Undisturbed := ⟨.trans⟩

end Core

namespace Exec
open Concept32.Core EStateM
variable {α : Type} {x y : Exec Flow} {o : Operand} {opcode : Opcode} {i : Instruction} {next next' : Word}

/-! ### Steps that disturb nothing -/

/-- The kind of the steps after which the next instruction is found as before. -/
def Undisturbing (α : Type) (x : Exec α) : Prop := Moves Undisturbed x

instance : RegisterKind Undisturbing where
  pure _ := Moves.pure _
  throw _ := Moves.throw _
  bind hx hf := Moves.bind hx hf
  ask _ := moves_ask
  loadMap _ := moves_loadMap fun _ _ _ => ⟨rfl, rfl, rfl⟩
  modifyCpu h := moves_modifyCpu fun cpu _ => ⟨rfl, (h cpu).word2, (h cpu).indirections⟩

instance {on : Bool} : Of Undisturbing (extendAddressing on) := by
  have hset : Of Undisturbing (modifyPsd fun p => p.withExtended on) := ⟨moves_modifyCpu fun _ _ => ⟨rfl, rfl, rfl⟩⟩
  rw [extendAddressing]
  infer_instance

instance : Of Undisturbing (registerToScratchpad o) := by
  have hset : ∀ slot w, Of Undisturbing (modifyCpu fun c => { c with scratchpad := c.scratchpad.set slot w }) :=
    fun _ _ => ⟨moves_modifyCpu fun _ _ => ⟨rfl, rfl, rfl⟩⟩
  rw [registerToScratchpad]
  infer_instance

/-- A halfword instruction disturbs nothing, unless it calls or returns. -/
theorem undisturbing_perform (hformat : opcode.format = .halfword) (hreg : opcode ≠ .reg) (hcalm : opcode ≠ .calm) :
    Of Undisturbing (perform opcode o) := by
  cases opcode with
  | reg => exact absurd rfl hreg
  | calm => exact absurd rfl hcalm
  | gen =>
    rw [perform, generalGroup]
    split <;> infer_instance
  | trr =>
    rw [perform, transferGroup]
    split <;> infer_instance
  | anr | orr | eor | car | cmr | sbr | zbr | abr | tbr | adr | sur | mpr | dvr | nor | nord | scz | sra | srl | src
  | srad | srld | xbr | srbr | srdbr | srcbr => rw [perform]; infer_instance
  | _ => cases hformat

/-! ### Steps that do not look where the next instruction is -/

/-- When the first step goes on at the next instruction, the second does the same, and disturbs nothing. -/
def GoesOnAs (x y : Exec Flow) : Prop := ∀ s s', x s = .ok .next s' → y s = .ok .next s' ∧ Undisturbed s s'

namespace GoesOnAs

theorem of_undisturbing [h : Of Undisturbing x] : GoesOnAs x x := fun _ _ hx => ⟨hx, h.holds.ok hx⟩

/-- A step that never goes on at the next instruction. -/
theorem of_leaves (h : Answers (· ≠ .next) x) : GoesOnAs x y := fun _ _ hx => absurd rfl (h _ _ _ hx)

theorem bind {x : Exec α} {f g : α → Exec Flow} [hx : Of Undisturbing x] (h : ∀ a, GoesOnAs (f a) (g a)) :
    GoesOnAs (x >>= f) (x >>= g) := fun s s' hxf => by
  obtain ⟨a, t, hstep, hrest⟩ := bind_eq_ok.mp hxf
  obtain ⟨hsame, hundisturbed⟩ := h a t s' hrest
  exact ⟨(bind_of_ok hstep).trans hsame, (hx.holds.ok hstep).trans hundisturbed⟩

end GoesOnAs

theorem jumps_branchRegister {r : RegisterNumber} : Answers (· ≠ .next) (branchRegister r) :=
  .bind fun _ => .bind fun _ => .pure Flow.noConfusion

theorem jumps_branchSubroutine {target : Word} : Answers (· ≠ .next) (branchSubroutine o target) :=
  .bind fun _ => .bind fun _ => .pure Flow.noConfusion

theorem jumps_call {target : Word} : Answers (· ≠ .next) (call o target) :=
  .bind fun _ => .bind fun _ => .bind fun _ => .bind fun _ => .bind fun _ => .bind fun _ => .bind fun _ =>
    .pure Flow.noConfusion

theorem jumps_returnFromCall : Answers (· ≠ .next) returnFromCall :=
  .bind fun _ => .bind fun _ => .bind fun _ => .bind fun _ => .bind fun _ => .bind fun _ => .pure Flow.noConfusion

theorem goesOnAs_registerGroup (h : i.augment ≠ 0xC) :
    GoesOnAs (registerGroup (.withoutAddress i next)) (registerGroup (.withoutAddress i next')) := by
  have haugment : ∀ n, (Operand.withoutAddress i n).augment = i.augment := fun _ => rfl
  refine .bind fun based => ?_
  rw [haugment, haugment]
  split
  · exact .of_leaves jumps_branchRegister
  · exact .of_undisturbing
  · exact .of_undisturbing
  · exact .of_undisturbing
  · exact .of_undisturbing
  · exact .of_leaves (.bind fun _ => jumps_branchSubroutine)
  · exact .of_leaves (.bind fun _ => jumps_call)
  · next heq => exact absurd heq h
  · exact .of_leaves jumps_returnFromCall
  · exact .of_undisturbing

/-- Only TPCBR looks where the next instruction is and goes on there. -/
theorem goesOnAs_perform (hformat : opcode.format = .halfword) (h : ¬(opcode = .reg ∧ i.augment = 0xC)) :
    GoesOnAs (perform opcode (.withoutAddress i next)) (perform opcode (.withoutAddress i next')) := by
  by_cases hreg : opcode = .reg
  · subst hreg
    exact goesOnAs_registerGroup fun haugment => h ⟨rfl, haugment⟩
  by_cases hcalm : opcode = .calm
  · subst hcalm
    exact .of_leaves fun _ _ _ hx hnext => Flow.noConfusion ((loaded_callSupervisor _ _ _ hx).symm.trans hnext)
  have hsame : perform opcode (.withoutAddress i next') = perform opcode (.withoutAddress i next) := by
    cases opcode with
    | reg => exact absurd rfl hreg
    | calm => exact absurd rfl hcalm
    | gen | anr | orr | eor | car | cmr | sbr | zbr | abr | tbr | trr | adr | sur | mpr | dvr | nor | nord | scz | sra
    | srl | src | srad | srld | xbr | srbr | srdbr | srcbr => rfl
    | _ => cases hformat
  have hundisturbing : Of Undisturbing (perform opcode (.withoutAddress i next)) :=
    undisturbing_perform hformat hreg hcalm
  rw [hsame]
  exact .of_undisturbing

end Exec
end Concept32
