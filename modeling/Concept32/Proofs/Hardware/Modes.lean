import Concept32.Proofs.Addressing
import Concept32.Proofs.Hardware.Events

/-!
# Addressing modes that a model does not have

On a model without extended addressing the instruction that turns it on is undefined, and no instruction turns on base
register addressing. A status doubleword that is put in force is not checked: the processor stays in the modes of its
model exactly as long as none asks for another mode.
-/

namespace Concept32

/-- The model has the addressing mode that a status doubleword asks for. -/
structure Model.Offers (m : Model) (p : Psd) : Prop where
  extended : p.extended = true → m.hasExtendedAddressing = true
  based : p.based = true → m.hasBaseMode = true

theorem Model.Offers.congr {m : Model} {p q : Psd} (h : m.Offers p) (hextended : q.extended = p.extended)
    (hbased : q.based = p.based) : m.Offers q :=
  ⟨fun hq => h.extended (hextended ▸ hq), fun hq => h.based (hbased ▸ hq)⟩

theorem Model.offers_initial {m : Model} : m.Offers .initial := ⟨nofun, nofun⟩

/-- The only mode of a 32/55 reaches the first 512K bytes. -/
theorem Model.Offers.addressMask {p : Psd} (h : Model.Offers .c3255 p) : p.addressMask = 0x7FFFF#32 := by
  have hextended : p.extended = false := Bool.eq_false_iff.mpr fun hp => nomatch h.extended hp
  have hbased : p.based = false := Bool.eq_false_iff.mpr fun hp => nomatch h.based hp
  rw [Psd.addressMask, hextended, hbased]
  rfl

namespace Cpu
variable {c c' : Cpu} {slots : Nat → Prop} {loads : Prop} {p : Psd}

theorem model_enforced : (Exec.enforced p c).model = c.model := by rw [enforced_eq]

theorem Change.model (h : Change slots loads c c') : c'.model = c.model := by
  cases h with
  | compute hcomputes => exact hcomputes.model
  | switch hswitch => cases hswitch <;> rfl
  | enforce => exact model_enforced
  | extend | go | start | transfer | reset => rfl

/-- The processor is in an addressing mode of its model. -/
def InMode (c : Cpu) : Prop := c.model.Offers c.psd

/-- Only a status doubleword that is put in force can ask for a mode that the model does not have. -/
theorem InMode.change (h : c.InMode) (hchange : Change slots False c c') : c'.InMode := by
  rw [InMode, hchange.model]
  cases hchange with
  | compute hcomputes => exact h.congr (Psd.extended_congr hcomputes.control) (Psd.based_congr hcomputes.control)
  | extend hhas =>
    refine ⟨fun hextended => hhas ?_, fun hbased => h.based ?_⟩
    · rw [← hextended]
      exact Psd.extended_withExtended.symm
    · rw [← hbased]
      exact Psd.based_withExtended.symm
  | go a => exact h.congr Psd.extended_withAddress Psd.based_withAddress
  | start a => exact Model.offers_initial.congr Psd.extended_withAddress Psd.based_withAddress
  | switch hswitch => cases hswitch <;> exact h
  | transfer _ _ => exact h
  | enforce _ hloads => exact hloads.elim
  | reset => exact Model.offers_initial

/-- Every effective address that is formed under the status doubleword of the processor is below a limit. -/
def AddressesBelow (c : Cpu) (limit : Nat) : Prop :=
  ∀ (core core' : Core) (i : Instruction) (format : Format) (next : Word) (o : Operand), core.cpu.psd = c.psd →
    Exec.operandOf i format next core = .ok o core' → o.address.toNat < limit

theorem InMode.addressesBelow (h : c.InMode) (hmodel : c.model = .c3255) : c.AddressesBelow 0x80000 := by
  intro core core' i format next o hpsd hoperand
  have hmask : c.psd.addressMask = 0x7FFFF#32 := (hmodel ▸ h : Model.Offers .c3255 c.psd).addressMask
  have hreached : o.address ≤ core.cpu.psd.addressMask := Exec.reaches_operandOf hoperand
  rw [hpsd, hmask] at hreached
  exact Nat.lt_succ_of_le hreached

end Cpu

namespace Hardware
variable {δ ω : Type} [Peripheral δ ω] {events : List (Event δ ω)} {s : Hardware δ ω} {e : Event δ ω}

theorem model_apply (e : Event δ ω) (s : Hardware δ ω) : (e.apply s).core.cpu.model = s.core.cpu.model :=
  (e.evolves s).keeps (P := fun c => c.model = s.core.cpu.model) (fun hchange hmodel => hchange.model.trans hmodel) rfl

theorem inMode_apply (henforces : ¬e.Enforces s) (h : s.core.cpu.InMode) : (e.apply s).core.cpu.InMode :=
  Core.Evolves.keeps ((e.evolves s).mono (fun _ => id) henforces) (fun hchange hmode => hmode.change hchange) h

/-- A processor that begins in a mode of its model stays in such modes exactly if every event that puts a status
doubleword in force leaves it in one; and on a 32/55 every effective address is then below 512K. -/
theorem inMode_iff (hstart : s.core.cpu.InMode) :
    (Always (fun s => s.core.cpu.InMode) events s ↔
        Along (fun (e : Event δ ω) s => e.Enforces s → (e.apply s).core.cpu.InMode) events s) ∧
      (s.core.cpu.model = .c3255 → Always (fun s => s.core.cpu.InMode) events s →
        Always (fun s => s.core.cpu.AddressesBelow 0x80000) events s) := by
  refine ⟨always_iff (P := fun s => s.core.cpu.InMode) inMode_apply hstart, fun hmodel halways => ?_⟩
  induction events generalizing s with
  | nil => exact Cpu.InMode.addressesBelow halways hmodel
  | cons e events ih =>
    obtain ⟨hmode, hrest⟩ := halways
    exact ⟨hmode.addressesBelow hmodel, ih hrest.head ((model_apply e s).trans hmodel) hrest⟩

/-! ### Status doublewords that ask for a mode -/

/-- A model after a reset. Memory has a status doubleword at address zero, for a program of two words at 8. -/
def asking (model : Model) (word1 first second : Word) : Hardware StandardDevice Char where
  core := ⟨Cpu.initial model 0, ⟨#[word1, 0, first, second], by simp⟩⟩
  channels := .empty

/-- The program loads a status doubleword and executes its first instruction. -/
def begins : List (Event StandardDevice Char) := [.load 0, .instruct 0]

/-- A program on a 32/55 that would turn on extended addressing by an instruction. -/
def refused : Hardware StandardDevice Char := asking .c3255 0x80000008#32 0x000D0002#32 0

/-- The instruction is undefined, and the mode stays. -/
theorem inMode_refused : Always (fun s => s.core.cpu.InMode) begins refused ∧
    Always (fun s => s.core.cpu.AddressesBelow 0x80000) begins refused := by
  have halong : Along (fun e s => e.Enforces s → (e.apply s).core.cpu.InMode) begins refused :=
    ⟨fun _ => ⟨by decide +kernel, by decide +kernel⟩, fun _ => ⟨by decide +kernel, by decide +kernel⟩, trivial⟩
  have hstart : refused.core.cpu.InMode := Model.offers_initial
  have halways := (inMode_iff hstart).1.mpr halong
  exact ⟨halways, (inMode_iff hstart).2 rfl halways⟩

/-- A program on a 32/55 whose status doubleword asks for extended addressing. It loads an index register, by which its
second instruction forms an address. -/
def widened : Hardware StandardDevice Char := asking .c3255 0x84000008#32 0xC880FFFC#32 0xAD200000#32

/-- A status doubleword puts extended addressing in force on a 32/55, and an effective address lies beyond 512K; and base
register addressing on a 32/27. -/
theorem not_inMode :
    (Model.hasExtendedAddressing .c3255 = false ∧ (run begins widened).core.cpu.psd.extended = true ∧
      ∃ o core, Exec.operandOf ⟨0xAD200000#32⟩ .memory 0x10 (run begins widened).core = .ok o core ∧
        0x80000 ≤ o.address.toNat) ∧
    Model.hasBaseMode .c3227 = false ∧ (run [.load 0] (asking .c3227 0x82000008#32 0 0)).core.cpu.psd.based = true :=
  ⟨⟨rfl, by decide +kernel, _, _, rfl, by decide +kernel⟩, rfl, by decide +kernel⟩

end Hardware
end Concept32
