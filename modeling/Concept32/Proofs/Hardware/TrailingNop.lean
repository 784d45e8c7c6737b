import Mathlib.Data.Nat.Bitwise
import Concept32.Proofs.Hardware.Indirection
import Concept32.Proofs.Hardware.Linkage
import Concept32.Proofs.Hardware.ProgramCounter
import Concept32.Proofs.Instructions.Registers

/-!
# Passing over a trailing no-operation

Some models pass over a no-operation in the right half of a word when they fetch the instruction in the left half. A
halfword instruction that goes on at the next instruction leaves the hardware in the same state whether the no-operation
is passed over with it or executed after it.
-/

namespace Concept32

namespace Instruction
variable {i : Instruction} {based : Bool}

/-! ### Halfword instructions -/

theorem extractLsb'_upperOnly {start len : Nat} (hstart : 16 ≤ start) (hlen : start + len ≤ 32) :
    i.upperOnly.bits.extractLsb' start len = i.bits.extractLsb' start len := by
  refine BitVec.eq_of_getLsbD_eq fun k hk => ?_
  have hin : start + k < 32 := by omega
  have hbelow : ¬start + k < 16 := by omega
  have hplace : 16 + (start + k - 16) = start + k := by omega
  have hhalf : start + k - 16 < 16 := by omega
  simp [upperOnly, ofHalf, upperHalf, hin, hbelow, hplace, hhalf, hk]

theorem opcode?_upperOnly : i.upperOnly.opcode? based = i.opcode? based := by
  rw [opcode?, opcode?, opcodeIndex, opcodeIndex, extractLsb'_upperOnly (by decide) (by decide)]

theorem augment_upperOnly : i.upperOnly.augment = i.augment := by
  rw [augment, augment, extractLsb'_upperOnly (by decide) (by decide)]

theorem isHalfword_upperOnly : i.upperOnly.isHalfword based = i.isHalfword based := by
  rw [isHalfword, isHalfword, opcode?_upperOnly]

theorem format_of_isHalfword {opcode : Opcode} (h : i.isHalfword based = true)
    (hopcode : i.opcode? based = some opcode) : opcode.format = .halfword := by
  rw [isHalfword, hopcode] at h
  exact beq_iff_eq.mp h

/-- A halfword does not carry out another instruction. -/
theorem not_isExecute_of_isHalfword (h : i.isHalfword based = true) : ¬i.isExecute = true := by
  rw [isExecute_iff based]
  rintro (hopcode | ⟨hopcode, -⟩)
  · cases format_of_isHalfword h hopcode
  · cases format_of_isHalfword h hopcode

/-- The instruction puts the address of the next instruction into a base register. -/
def PutsNext (i : Instruction) (based : Bool) : Prop := i.opcode? based = some .reg ∧ i.augment = 0xC

instance : Decidable (i.PutsNext based) := inferInstanceAs (Decidable (_ ∧ _))

end Instruction

/-! ### The halves of a word -/

section
variable {a : Word}

/-- A halfword at an address lies in the right half of a word, or in the left one. -/
theorem hasAny_two : hasAny a 2#32 = decide (2 ≤ a.toNat % 4) := by
  have hbit : hasAny a 2#32 = a.getLsbD 1 := hasAny_twoPow (by decide : 1 < 32)
  rw [hbit, BitVec.getLsbD, Nat.testBit_eq_decide_div_mod_eq, decide_eq_decide]
  omega

theorem lt_two_of_left (h : hasAny a 2#32 = false) : a.toNat % 4 < 2 := by
  rw [hasAny_two, decide_eq_false_iff_not] at h
  exact Nat.not_le.mp h

theorem toNat_add_two_of_left (h : hasAny a 2#32 = false) : (a + 2).toNat = a.toNat + 2 := by
  have hleft := lt_two_of_left h
  have hlt := a.isLt
  have htwo : (2 : Word).toNat = 2 := rfl
  rw [BitVec.toNat_add, htwo]
  omega

theorem hasAny_add_two (h : hasAny a 2#32 = false) : hasAny (a + 2) 2#32 = true := by
  have hleft := lt_two_of_left h
  rw [hasAny_two, toNat_add_two_of_left h, decide_eq_true_iff]
  omega

theorem wordBoundary_add_two (h : hasAny a 2#32 = false) : wordBoundary (a + 2) = wordBoundary a := by
  have hleft := lt_two_of_left h
  refine BitVec.eq_of_toNat_eq ?_
  rw [toNat_wordBoundary, toNat_wordBoundary, toNat_add_two_of_left h]
  omega

/-- The addressing mode that reaches the left half of a word reaches the right one. -/
theorem Psd.reaches_add_two {p : Psd} (hreaches : p.Reaches a) (h : hasAny a 2#32 = false) : p.Reaches (a + 2) := by
  have hleft := lt_two_of_left h
  have hmask : p.addressMask.toNat % 4 = 3 := by
    rw [addressMask]
    split
    · rfl
    · split <;> rfl
  rw [Reaches, BitVec.le_def] at hreaches ⊢
  rw [toNat_add_two_of_left h]
  omega

theorem Psd.withAddress_withAddress {p : Psd} {b : Word} : (p.withAddress b).withAddress a = p.withAddress a := by
  rw [withAddress, addressMask_withAddress, withAddress, replaceBits_replaceBits, withAddress]

end

/-- A program without a map is at a halfword instruction in the left half of a word, with a no-operation in the right
half. -/
structure Core.BeforeNop (w : Word) (s : Core) : Prop where
  unmapped : s.cpu.psd.mapped = false
  inReach : s.cpu.InReach
  left : hasAny s.cpu.psd.address 2#32 = false
  held : s.memory.readWord (wordBoundary s.cpu.psd.address) = .ok w
  halfword : (⟨w⟩ : Instruction).isHalfword s.cpu.psd.based = true
  nop : (⟨w⟩ : Instruction).immediate = Instruction.nopHalf

namespace Hardware
open Concept32.Core EStateM
variable {δ ω : Type} {s u : Hardware δ ω} {core : Core} {i : Instruction} {w next : Word} {now : Nat} {elides : Bool}

/-! ### Fetching -/

theorem begun_of_indirections {v : Hardware δ ω} (h : v.core.cpu.indirections = 0) : v.begun = v.core := by
  obtain ⟨⟨cpu, memory⟩, channels⟩ := v
  cases cpu
  cases h
  rfl

/-- The fetch of an instruction, which passes over a trailing no-operation or does not. -/
def fetchBy (elides : Bool) : Concept32.Exec (Instruction × Word) := do
  let p ← Concept32.Exec.psd
  let pc := p.address
  let word ← Concept32.Exec.readWord (wordBoundary pc) .execute
  if hasAny pc 2#32 then
    let i : Instruction := .ofHalf (word.setWidth 16)
    if i.isHalfword p.based then return (i, pc + 2) else throw .addressSpecification
  let i : Instruction := ⟨word⟩
  if !i.isHalfword p.based then return (i, pc + 4)
  if i.immediate = Instruction.nopHalf && elides then return (i.upperOnly, pc + 4)
  return (i.upperOnly, pc + 2)

/-- A model decides whether it passes over a trailing no-operation. -/
theorem fetch_eq : fetch core = fetchBy core.cpu.model.elidesTrailingNop core := by
  rw [fetch, fetchBy, bind_of_ok (show Concept32.Exec.psd core = .ok core.cpu.psd core from rfl),
    bind_of_ok (show Concept32.Exec.psd core = .ok core.cpu.psd core from rfl)]
  cases hread : Concept32.Exec.readWord (wordBoundary core.cpu.psd.address) .execute core with
  | error t u => rw [bind_of_error hread, bind_of_error hread]
  | ok word u =>
    have hmodel : u.cpu.model = core.cpu.model := by
      obtain ⟨_, _, rfl⟩ := Concept32.Exec.reads_readWord.ok hread
      rfl
    rw [bind_of_ok hread, bind_of_ok hread, ← hmodel]
    dsimp only
    split
    · rfl
    · split
      · rfl
      · rfl

/-- A word that a program without a map finds to execute. -/
theorem readWord_execute {a : Word} (hmapped : core.cpu.psd.mapped = false)
    (hheld : core.memory.readWord (wordBoundary a) = .ok w) (hlt : a.toNat < 0x1000000) :
    Concept32.Exec.readWord (wordBoundary a) .execute core = .ok w core := by
  have hcut : wordBoundary a &&& Psd.addressField = wordBoundary a := by
    refine BitVec.eq_of_toNat_eq ?_
    rw [Psd.addressField, TranslationUnit.toNat_and_address, toNat_wordBoundary]
    omega
  exact Concept32.Exec.readWord_of_unmapped hmapped (by rw [hcut]; exact hheld)

theorem fetchBy_of_left (h : core.BeforeNop w) :
    fetchBy elides core =
      .ok ((⟨w⟩ : Instruction).upperOnly, core.cpu.psd.address + if elides then 4 else 2) core := by
  rw [fetchBy, bind_of_ok (show Concept32.Exec.psd core = .ok core.cpu.psd core from rfl),
    bind_of_ok (readWord_execute h.unmapped h.held Psd.toNat_address_lt), h.left, if_neg Bool.false_ne_true]
  dsimp only
  rw [h.halfword, h.nop]
  cases elides with
  | true => rfl
  | false => rfl

theorem fetchBy_of_right (hmapped : core.cpu.psd.mapped = false)
    (hheld : core.memory.readWord (wordBoundary core.cpu.psd.address) = .ok w)
    (hright : hasAny core.cpu.psd.address 2#32 = true) (hnop : (⟨w⟩ : Instruction).immediate = Instruction.nopHalf) :
    fetchBy elides core = .ok (.ofHalf Instruction.nopHalf, core.cpu.psd.address + 2) core := by
  have hhalf : w.setWidth 16 = Instruction.nopHalf := by
    rw [← hnop, Instruction.immediate]
    exact (BitVec.setWidth_eq_extractLsb' (by decide))
  have hhalfword : ∀ based, (Instruction.ofHalf Instruction.nopHalf).isHalfword based = true := by decide
  rw [fetchBy, bind_of_ok (show Concept32.Exec.psd core = .ok core.cpu.psd core from rfl),
    bind_of_ok (readWord_execute hmapped hheld Psd.toNat_address_lt), hright, if_pos rfl, hhalf]
  dsimp only
  rw [hhalfword]
  rfl

section
variable [Peripheral δ ω]

theorem executeInstruction_eq_executeBy :
    executeInstruction now s = executeBy (fetchBy s.core.cpu.model.elidesTrailingNop) now s := by
  rw [executeInstruction_eq]
  exact executeBy_congr fetch_eq

/-! ### Carrying out -/

theorem dispatch_of_isHalfword {t : Hardware δ ω} {next' : Word} (hhalfword : i.isHalfword t.core.cpu.psd.based = true)
    (hnext : ¬i.PutsNext t.core.cpu.psd.based) (h : dispatch now i next t = .ok .next u) :
    dispatch now i next' t = .ok .next u ∧ t.core.Undisturbed u.core := by
  rw [dispatch, if_neg (Instruction.not_isExecute_of_isHalfword hhalfword), perform,
    bind_of_ok (show onCore Concept32.Exec.based t = .ok t.core.cpu.psd.based t from rfl)] at h ⊢
  cases hopcode : i.opcode? t.core.cpu.psd.based with
  | none =>
    rw [hopcode] at h
    cases h
  | some opcode =>
    have hformat := Instruction.format_of_isHalfword hhalfword hopcode
    have hio : opcode ≠ .io := by
      rintro rfl
      cases hformat
    have hoperand : ∀ n, onCore (Concept32.Exec.operandOf i opcode.format n) t = .ok (.withoutAddress i n) t := by
      intro n
      rw [hformat]
      rfl
    rw [hopcode] at h
    dsimp only at h ⊢
    rw [bind_of_ok (hoperand _), if_neg hio] at h ⊢
    obtain ⟨hchannels, hperform⟩ := onCore_eq_ok h
    have hgoesOn : Concept32.Exec.GoesOnAs (Concept32.Exec.perform opcode (.withoutAddress i next))
        (Concept32.Exec.perform opcode (.withoutAddress i next')) :=
      Concept32.Exec.goesOnAs_perform hformat fun hputs => hnext ⟨hputs.1 ▸ hopcode, hputs.2⟩
    obtain ⟨hsame, hundisturbed⟩ := hgoesOn _ _ hperform
    refine ⟨?_, hundisturbed⟩
    rw [onCore, hsame, ← hchannels]

/-- A no-operation does nothing. -/
theorem dispatch_nop {t : Hardware δ ω} : dispatch now (.ofHalf Instruction.nopHalf) next t = .ok .next t := by
  have hopcode : ∀ based, (Instruction.ofHalf Instruction.nopHalf).opcode? based = some .gen := by decide
  rw [dispatch, if_neg (by decide), perform,
    bind_of_ok (show onCore Concept32.Exec.based t = .ok t.core.cpu.psd.based t from rfl), hopcode]
  have haugment : (Instruction.ofHalf Instruction.nopHalf).augment = 2 := by decide
  have hperform : Concept32.Exec.perform .gen (.withoutAddress (.ofHalf Instruction.nopHalf) next) = pure .next := by
    rw [Concept32.Exec.perform, Concept32.Exec.generalGroup, Operand.augment, Operand.withoutAddress, haugment]
    rfl
  have hoperand : onCore (Concept32.Exec.operandOf (.ofHalf Instruction.nopHalf) .halfword next) t =
      .ok (.withoutAddress (.ofHalf Instruction.nopHalf) next) t := rfl
  dsimp only
  rw [Opcode.format, bind_of_ok hoperand, if_neg (by decide), hperform]
  rfl

/-- The instruction is carried out, and the program goes on at the next instruction in the same addressing mode. -/
structure LeadsOn (now : Nat) (i : Instruction) (s u : Hardware δ ω) : Prop where
  dispatched : ∃ next, dispatch now i.upperOnly next ⟨s.begun, s.channels⟩ = .ok .next u
  notPutsNext : ¬i.PutsNext s.core.cpu.psd.based
  extended : u.core.cpu.psd.extended = s.core.cpu.psd.extended
  based : u.core.cpu.psd.based = s.core.cpu.psd.based

/-! ### One step and two steps -/

/-- After the instruction in the left half the no-operation in the right half is found. -/
theorem fetchBy_of_leadsOn {history : History} (h : s.core.BeforeNop w) (hleads : LeadsOn now ⟨w⟩ s u)
    (hundisturbed : s.begun.Undisturbed u.core)
    (hcore : core =
      ⟨{ proceed .next (s.core.cpu.psd.address + 2) u.core.cpu with history := history }, u.core.memory⟩) :
    fetchBy elides core = .ok (.ofHalf Instruction.nopHalf, s.core.cpu.psd.address + 2 + 2) core := by
  have hpsd : core.cpu.psd = u.core.cpu.psd.withAddress (s.core.cpu.psd.address + 2) := by
    rw [hcore]
    rfl
  have hmemory : core.memory = s.core.memory := (congrArg Core.memory hcore).trans hundisturbed.memory
  have haddress : core.cpu.psd.address = s.core.cpu.psd.address + 2 := by
    rw [hpsd, Psd.address_withAddress, Psd.addressMask_congr hleads.extended hleads.based]
    exact Psd.reaches_iff.mp (Psd.reaches_add_two h.inReach h.left)
  have hmapped : core.cpu.psd.mapped = false := by
    have hword2 : u.core.cpu.psd.word2 = s.core.cpu.psd.word2 := hundisturbed.word2
    rw [hpsd, Psd.mapped, Psd.withAddress, hword2]
    exact h.unmapped
  have hheld : core.memory.readWord (wordBoundary core.cpu.psd.address) = .ok w := by
    rw [haddress, wordBoundary_add_two h.left, hmemory]
    exact h.held
  have hright : hasAny core.cpu.psd.address 2#32 = true := by
    rw [haddress]
    exact hasAny_add_two h.left
  rw [← haddress]
  exact fetchBy_of_right hmapped hheld hright h.nop

/-- Whether a trailing no-operation is passed over with the instruction before it or executed after it, the hardware
comes to the same state but for the history. -/
theorem executeBy_trailing_nop (h : s.core.BeforeNop w) (hleads : LeadsOn now ⟨w⟩ s u) (later : Nat) :
    (∀ (now : Nat) (t : Hardware δ ω),
      executeInstruction now t = executeBy (fetchBy t.core.cpu.model.elidesTrailingNop) now t) ∧
    ∃ duration s₁ duration' v duration'' s₂,
      executeBy (fetchBy true) now s = .ok duration s₁ ∧
      executeBy (fetchBy false) now s = .ok duration' v ∧ executeBy (fetchBy false) later v = .ok duration'' s₂ ∧
      ∃ history, s₂ = ⟨⟨{ s₁.core.cpu with history := history }, s₁.core.memory⟩, s₁.channels⟩ := by
  obtain ⟨next, hdispatch⟩ := hleads.dispatched
  have hagain : ∀ next', dispatch now (⟨w⟩ : Instruction).upperOnly next' ⟨s.begun, s.channels⟩ = .ok .next u ∧
      s.begun.Undisturbed u.core := fun next' => by
    refine dispatch_of_isHalfword ?_ ?_ hdispatch
    · exact Instruction.isHalfword_upperOnly.trans h.halfword
    · rw [Instruction.PutsNext, Instruction.opcode?_upperOnly, Instruction.augment_upperOnly]
      exact hleads.notPutsNext
  have hundisturbed : s.begun.Undisturbed u.core := (hagain next).2
  have hbegun : s.begun.BeforeNop w := ⟨h.unmapped, h.inReach, h.left, h.held, h.halfword, h.nop⟩
  obtain ⟨duration, history, hpassed⟩ := executeBy_of_completed (fetchBy_of_left hbegun) (hagain _).1
  obtain ⟨duration', history', hfirst⟩ := executeBy_of_completed (fetchBy_of_left hbegun) (hagain _).1
  let v : Hardware δ ω :=
    ⟨⟨{ proceed .next (s.core.cpu.psd.address + 2) u.core.cpu with history := history' }, u.core.memory⟩, u.channels⟩
  have hfound : fetchBy false v.begun = .ok (.ofHalf Instruction.nopHalf, s.core.cpu.psd.address + 2 + 2) v.core := by
    have hcount : v.core.cpu.indirections = 0 := hundisturbed.indirections
    rw [begun_of_indirections hcount]
    exact fetchBy_of_leadsOn h hleads hundisturbed rfl
  have hnop : ∀ next, dispatch later (.ofHalf Instruction.nopHalf) next ⟨v.core, v.channels⟩ = .ok .next v :=
    fun _ => dispatch_nop
  obtain ⟨duration'', history'', hsecond⟩ := executeBy_of_completed hfound (hnop _)
  have hpsd : (u.core.cpu.psd.withAddress (s.core.cpu.psd.address + 2)).withAddress (s.core.cpu.psd.address + 2 + 2) =
      u.core.cpu.psd.withAddress (s.core.cpu.psd.address + 4) := by
    rw [Psd.withAddress_withAddress, BitVec.add_assoc]
    rfl
  refine ⟨fun _ _ => executeInstruction_eq_executeBy, duration, _, duration', v, duration'', _, hpassed, hfirst,
    hsecond, history'', ?_⟩
  show (⟨⟨{ u.core.cpu with psd := (u.core.cpu.psd.withAddress _).withAddress _, history := history'' }, u.core.memory⟩,
    u.channels⟩ : Hardware δ ω) = _
  rw [hpsd]
  rfl

end

/-- The word at address zero adds register 1 to register 0, and has a no-operation in its right half. -/
def adding : Hardware StandardDevice Char where
  core := ⟨{ Cpu.initial .c3267 0 with gpr := #v[1, 2, 0, 0, 0, 0, 0, 0] }, ⟨#[0x38100002#32], by decide⟩⟩
  channels := .empty

/-- The registers have been added, and the program counter is as it was. -/
def added : Hardware StandardDevice Char :=
  after (dispatch 0 (⟨0x38100002#32⟩ : Instruction).upperOnly 4) ⟨adding.begun, adding.channels⟩

theorem executeBy_trailing_nop_adding :
    adding.core.BeforeNop 0x38100002#32 ∧ LeadsOn 0 ⟨0x38100002#32⟩ adding added ∧ added.core.cpu.gpr.get 0 = 3 ∧
      ∃ duration s₁ duration' v duration'' s₂,
        executeBy (fetchBy true) 0 adding = .ok duration s₁ ∧
        executeBy (fetchBy false) 0 adding = .ok duration' v ∧ executeBy (fetchBy false) 1 v = .ok duration'' s₂ ∧
        ∃ history, s₂ = ⟨⟨{ s₁.core.cpu with history := history }, s₁.core.memory⟩, s₁.channels⟩ := by
  have hbefore : adding.core.BeforeNop 0x38100002#32 :=
    ⟨by decide, by decide +kernel, by decide, by decide, by decide, by decide⟩
  have hleads : LeadsOn 0 ⟨0x38100002#32⟩ adding added := ⟨⟨4, rfl⟩, by decide, by decide, by decide⟩
  exact ⟨hbefore, hleads, by decide, (executeBy_trailing_nop hbefore hleads 1).2⟩

end Hardware
end Concept32
