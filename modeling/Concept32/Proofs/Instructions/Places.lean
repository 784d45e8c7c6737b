import Concept32.Proofs.Instructions.MemoryOperands

/-!
# Results and their places

An instruction leaves its result in a register, in a register pair or in a field of memory, and changes the condition
codes with it. Everything else stays as it was.
-/

namespace Concept32

@[simp] theorem Psd.codes_withCodes {p : Psd} {cc : ConditionCodes} : (p.withCodes cc).codes = cc := by
  have hfield : ∀ i < 4, codesField.getLsbD (27 + i) = true := by decide
  refine congrArg ConditionCodes.mk (BitVec.eq_of_getLsbD_eq fun i hi => ?_)
  rw [withCodes, BitVec.getLsbD_extractLsb', getLsbD_replaceBits, hfield i hi, if_pos rfl, BitVec.getLsbD_shiftLeft,
    BitVec.getLsbD_setWidth]
  simp [hi, show 27 + i < 32 by omega, show i < 32 by omega]

/-- Where an instruction leaves its result. -/
inductive Place
  | register (r : RegisterNumber)
  | pair (r : RegisterNumber)
  /-- A number of bytes from a physical byte address on. -/
  | field (n bytes : Nat)

namespace Place

/-- The number of bits at a place. -/
def width : Place → Nat
  | .register _ => 32
  | .pair _ => 64
  | .field _ bytes => 8 * bytes

def HasRegister : Place → RegisterNumber → Prop
  | .register r, q => q = r
  | .pair r, q => q = r ∨ q = Exec.nextRegister r
  | .field .., _ => False

def HasByte : Place → Nat → Prop
  | .register _, _ | .pair _, _ => False
  | .field n bytes, k => n ≤ k ∧ k < n + bytes

end Place

/-- The register, or for a doubleword the register pair, that goes with an operand in memory. -/
def Operand.registers (o : Operand) : Place :=
  if o.field = .double then .pair o.register else .register o.register

/-- A doubleword goes with a register pair, whose first register is even. -/
def Operand.Paired (o : Operand) : Prop := o.field = .double → o.register.val % 2 = 0

/-- A register pair as one doubleword. -/
def Cpu.pairAt (c : Cpu) (r : RegisterNumber) : Double := joinWords (c.gpr.get r) (c.gpr.get (Exec.nextRegister r))

namespace Core
variable {s s' t : Core} {place : Place} {value : BitVec place.width} {p : Psd}

/-- What a place holds. -/
def valueAt (s : Core) : (place : Place) → BitVec place.width
  | .register r => s.cpu.gpr.get r
  | .pair r => s.cpu.pairAt r
  | .field n bytes => s.memory.fieldAt n bytes

/-- The number that an operand in memory holds, whose field lies at a physical address. -/
def number (s : Core) (o : Operand) (physical : Word) : Int :=
  o.field.number (s.memory.fieldAt physical.toNat o.field.bytes)

/-- A value has been put into a place under a status doubleword. Nothing else has changed but the notes about the
current instruction. -/
structure Puts (place : Place) (value : BitVec place.width) (p : Psd) (s s' : Core) : Prop where
  value : s'.valueAt place = value
  registers : ∀ r, ¬place.HasRegister r → s'.cpu.gpr.get r = s.cpu.gpr.get r
  memory : ∀ n, ¬place.HasByte n → s'.memory.byteAt n = s.memory.byteAt n
  size : s'.memory.words.size = s.memory.words.size
  processor : ∃ gpr address count,
    s'.cpu = { s.cpu with gpr := gpr, psd := p, faultAddress := address, indirections := count }

theorem Puts.psd (h : Puts place value p s s') : s'.cpu.psd = p := by
  obtain ⟨_, _, _, hcpu⟩ := h.processor
  rw [hcpu]

theorem Puts.of_same (hsame : Same s t) (h : Puts place value p t s') : Puts place value p s s' := by
  obtain ⟨_, _, rfl⟩ := hsame
  exact ⟨h.value, h.registers, h.memory, h.size, h.processor⟩

/-- Nothing has changed but what a place holds, the condition codes and the notes about the current instruction. -/
def KeepsRest (place : Place) (s s' : Core) : Prop :=
  Puts place (s'.valueAt place) (s.cpu.psd.withCodes s'.cpu.psd.codes) s s'

theorem Puts.keepsRest {cc : ConditionCodes} (h : Puts place value (s.cpu.psd.withCodes cc) s s') :
    KeepsRest place s s' := by
  have hcodes : s'.cpu.psd.codes = cc := by rw [h.psd, Psd.codes_withCodes]
  rw [KeepsRest, hcodes]
  exact ⟨rfl, h.registers, h.memory, h.size, h.processor⟩

theorem KeepsRest.of_same (hsame : Same s t) (h : KeepsRest place t s') : KeepsRest place s s' := by
  have hputs := Puts.of_same hsame h
  obtain ⟨_, _, rfl⟩ := hsame
  exact hputs

/-! ### Putting a value into its place -/

theorem get_set_self {registers : Vector Word 8} {r : RegisterNumber} {w : Word} :
    (registers.set r.val w r.isLt).get r = w := Vector.getElem_set_self r.isLt

theorem get_set_of_ne {registers : Vector Word 8} {r q : RegisterNumber} {w : Word} (hne : q ≠ r) :
    (registers.set r.val w r.isLt).get q = registers.get q :=
  Vector.getElem_set_ne r.isLt q.isLt fun h => hne (Fin.ext h.symm)

theorem puts_register {r : RegisterNumber} {w : Word} :
    Puts (.register r) w p s ⟨{ s.cpu with gpr := s.cpu.gpr.set r.val w r.isLt, psd := p }, s.memory⟩ where
  value := get_set_self
  registers _ hne := get_set_of_ne hne
  memory _ _ := rfl
  size := rfl
  processor := ⟨_, _, _, rfl⟩

theorem nextRegister_ne (r : RegisterNumber) : Exec.nextRegister r ≠ r := by
  intro h
  have hval : (r.val + 1) % 8 = r.val := congrArg Fin.val h
  omega

theorem puts_pair {r : RegisterNumber} {d : Double} :
    Puts (.pair r) d p s ⟨{ s.cpu with
      gpr := (s.cpu.gpr.set r.val (highWord d) r.isLt).set (Exec.nextRegister r).val (lowWord d)
        (Exec.nextRegister r).isLt
      psd := p }, s.memory⟩ where
  value := by
    show joinWords (Vector.get _ r) (Vector.get _ (Exec.nextRegister r)) = d
    rw [get_set_of_ne (nextRegister_ne r).symm, get_set_self, get_set_self]
    exact joinWords_highWord_lowWord d
  registers q hne := (get_set_of_ne fun h => hne (.inr h)).trans (get_set_of_ne fun h => hne (.inl h))
  memory _ _ := rfl
  size := rfl
  processor := ⟨_, _, _, rfl⟩

/-- The two words of a pair, each put into its register. -/
theorem puts_words {r : RegisterNumber} {high low : Word} :
    Puts (.pair r) (joinWords high low) p s ⟨{ s.cpu with
      gpr := (s.cpu.gpr.set r.val high r.isLt).set (Exec.nextRegister r).val low (Exec.nextRegister r).isLt
      psd := p }, s.memory⟩ := by
  have hputs := puts_pair (s := s) (p := p) (r := r) (d := joinWords high low)
  rw [highWord_joinWords, lowWord_joinWords] at hputs
  exact hputs

theorem Puts.words {r : RegisterNumber} {high low : Word} (h : Puts (.pair r) (joinWords high low) p s s') :
    s'.cpu.gpr.get r = high ∧ s'.cpu.gpr.get (Exec.nextRegister r) = low := by
  have hpair : joinWords (s'.cpu.gpr.get r) (s'.cpu.gpr.get (Exec.nextRegister r)) = joinWords high low := h.value
  have hhigh := congrArg highWord hpair
  have hlow := congrArg lowWord hpair
  rw [highWord_joinWords, highWord_joinWords] at hhigh
  rw [lowWord_joinWords, lowWord_joinWords] at hlow
  exact ⟨hhigh, hlow⟩

end Core

/-! ### Registers that are read, and the check for overflow -/

namespace Exec
open EStateM
variable {s : Core} {r : RegisterNumber}

theorem gpr_eq : gpr r s = .ok (s.cpu.gpr.get r) s := rfl

theorem requireEven_of_even (h : r.val % 2 = 0) : requireEven r s = .ok () s := by
  rw [requireEven, if_pos h]
  rfl

theorem pair_of_even (h : r.val % 2 = 0) : pair r s = .ok (s.cpu.pairAt r) s := bind_of_ok (requireEven_of_even h)

/-- A register pair that begins with an even register is set as its two registers are. -/
theorem setPair_of_even {d : Double} (h : r.val % 2 = 0) :
    setPair r d = (do setGpr r (highWord d); setGpr (nextRegister r) (lowWord d)) := by
  have hfirst : ∀ q : RegisterNumber, q.val % 2 = 0 → q &&& 6 = q := by decide
  rw [setPair, hfirst r h]

theorem checkOverflow_eq {overflowed : Bool} : checkOverflow overflowed s =
    if overflowed && s.cpu.psd.exceptionsEnabled then .error .arithmeticException s else .ok () s := by
  rw [checkOverflow, bind_of_ok (show psd s = .ok s.cpu.psd s from rfl)]
  split
  · rfl
  · rfl

end Exec
end Concept32
