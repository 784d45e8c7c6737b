import Concept32.Proofs.Hardware.Operands
import Concept32.Proofs.Instructions.Places
import Concept32.Proofs.Words

/-!
# Odd register pairs and misaligned doublewords

An instruction on a register pair is refused if the pair begins with an odd register, and one on a doubleword in memory if
that is not at a multiple of eight. The pair is looked at before the doubleword or after it, but in either case before
anything is changed.
-/

namespace Concept32

/-! ### What must be even and aligned -/

namespace Operand

/-- The address of the doubleword in memory that an instruction on a register pair works on. -/
def doubleword? (o : Operand) (opcode : Opcode) : Option Word :=
  match opcode with
  | .l | .lm | .ln | .st | .stm | .anm | .orm | .eom | .cam | .adm | .sum | .arm =>
    if o.field = .double then some o.operandAddress else none
  | .adf | .mpf => if (o.address.extractLsb' 0 2).toNat = 2 then some (wordBoundary o.address) else none
  | _ => none

/-- The register pairs that an instruction names; the pair of the mask is always that of registers 4 and 5. -/
def pairs (o : Operand) (opcode : Opcode) (based : Bool) : List RegisterNumber :=
  match opcode with
  | .nord | .srad | .srld | .srdbr | .mpr | .mpm | .dvr | .dvm => [o.register]
  | .gen => if o.augment = 5 then [o.register] else []
  | .trr => if o.augment = 1 then [o.register, o.source] else []
  | .imm => if o.augment = 3 ∨ o.augment = 4 then [o.register] else []
  | .adr =>
    match o.augment with
    | 0x2 | 0xA => if based then [o.register] else []
    | 0x9 | 0xB | 0xC | 0xD | 0xE | 0xF => [o.register, o.source]
    | _ => []
  | _ => if (o.doubleword? opcode).isSome then [o.register] else []

/-- A register pair begins with an odd register, or a doubleword is not at a multiple of eight. -/
def Irregular (o : Operand) (opcode : Opcode) (based : Bool) : Prop :=
  (∃ r ∈ o.pairs opcode based, r.val % 2 ≠ 0) ∨ ∃ a ∈ o.doubleword? opcode, a.toNat % 8 ≠ 0

/-- Where the operand in memory begins, and how many bytes it has. -/
def extent (o : Operand) (opcode : Opcode) : Word × Nat :=
  match o.doubleword? opcode with
  | some a => (a, 8)
  | none => (o.operandAddress, o.field.bytes)

end Operand

/-- How an instruction accesses its operand first. -/
def Opcode.access : Opcode → Access
  | .st | .stm => .write
  | _ => .read

/-- Every byte of the operand in memory may be accessed, if there is one. -/
def Core.Accessible (s : Core) (opcode : Opcode) (o : Operand) : Prop :=
  opcode.format = .memory → ∀ k < (o.extent opcode).2, ∃ q,
    s.translated opcode.access ((o.extent opcode).1 + BitVec.ofNat 32 k) = .ok q

/-- An operand of at most a word is always aligned. -/
theorem FieldCode.operandAddress_aligned {field : FieldCode} {a : Word} (h : field ≠ .double) :
    (field.operandAddress a).toNat % field.bytes = 0 := by
  have hboundary : (wordBoundary a).toNat = 4 * (a.toNat / 4) := toNat_wordBoundary
  have hlt := a.isLt
  cases field with
  | byte offset => exact Nat.mod_one _
  | leftHalf =>
    show (wordBoundary a).toNat % 2 = 0
    omega
  | rightHalf =>
    have hnext : (wordBoundary a + 2).toNat = ((wordBoundary a).toNat + 2) % 0x100000000 := BitVec.toNat_add ..
    show (wordBoundary a + 2).toNat % 2 = 0
    omega
  | word =>
    show (wordBoundary a).toNat % 4 = 0
    omega
  | double => exact absurd rfl h

/-- An aligned operand whose bytes may all be accessed is one that may be accessed. -/
theorem Core.allows_of_each {s : Core} {access : Access} {a : Word} {bytes : Nat} (haligned : a.toNat % bytes = 0)
    (hpos : 0 < bytes) (heach : ∀ k < bytes, ∃ q, s.translated access (a + BitVec.ofNat 32 k) = .ok q) :
    ∃ p, s.Allows access a bytes p := by
  obtain ⟨p, hp⟩ := heach 0 hpos
  rw [show BitVec.ofNat 32 0 = 0#32 from rfl, BitVec.add_zero] at hp
  exact ⟨p, haligned, hp, heach⟩

namespace Exec
open Concept32.Core EStateM
variable {α β : Type} {allowed : Prop} {x : Exec α} {f : α → Exec β} {s s' : Core} {o : Operand} {r : RegisterNumber}
  {a : Word} {opcode : Opcode}

/-! ### Refusals -/

/-- The step traps, and if what it works on may be accessed then because of an address. -/
def Refuses (allowed : Prop) (x : Exec α) (s : Core) : Prop :=
  ∃ t s', x s = .error t s' ∧ (allowed → t = .addressSpecification)

namespace Refuses

theorem throw : Refuses allowed (MonadExcept.throw .addressSpecification : Exec α) s := ⟨_, _, rfl, fun _ => rfl⟩

theorem first (h : Refuses allowed x s) : Refuses allowed (x >>= f) s := by
  obtain ⟨t, s', hx, ht⟩ := h
  exact ⟨t, s', bind_of_error hx, ht⟩

theorem after {v : α} (hx : x s = .ok v s') (h : Refuses allowed (f v) s') : Refuses allowed (x >>= f) s := by
  rw [Refuses, bind_of_ok hx]
  exact h

/-- A step that goes well if what it works on may be accessed, before one that is refused anyway. -/
theorem reached (hx : allowed → ∃ v s', x s = .ok v s') (h : ∀ v s', Refuses allowed (f v) s') :
    Refuses allowed (x >>= f) s := by
  cases hstep : x s with
  | ok v s' => exact after hstep (h v s')
  | error t s' =>
    refine ⟨t, s', bind_of_error hstep, fun hallowed => ?_⟩
    obtain ⟨v, u, hok⟩ := hx hallowed
    cases hstep.symm.trans hok

theorem requireEven {f : PUnit → Exec β} (h : r.val % 2 ≠ 0 ∨ Refuses allowed (f ⟨⟩) s) :
    Refuses allowed (requireEven r >>= f) s := by
  by_cases heven : r.val % 2 = 0
  · exact after (requireEven_of_even heven) (h.resolve_left fun hodd => hodd heven)
  · rw [Exec.requireEven, if_neg heven]
    exact first throw

theorem pair {f : Double → Exec β} (h : r.val % 2 ≠ 0 ∨ ∀ d, Refuses allowed (f d) s) :
    Refuses allowed (pair r >>= f) s := by
  by_cases heven : r.val % 2 = 0
  · exact after (pair_of_even heven) (h.resolve_left (fun hodd => hodd heven) _)
  · rw [Exec.pair, Exec.requireEven, if_neg heven]
    exact first (first throw)

/-- A doubleword is refused if it is misaligned; otherwise it is read if it may be accessed. -/
theorem readDouble {f : Double → Exec β}
    (hallowed : allowed → ∀ k < 8, ∃ q, s.translated .read (a + BitVec.ofNat 32 k) = .ok q)
    (h : a.toNat % 8 ≠ 0 ∨ ∀ d s', Refuses allowed (f d) s') : Refuses allowed (readDouble a >>= f) s := by
  by_cases haligned : a.toNat % 8 = 0
  · refine reached (fun hyes => ?_) (h.resolve_left fun hmisaligned => hmisaligned haligned)
    obtain ⟨p, hallows⟩ := allows_of_each haligned (by decide) (hallowed hyes)
    exact ⟨_, _, readDouble_of_allows hallows⟩
  · rw [Exec.readDouble, requireAligned, if_neg haligned]
    exact first (first throw)

theorem readOperandDouble {f : Double → Exec β} (hfield : o.field = .double)
    (hallowed : allowed → ∀ k < 8, ∃ q, s.translated .read (o.operandAddress + BitVec.ofNat 32 k) = .ok q)
    (h : o.operandAddress.toNat % 8 ≠ 0 ∨ ∀ d s', Refuses allowed (f d) s') :
    Refuses allowed (readOperandDouble o >>= f) s := by
  rw [Exec.readOperandDouble, hfield]
  exact readDouble hallowed h

theorem writeOperandDouble {d : Double} (hfield : o.field = .double) (h : o.operandAddress.toNat % 8 ≠ 0) :
    Refuses allowed (writeOperandDouble o d) s := by
  rw [Exec.writeOperandDouble, hfield]
  show Refuses allowed (writeDouble o.operandAddress d) s
  rw [writeDouble, requireAligned, if_neg h]
  exact first throw

/-- An operand of at most a word is read if it may be accessed, and a doubleword is refused. -/
theorem readOperand {f : Word → Exec β}
    (hallowed : allowed → ∀ k < o.field.bytes, ∃ q, s.translated .read (o.operandAddress + BitVec.ofNat 32 k) = .ok q)
    (h : ∀ w s', Refuses allowed (f w) s') : Refuses allowed (readOperand o >>= f) s := by
  by_cases hfield : o.field = .double
  · rw [Exec.readOperand, hfield]
    exact first throw
  · refine reached (fun hyes => ?_) h
    have hpos : 0 < o.field.bytes := by cases o.field <;> simp [FieldCode.bytes]
    obtain ⟨p, hallows⟩ := allows_of_each (FieldCode.operandAddress_aligned hfield) hpos (hallowed hyes)
    exact ⟨_, _, readOperand_of_allows hfield hallows⟩

end Refuses

/-! ### Instructions on doublewords in memory -/

theorem refuses_floatMemory {f : FloatOperation} (hlow : (o.address.extractLsb' 0 2).toNat = 2)
    (heach : allowed → ∀ k < 8, ∃ q, s.translated .read (wordBoundary o.address + BitVec.ofNat 32 k) = .ok q)
    (h : o.register.val % 2 ≠ 0 ∨ (wordBoundary o.address).toNat % 8 ≠ 0) : Refuses allowed (floatMemory o f) s := by
  rw [floatMemory, hlow]
  exact .readDouble heach (h.symm.imp_right fun hodd _ _ => .pair (.inl hodd))

theorem refuses_doubleword (hdouble : o.doubleword? opcode = some a)
    (heach : allowed → ∀ k < 8, ∃ q, s.translated opcode.access (a + BitVec.ofNat 32 k) = .ok q)
    (h : o.register.val % 2 ≠ 0 ∨ a.toNat % 8 ≠ 0) : Refuses allowed (perform opcode o) s := by
  cases opcode with
  | l =>
    obtain ⟨hfield, ⟨⟩⟩ := Option.ite_none_right_eq_some.mp hdouble
    rw [perform, load, if_pos hfield]
    exact .requireEven (h.imp_right fun hmisaligned => .readOperandDouble hfield heach (.inl hmisaligned))
  | lm =>
    obtain ⟨hfield, ⟨⟩⟩ := Option.ite_none_right_eq_some.mp hdouble
    rw [perform, loadMasked, if_pos hfield]
    exact .requireEven (h.imp_right fun hmisaligned => .readOperandDouble hfield heach (.inl hmisaligned))
  | ln =>
    obtain ⟨hfield, ⟨⟩⟩ := Option.ite_none_right_eq_some.mp hdouble
    rw [perform, loadNegative, if_pos hfield]
    exact .requireEven (h.imp_right fun hmisaligned => .readOperandDouble hfield heach (.inl hmisaligned))
  | st =>
    obtain ⟨hfield, ⟨⟩⟩ := Option.ite_none_right_eq_some.mp hdouble
    rw [perform, store, if_pos hfield]
    exact .pair (h.imp_right fun hmisaligned _ => .first (.writeOperandDouble hfield hmisaligned))
  | stm =>
    obtain ⟨hfield, ⟨⟩⟩ := Option.ite_none_right_eq_some.mp hdouble
    rw [perform, storeMasked, if_pos hfield]
    exact .pair (h.imp_right fun hmisaligned _ => .pair (.inr fun _ => .first (.writeOperandDouble hfield hmisaligned)))
  | anm | orm | eom =>
    obtain ⟨hfield, ⟨⟩⟩ := Option.ite_none_right_eq_some.mp hdouble
    rw [perform, logicalMemory, if_pos hfield]
    exact .pair (h.imp_right fun hmisaligned _ => .readOperandDouble hfield heach (.inl hmisaligned))
  | adm | sum =>
    obtain ⟨hfield, ⟨⟩⟩ := Option.ite_none_right_eq_some.mp hdouble
    rw [perform, combineMemory, if_pos hfield]
    exact .pair (h.imp_right fun hmisaligned _ => .readOperandDouble hfield heach (.inl hmisaligned))
  | cam =>
    obtain ⟨hfield, ⟨⟩⟩ := Option.ite_none_right_eq_some.mp hdouble
    -- The doubleword is read before the pair is looked at.
    rw [perform, compareMemory, if_pos hfield]
    exact .readOperandDouble hfield heach (h.symm.imp_right fun hodd _ _ => .pair (.inl hodd))
  | arm =>
    obtain ⟨hfield, ⟨⟩⟩ := Option.ite_none_right_eq_some.mp hdouble
    rw [perform, addToMemory, hfield]
    exact .readOperandDouble hfield heach (h.symm.imp_right fun hodd _ _ => .pair (.inl hodd))
  | adf | mpf =>
    obtain ⟨hlow, ⟨⟩⟩ := Option.ite_none_right_eq_some.mp hdouble
    exact refuses_floatMemory hlow heach h
  | _ => cases hdouble

/-! ### Instructions on register pairs alone -/

theorem refuses_multiply {w : Word} (h : r.val % 2 ≠ 0) : Refuses allowed (multiply r w) s := .requireEven (.inl h)

theorem refuses_divide {w : Word} (h : r.val % 2 ≠ 0) : Refuses allowed (divide r w) s := .pair (.inl h)

theorem refuses_copyPair (h : o.register.val % 2 ≠ 0 ∨ o.source.val % 2 ≠ 0) : Refuses allowed (copyPair o) s :=
  .pair (h.symm.imp_right fun hodd _ => .requireEven (.inl hodd))

theorem refuses_fixDouble (h : o.register.val % 2 ≠ 0 ∨ o.source.val % 2 ≠ 0) : Refuses allowed (fixDouble o) s :=
  .requireEven (h.imp_right fun hodd => .pair (.inl hodd))

theorem refuses_floatFromDouble (h : o.register.val % 2 ≠ 0 ∨ o.source.val % 2 ≠ 0) :
    Refuses allowed (floatFromDouble o) s :=
  .requireEven (h.imp_right fun hodd => .pair (.inl hodd))

theorem refuses_floatRegisters {f : FloatOperation} (hmasked : 8 ≤ o.augment)
    (h : o.register.val % 2 ≠ 0 ∨ o.source.val % 2 ≠ 0) : Refuses allowed (floatRegisters o f) s := by
  rw [floatRegisters, if_pos (show o.isMasked = true from decide_eq_true hmasked)]
  exact .pair (h.symm.imp_right fun hodd _ => .pair (.inl hodd))

theorem refuses_shift {kind : Shift} (hdouble : kind.double = true) (h : o.register.val % 2 ≠ 0) :
    Refuses allowed (shift o kind) s := by
  rw [shift, if_pos hdouble]
  exact .pair (.inl h)

/-! ### Every instruction on a pair -/

theorem exists_doubleword_of_irregular {based : Bool}
    (hpairs : o.pairs opcode based = if (o.doubleword? opcode).isSome then [o.register] else [])
    (h : o.Irregular opcode based) :
    ∃ a, o.doubleword? opcode = some a ∧ (o.register.val % 2 ≠ 0 ∨ a.toNat % 8 ≠ 0) := by
  rw [Operand.Irregular, hpairs] at h
  cases hdouble : o.doubleword? opcode with
  | none => simp [hdouble] at h
  | some a => exact ⟨a, rfl, by simpa [hdouble] using h⟩

theorem exists_odd_of_irregular {based : Bool} (hdouble : o.doubleword? opcode = none) (h : o.Irregular opcode based) :
    ∃ r ∈ o.pairs opcode based, r.val % 2 ≠ 0 := by
  rw [Operand.Irregular, hdouble] at h
  exact h.resolve_right fun ⟨_, ha, _⟩ => nomatch ha

theorem odd_of_mem_pair (hr : r ∈ [o.register, o.source]) (hodd : r.val % 2 ≠ 0) :
    o.register.val % 2 ≠ 0 ∨ o.source.val % 2 ≠ 0 := by
  rcases List.mem_cons.mp hr with rfl | hr
  · exact .inl hodd
  · exact .inr (List.mem_singleton.mp hr ▸ hodd)

theorem refuses_addGroup (h : o.Irregular .adr s.cpu.psd.based) : Refuses allowed (addGroup o) s := by
  obtain ⟨r, hr, hodd⟩ := exists_odd_of_irregular rfl h
  have hbased : r ∈ (if s.cpu.psd.based then [o.register] else []) →
      based s = .ok true s ∧ o.register.val % 2 ≠ 0 := fun hr => by
    cases hmode : s.cpu.psd.based with
    | true =>
      rw [hmode, if_pos rfl] at hr
      exact ⟨congrArg (Result.ok · s) hmode, List.mem_singleton.mp hr ▸ hodd⟩
    | false =>
      rw [hmode] at hr
      cases hr
  rw [Operand.pairs] at hr
  rw [addGroup]
  split at hr
  · next heq =>
    rw [heq]
    exact .after (hbased hr).1 (.after rfl (refuses_multiply (hbased hr).2))
  · next heq =>
    rw [heq]
    exact .after (hbased hr).1 (.after rfl (refuses_divide (hbased hr).2))
  · next heq =>
    rw [heq]
    exact refuses_floatRegisters (by omega) (odd_of_mem_pair hr hodd)
  · next heq =>
    rw [heq]
    exact refuses_floatRegisters (by omega) (odd_of_mem_pair hr hodd)
  · next heq =>
    rw [heq]
    exact refuses_floatRegisters (by omega) (odd_of_mem_pair hr hodd)
  · next heq =>
    rw [heq]
    exact refuses_fixDouble (odd_of_mem_pair hr hodd)
  · next heq =>
    rw [heq]
    exact refuses_floatRegisters (by omega) (odd_of_mem_pair hr hodd)
  · next heq =>
    rw [heq]
    exact refuses_floatFromDouble (odd_of_mem_pair hr hodd)
  · cases hr

theorem refuses_perform (h : o.Irregular opcode s.cpu.psd.based) :
    Refuses (s.Accessible opcode o) (perform opcode o) s := by
  have hdoubleword : o.pairs opcode s.cpu.psd.based = (if (o.doubleword? opcode).isSome then [o.register] else []) →
      opcode.format = .memory → Refuses (s.Accessible opcode o) (perform opcode o) s := fun hpairs hformat => by
    obtain ⟨a, hdouble, hor⟩ := exists_doubleword_of_irregular hpairs h
    refine refuses_doubleword hdouble (fun hyes => ?_) hor
    have heach := hyes hformat
    rw [Operand.extent, hdouble] at heach
    exact heach
  have hregister : o.pairs opcode s.cpu.psd.based = [o.register] → o.doubleword? opcode = none →
      o.register.val % 2 ≠ 0 := fun hpairs hdouble => by
    obtain ⟨r, hr, hodd⟩ := exists_odd_of_irregular hdouble h
    rw [hpairs] at hr
    exact List.mem_singleton.mp hr ▸ hodd
  cases opcode with
  | l | lm | ln | st | stm | anm | orm | eom | cam | adm | sum | arm | adf | mpf => exact hdoubleword rfl rfl
  | nord => exact .pair (.inl (hregister rfl rfl))
  | srad | srld =>
    rw [perform]
    exact refuses_shift rfl (hregister rfl rfl)
  | srdbr =>
    refine refuses_shift ?_ (hregister rfl rfl)
    rw [Shift.ofSelector.eq_def]
    split <;> rfl
  | mpr => exact .after rfl (refuses_multiply (hregister rfl rfl))
  | dvr => exact .after rfl (refuses_divide (hregister rfl rfl))
  | mpm => exact .readOperand (fun hyes => hyes rfl) fun _ _ => refuses_multiply (hregister rfl rfl)
  | dvm => exact .readOperand (fun hyes => hyes rfl) fun _ _ => refuses_divide (hregister rfl rfl)
  | adr => exact refuses_addGroup h
  | gen =>
    obtain ⟨r, hr, hodd⟩ := exists_odd_of_irregular rfl h
    obtain ⟨haugment, hr⟩ := List.mem_ite_nil_right.mp hr
    rw [perform, generalGroup, haugment]
    exact .requireEven (.inl (List.mem_singleton.mp hr ▸ hodd))
  | trr =>
    obtain ⟨r, hr, hodd⟩ := exists_odd_of_irregular rfl h
    obtain ⟨haugment, hr⟩ := List.mem_ite_nil_right.mp hr
    rw [perform, transferGroup, haugment]
    exact refuses_copyPair (odd_of_mem_pair hr hodd)
  | imm =>
    obtain ⟨r, hr, hodd⟩ := exists_odd_of_irregular rfl h
    obtain ⟨haugment, hr⟩ := List.mem_ite_nil_right.mp hr
    rcases haugment with haugment | haugment
    · rw [perform, immediateGroup, haugment]
      exact refuses_multiply (List.mem_singleton.mp hr ▸ hodd)
    · rw [perform, immediateGroup, haugment]
      exact refuses_divide (List.mem_singleton.mp hr ▸ hodd)
  | _ =>
    obtain ⟨r, hr, -⟩ := exists_odd_of_irregular rfl h
    cases hr

theorem not_storesInSteps_of_irregular {based : Bool} (h : o.Irregular opcode based) :
    ¬storesInSteps opcode o := fun hsteps => by
  cases opcode with
  | stf | calm | reg | lwbr =>
    obtain ⟨r, hr, -⟩ := exists_odd_of_irregular rfl h
    cases hr
  | imm =>
    obtain ⟨r, hr, -⟩ := exists_odd_of_irregular rfl h
    obtain ⟨haugment, -⟩ := List.mem_ite_nil_right.mp hr
    have hcall : o.augment = 6 := hsteps
    omega
  | _ => exact hsteps

end Exec

namespace Hardware
open Concept32.Core EStateM
variable {δ ω : Type} [Peripheral δ ω] {s : Hardware δ ω} {i : Instruction} {next : Word}

/-- An instruction on an odd register pair or a misaligned doubleword traps and changes nothing but the notes that the
processor keeps about it. It traps because of an address if its operand is found and may be accessed. -/
theorem dispatch_of_irregular (now : Nat) (h : ∀ opcode o core, prepare i next s.core = .ok (opcode, o) core →
      o.Irregular opcode core.cpu.psd.based) :
    ∃ t s', dispatch now i next s = .error t s' ∧
      (∃ address count, s' =
        ⟨⟨{ s.core.cpu with faultAddress := address, indirections := count }, s.core.memory⟩, s.channels⟩) ∧
      ∀ opcode o core, prepare i next s.core = .ok (opcode, o) core → core.Accessible opcode o →
        t = .addressSpecification := by
  cases hprepare : prepare i next s.core with
  | error t core =>
    obtain ⟨address, count, rfl⟩ := reads_prepare.error hprepare
    exact ⟨t, _, dispatch_of_prepare_error hprepare, ⟨address, count, rfl⟩, fun _ _ _ h => nomatch h⟩
  | ok found core =>
    obtain ⟨opcode, o⟩ := found
    have hirregular := h opcode o core hprepare
    obtain ⟨t, u, hperform, ht⟩ := Concept32.Exec.refuses_perform hirregular
    have hsteps := Concept32.Exec.not_storesInSteps_of_irregular hirregular
    have hio : opcode ≠ .io := fun heq => by
      subst heq
      obtain ⟨r, hr, -⟩ := Concept32.Exec.exists_odd_of_irregular rfl hirregular
      cases hr
    have hsame : Same s.core u :=
      Trans.trans (reads_prepare.ok hprepare) ((Concept32.Exec.commits_perform hsteps).error hperform)
    obtain ⟨address, count, rfl⟩ := hsame
    refine ⟨t, _, dispatch_of_perform_error hprepare hio hperform, ⟨address, count, rfl⟩, fun _ _ _ hfound hyes => ?_⟩
    cases hfound
    exact ht hyes

/-- A machine with two words of memory. -/
def twoWords : Hardware StandardDevice Char where
  core := { cpu := Cpu.initial .c3227 0, memory := ⟨#[0, 0], by simp⟩ }
  channels := .empty

/-- CAM of registers 1 and 2 with the doubleword at zero. -/
def compareOdd : Instruction := ⟨0x90800002#32⟩

def firstDouble : Operand := ⟨compareOdd, 2, false, .double, none, 4⟩

/-- The doubleword is read before the pair is refused. -/
theorem dispatch_of_irregular_compareOdd :
    (∀ opcode o core, prepare compareOdd 4 twoWords.core = .ok (opcode, o) core →
      o.Irregular opcode core.cpu.psd.based) ∧
    ∃ s' : Hardware StandardDevice Char, dispatch 0 compareOdd 4 twoWords = .error .addressSpecification s' ∧
      ∃ address count, s' = ⟨⟨{ twoWords.core.cpu with faultAddress := address, indirections := count },
        twoWords.core.memory⟩, twoWords.channels⟩ := by
  have hprepare : prepare compareOdd 4 twoWords.core = .ok (.cam, firstDouble) twoWords.core := rfl
  have hodd : firstDouble.Irregular .cam false := .inl ⟨firstDouble.register, List.mem_singleton.mpr rfl, by decide⟩
  have hirregular : ∀ opcode o core, prepare compareOdd 4 twoWords.core = .ok (opcode, o) core →
      o.Irregular opcode core.cpu.psd.based := fun _ _ _ h => by
    cases hprepare.symm.trans h
    exact hodd
  have haccessible : twoWords.core.Accessible .cam firstDouble := fun _ k hk => ⟨BitVec.ofNat 32 k, by
    match k, hk with
    | 0, _ | 1, _ | 2, _ | 3, _ | 4, _ | 5, _ | 6, _ | 7, _ => rfl⟩
  obtain ⟨t, s', htrap, hsame, ht⟩ := dispatch_of_irregular 0 hirregular
  exact ⟨hirregular, s', ht _ _ _ hprepare haccessible ▸ htrap, hsame⟩

end Hardware
end Concept32
