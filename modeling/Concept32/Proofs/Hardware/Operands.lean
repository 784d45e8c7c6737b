import Concept32.Proofs.Hardware.Traps

/-!
# From an instruction to its operand

Before an instruction is carried out an execute instruction is followed to the one that it names, the opcode is
decoded and the operand is found. All of this only reads, whatever comes of it; what an instruction changes it
changes with its operand at hand.
-/

namespace Concept32.Hardware
open Concept32.Core EStateM
variable {δ ω : Type} {s : Hardware δ ω} {core core' : Core} {i : Instruction} {next : Word} {opcode : Opcode} {o : Operand}
  {t : Trap} {now : Nat}

/-- The instruction that is carried out: the instruction itself, or the one that an execute instruction names. -/
def targetOf (i : Instruction) (next : Word) : Concept32.Exec Instruction := do
  if i.isExecute then
    let target ← executeTarget i next
    if target.isExecute then throw .undefinedInstruction else return target
  else return i

/-- The operation of an instruction with its operand. -/
def operationOf (i : Instruction) (next : Word) : Concept32.Exec (Opcode × Operand) := do
  match i.opcode? (← Concept32.Exec.based) with
  | none => throw .undefinedInstruction
  | some opcode => return (opcode, ← Concept32.Exec.operandOf i opcode.format next)

/-- The operation that an instruction carries out, by itself or through an execute instruction, with its operand. -/
def prepare (i : Instruction) (next : Word) : Concept32.Exec (Opcode × Operand) := do
  operationOf (← targetOf i next) next

theorem reads_targetOf : Concept32.Exec.Reads (targetOf i next) := by
  rw [targetOf]
  split
  · refine .bind Concept32.Exec.reads_executeTarget fun _ => ?_
    split
    · exact .throw
    · exact .pure
  · exact .pure

theorem reads_operationOf : Concept32.Exec.Reads (operationOf i next) := by
  rw [operationOf]
  refine .bind Concept32.Exec.ends_ask fun _ => ?_
  split
  · exact .throw
  · exact .bind Concept32.Exec.reads_operandOf fun _ => .pure

theorem reads_prepare : Concept32.Exec.Reads (prepare i next) :=
  .bind reads_targetOf fun _ => reads_operationOf

/-! ### What has been found -/

theorem carriedOut?_of_targetOf {target : Instruction} (h : targetOf i next core = .ok target core') :
    carriedOut? i next core = some target := by
  rw [targetOf] at h
  rw [carriedOut?]
  split at h
  · next hexecute =>
    rw [if_pos hexecute]
    obtain ⟨found, u, hfound, hrest⟩ := bind_eq_ok.mp h
    rw [hfound]
    split at hrest
    · cases hrest
    · cases hrest
      rfl
  · next hexecute =>
    rw [if_neg hexecute]
    cases h
    rfl

theorem operationOf_eq_ok (h : operationOf i next core = .ok (opcode, o) core') :
    i.opcode? core.cpu.psd.based = some opcode ∧
      Concept32.Exec.operandOf i opcode.format next core = .ok o core' := by
  obtain ⟨based, u, hbased, hrest⟩ := bind_eq_ok.mp h
  cases hbased
  cases hopcode : i.opcode? core.cpu.psd.based with
  | none =>
    rw [hopcode] at hrest
    cases hrest
  | some found =>
    rw [hopcode] at hrest
    obtain ⟨o, v, hoperand, hpair⟩ := bind_eq_ok.mp hrest
    cases hpair
    exact ⟨rfl, hoperand⟩

/-- The operation is that of the instruction that is carried out, and so is the operand. -/
structure Prepared (i : Instruction) (next : Word) (core : Core) (opcode : Opcode) (o : Operand) : Prop where
  target : carriedOut? i next core = some o.instruction
  opcode? : o.instruction.opcode? core.cpu.psd.based = some opcode
  next : o.next = next
  /-- Only without base registers the operand has an F bit of its own, from an indirect word. -/
  fBit : core.cpu.psd.based = true → opcode.format = .memory → o.fBit = o.instruction.fBit

theorem prepared_of_prepare (h : prepare i next core = .ok (opcode, o) core') : Prepared i next core opcode o := by
  obtain ⟨target, u, htarget, hoperation⟩ := bind_eq_ok.mp h
  have hpsd : u.cpu.psd = core.cpu.psd := by
    obtain ⟨_, _, rfl⟩ := reads_targetOf.ok htarget
    rfl
  obtain ⟨hopcode, hoperand⟩ := operationOf_eq_ok hoperation
  obtain rfl := Concept32.Exec.operandOf_instruction hoperand
  refine ⟨carriedOut?_of_targetOf htarget, hpsd ▸ hopcode, Concept32.Exec.operandOf_next hoperand,
    fun hbased hformat => ?_⟩
  rw [hformat] at hoperand
  exact (Concept32.Exec.resolve_eq_ok hoperand).2.2 (hpsd ▸ hbased)

/-! ### Carrying the operation out -/

section
variable [Peripheral δ ω]

/-- Carry out an operation with its operand. -/
def carryOut (now : Nat) (opcode : Opcode) (o : Operand) : Exec δ ω Flow :=
  if opcode = .io then ioInstruction now o else onCore (Concept32.Exec.perform opcode o)

theorem perform_eq_carryOut : (perform now i next : Exec δ ω Flow) =
    onCore (operationOf i next) >>= fun (opcode, o) => carryOut now opcode o := by
  rw [perform, operationOf, onCore_bind, bind_assoc]
  refine bind_congr fun based => ?_
  cases i.opcode? based with
  | none => rfl
  | some opcode =>
    dsimp only
    rw [onCore_bind, bind_assoc]
    rfl

theorem dispatch_eq_carryOut : (dispatch now i next : Exec δ ω Flow) =
    onCore (prepare i next) >>= fun (opcode, o) => carryOut now opcode o := by
  rw [dispatch, prepare, targetOf, onCore_bind, bind_assoc]
  split
  · rw [onCore_bind, bind_assoc]
    refine bind_congr fun target => ?_
    split
    · rfl
    · exact perform_eq_carryOut
  · exact perform_eq_carryOut

theorem dispatch_of_prepare (h : prepare i next s.core = .ok (opcode, o) core) :
    dispatch now i next s = carryOut now opcode o ⟨core, s.channels⟩ := by
  have hcore : onCore (prepare i next) s = .ok (opcode, o) ⟨core, s.channels⟩ := by rw [onCore, h]
  rw [dispatch_eq_carryOut, bind_of_ok hcore]

theorem dispatch_of_prepare_error (h : prepare i next s.core = .error t core) :
    dispatch now i next s = .error t ⟨core, s.channels⟩ := by
  have hcore : onCore (prepare i next) s = .error t ⟨core, s.channels⟩ := by rw [onCore, h]
  rw [dispatch_eq_carryOut, bind_of_error hcore]

theorem dispatch_of_perform {flow : Flow} {t : Core} (h : prepare i next s.core = .ok (opcode, o) core) (hio : opcode ≠ .io)
    (hperform : Concept32.Exec.perform opcode o core = .ok flow t) : dispatch now i next s = .ok flow ⟨t, s.channels⟩ := by
  rw [dispatch_of_prepare h, carryOut, if_neg hio, onCore, hperform]

theorem dispatch_of_perform_error {u : Core} (h : prepare i next s.core = .ok (opcode, o) core) (hio : opcode ≠ .io)
    (hperform : Concept32.Exec.perform opcode o core = .error t u) :
    dispatch now i next s = .error t ⟨u, s.channels⟩ := by
  rw [dispatch_of_prepare h, carryOut, if_neg hio, onCore, hperform]

end

end Concept32.Hardware
