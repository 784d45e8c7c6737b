import Concept32.Instructions.Dispatch
import Concept32.Proofs.Exec
import Concept32.Proofs.Words

/-!
# Kinds of steps

A kind of steps that has what instructions are made of in it, and with the parts of a sequence the sequence, has every
instruction in it. The instructions that take hold of the processor itself are the exceptions: those that change the
addressing mode, write to the scratchpad, load a status doubleword or call the supervisor.
-/

namespace Concept32

/-- The trap is neither a supervisor call nor for a page. -/
class Trap.Plain (t : Trap) : Prop where
  not_call : t ≠ .supervisorCall
  not_page : ∀ page, t ≠ .demandPage page

namespace Trap

instance : undefinedInstruction.Plain := ⟨by decide, fun _ => Trap.noConfusion⟩

instance : privilegeViolation.Plain := ⟨by decide, fun _ => Trap.noConfusion⟩

instance : privilegedHalt.Plain := ⟨by decide, fun _ => Trap.noConfusion⟩

instance : addressSpecification.Plain := ⟨by decide, fun _ => Trap.noConfusion⟩

instance : arithmeticException.Plain := ⟨by decide, fun _ => Trap.noConfusion⟩

instance : systemCheck.Plain := ⟨by decide, fun _ => Trap.noConfusion⟩

instance {e : MemoryError} : (ofMemoryError e).Plain := by
  cases e with
  | nonPresent => exact ⟨Trap.noConfusion, fun _ => Trap.noConfusion⟩
  | misaligned => exact ⟨Trap.noConfusion, fun _ => Trap.noConfusion⟩

instance {e : MapLoadError} : e.trap.Plain := by
  cases e with
  | memory => exact ⟨Trap.noConfusion, fun _ => Trap.noConfusion⟩
  | tooManyEntries => exact ⟨Trap.noConfusion, fun _ => Trap.noConfusion⟩

end Trap

namespace Psd

/-- Word 1: the privilege, the addressing mode and the program counter. -/
def controlField : Word := 0x86FFFFFF#32

theorem control_withCodes (p : Psd) {cc : ConditionCodes} :
    (p.withCodes cc).word1 &&& controlField = p.word1 &&& controlField :=
  replaceBits_and (by decide)

theorem control_withExceptions (p : Psd) {on : Bool} :
    (p.withExceptions on).word1 &&& controlField = p.word1 &&& controlField := by
  rw [withExceptions, withBits_eq_replaceBits, replaceBits_and (by decide)]

end Psd

/-- What the control of the processor rests on is as it was. -/
structure Cpu.Computes (c c' : Cpu) : Prop where
  model : c'.model = c.model
  levels : c'.levels = c.levels
  /-- Every slot but that of the status word. -/
  slots : ∀ slot, slot % 256 ≠ Scratchpad.statusSlot → c'.scratchpad.get slot = c.scratchpad.get slot
  control : c'.psd.word1 &&& Psd.controlField = c.psd.word1 &&& Psd.controlField

namespace Cpu
variable {c c' c'' : Cpu}

theorem Computes.refl : Computes c c := ⟨rfl, rfl, fun _ _ => rfl, rfl⟩

theorem Computes.trans (h : Computes c c') (h' : Computes c' c'') : Computes c c'' where
  model := h'.model.trans h.model
  levels := h'.levels.trans h.levels
  slots slot hslot := (h'.slots slot hslot).trans (h.slots slot hslot)
  control := h'.control.trans h.control

/-- The control of the processor, the mapping mode and the count of indirect words are as they were. -/
structure Quiet (c c' : Cpu) : Prop extends Computes c c' where
  word2 : c'.psd.word2 = c.psd.word2
  indirections : c'.indirections = c.indirections

theorem quiet_withStatus {w : Word} : Quiet c (c.withStatus w) :=
  ⟨⟨rfl, rfl, fun _ hslot => Scratchpad.get_set_of_ne hslot, rfl⟩, rfl, rfl⟩

/-- A change of one interrupt level. -/
inductive Switches : Cpu → Cpu → Prop
  | enable {c : Cpu} (level : Nat) : Switches c (c.enableLevel level)
  | disable {c : Cpu} (level : Nat) : Switches c (c.disableLevel level)
  | activate {c : Cpu} (level : Nat) : Switches c (c.activateLevel level)
  | deactivate {c : Cpu} (level : Nat) : Switches c (c.deactivateLevel level)
  | request {c : Cpu} (level : Nat) : Switches c (c.requestInterrupt level)
  | clear {c : Cpu} (level : Nat) : Switches c { c with levels := c.levels.clearRequest level }

end Cpu

namespace Exec
open Concept32.Cpu EStateM

/-- The kind has the steps that instructions are made of, and with the parts of a sequence the sequence. -/
class Kind (K : (α : Type) → Exec α → Prop) : Prop where
  pure : ∀ {α : Type} (a : α), K α (pure a)
  throw : ∀ {α : Type} (t : Trap) [t.Plain], K α (throw t)
  bind : ∀ {α β : Type} {x : Exec α} {f : α → Exec β}, K α x → (∀ a, K β (f a)) → K β (x >>= f)
  ask : ∀ {α : Type} (f : Cpu → α), K α (ask f)
  fromMemory : ∀ {α : Type} (f : Memory → Except MemoryError α), K α (fromMemory f)
  toMemory : ∀ {α : Type} (x : Memory.Action α), K α (toMemory x)
  translate : ∀ (logical : Word) (access : Access), K Word (translate logical access)
  loadMap : ∀ cpix : Word, K Unit (loadMap cpix)
  modifyCpu : ∀ {f : Cpu → Cpu}, (∀ c, Computes c (f c)) → K Unit (modifyCpu f)

/-- The kind has the steps that instructions without an operand in memory are made of, and with the parts of a sequence
the sequence. -/
class RegisterKind (K : (α : Type) → Exec α → Prop) : Prop where
  pure : ∀ {α : Type} (a : α), K α (pure a)
  throw : ∀ {α : Type} (t : Trap) [t.Plain], K α (throw t)
  bind : ∀ {α β : Type} {x : Exec α} {f : α → Exec β}, K α x → (∀ a, K β (f a)) → K β (x >>= f)
  ask : ∀ {α : Type} (f : Cpu → α), K α (ask f)
  loadMap : ∀ cpix : Word, K Unit (loadMap cpix)
  modifyCpu : ∀ {f : Cpu → Cpu}, (∀ c, Quiet c (f c)) → K Unit (modifyCpu f)

/-- The step is of the kind. The parts of a sequence and the branches of a choice are found by inference. -/
class Of (K : (α : Type) → Exec α → Prop) {α : Type} (x : Exec α) : Prop where
  holds : K α x

variable {K : (α : Type) → Exec α → Prop} {α β : Type} {o : Operand} {r : RegisterNumber} {a w : Word}
  {d : Double} {i : Instruction} {next : Word}

section
variable [RegisterKind K]

/-! ### Parts -/

instance {b : α} : Of K (pure b : Exec α) := ⟨RegisterKind.pure b⟩

instance {t : Trap} [t.Plain] : Of K (throw t : Exec α) := ⟨RegisterKind.throw t⟩

instance {x : Exec α} {f : α → Exec β} [hx : Of K x] [hf : ∀ b, Of K (f b)] : Of K (x >>= f) :=
  ⟨RegisterKind.bind hx.holds fun b => (hf b).holds⟩

omit [RegisterKind K] in
instance {p : Prop} [Decidable p] {x y : Exec α} [Of K x] [Of K y] : Of K (if p then x else y) := by
  split <;> infer_instance

instance {f : Cpu → α} : Of K (ask f) := ⟨RegisterKind.ask f⟩

instance {cpix : Word} : Of K (loadMap cpix) := ⟨RegisterKind.loadMap cpix⟩

/-- A change of the processor that its control does not rest on. -/
theorem of_modifyCpu {f : Cpu → Cpu} (h : ∀ c, Quiet c (f c)) : Of K (modifyCpu f) := ⟨RegisterKind.modifyCpu h⟩

instance {g : Cpu → Vector Word 8} : Of K (modifyCpu fun c => { c with gpr := g c }) :=
  of_modifyCpu fun _ => ⟨⟨rfl, rfl, fun _ _ => rfl, rfl⟩, rfl, rfl⟩

instance {g : Cpu → Vector Word 8} : Of K (modifyCpu fun c => { c with base := g c }) :=
  of_modifyCpu fun _ => ⟨⟨rfl, rfl, fun _ _ => rfl, rfl⟩, rfl, rfl⟩

instance {g : Cpu → Vector Word 32} : Of K (modifyCpu fun c => { c with protect := g c }) :=
  of_modifyCpu fun _ => ⟨⟨rfl, rfl, fun _ _ => rfl, rfl⟩, rfl, rfl⟩

/-! ### Registers and conditions -/

instance : Of K psd := by rw [psd]; infer_instance

instance : Of K based := by rw [based]; infer_instance

instance : Of K codes := by rw [codes]; infer_instance

instance : Of K (gpr r) := by rw [gpr]; infer_instance

instance : Of K (base r) := by rw [base]; infer_instance

instance {cc : ConditionCodes} : Of K (setCodes cc) := by
  rw [setCodes]
  exact of_modifyCpu fun c => ⟨⟨rfl, rfl, fun _ _ => rfl, c.psd.control_withCodes⟩, rfl, rfl⟩

instance : Of K (setGpr r w) := by rw [setGpr]; infer_instance

instance : Of K (setBase r w) := by rw [setBase]; infer_instance

instance : Of K (requireEven r) := by rw [requireEven]; infer_instance

instance : Of K (pair r) := by rw [pair]; infer_instance

instance : Of K (setPair r d) := by rw [setPair]; infer_instance

instance : Of K requirePrivileged := by rw [requirePrivileged]; infer_instance

instance {overflowed : Bool} : Of K (checkOverflow overflowed) := by rw [checkOverflow]; infer_instance

instance {overflowed : Bool} : Of K (putResult r w overflowed) := by rw [putResult]; infer_instance

instance {overflowed : Bool} : Of K (putPairResult r d overflowed) := by rw [putPairResult]; infer_instance

/-! ### Loads -/

instance : Of K (loadAddress o) := by rw [loadAddress]; infer_instance

instance : Of K (loadEffectiveAddress o) := by rw [loadEffectiveAddress]; infer_instance

instance : Of K (loadWord r w) := by rw [loadWord]; infer_instance

instance : Of K (copyPair o) := by rw [copyPair]; infer_instance

instance : Of K (copyFromBase o) := by rw [copyFromBase]; infer_instance

instance : Of K (copyToBase o) := by rw [copyToBase]; infer_instance

instance : Of K (exchangeBase o) := by rw [exchangeBase]; infer_instance

instance : Of K (addressToBase o) := by rw [addressToBase]; infer_instance

/-! ### Arithmetic -/

instance : Of K (masked o w) := by rw [masked]; infer_instance

instance {f : Word → Word → Word × Bool} : Of K (combineRegisters o f) := by rw [combineRegisters]; infer_instance

instance {f : Word → Word → Word × Bool} : Of K (combineWord r w f) := by rw [combineWord]; infer_instance

instance : Of K (multiply r w) := by rw [multiply]; infer_instance

instance : Of K (divide r w) := by
  have hresult : ∀ result : Option (Word × Word), Of K (do
      match result with
      | some (quotient, remainder) =>
        setGpr r remainder
        setGpr (nextRegister r) quotient
        setCodes (.ofResult quotient false)
      | none =>
        checkOverflow true
        setCodes .overflow
      return Flow.next) := fun result => by
    split <;> infer_instance
  rw [divide]
  infer_instance

instance : Of K (negateRegister o) := by rw [negateRegister]; infer_instance

instance : Of K (round r) := by rw [round]; infer_instance

instance : Of K (extendSign r) := by rw [extendSign]; infer_instance

instance : Of K (compareRegisters o) := by rw [compareRegisters]; infer_instance

instance : Of K (compareWord r w) := by rw [compareWord]; infer_instance

instance : Of K (compareMasked r w) := by rw [compareMasked]; infer_instance

instance {f : LogicalOperation} : Of K (logicalRegisters o f) := by rw [logicalRegisters]; infer_instance

instance {operation : BitOperation} {mask before after : Word} {overflowed : Bool} :
    Of K (putBitCodes operation mask before after overflowed) := by
  rw [putBitCodes]
  infer_instance

instance {operation : BitOperation} : Of K (bitInRegister o operation) := by rw [bitInRegister]; infer_instance

instance : Of K (normaliseRegister o) := by rw [normaliseRegister]; infer_instance

instance : Of K (normalisePair o) := by rw [normalisePair]; infer_instance

instance : Of K (shiftCountZeros o) := by rw [shiftCountZeros]; infer_instance

instance {s : Shift} : Of K (shift o s) := by rw [shift]; infer_instance

/-! ### Floating point -/

instance {f : FloatOperation} : Of K (floatWord f r w) := by rw [floatWord]; infer_instance

instance {f : FloatOperation} : Of K (floatDouble f r d) := by rw [floatDouble]; infer_instance

instance {f : FloatOperation} : Of K (floatRegisters o f) := by rw [floatRegisters]; infer_instance

instance : Of K (fixWord o) := by rw [fixWord]; infer_instance

instance : Of K (fixDouble o) := by rw [fixDouble]; infer_instance

instance : Of K (floatFromWord o) := by rw [floatFromWord]; infer_instance

instance : Of K (floatFromDouble o) := by rw [floatFromDouble]; infer_instance

/-! ### Branches -/

instance : Of K (branch o) := by
  rw [branch]
  dsimp only
  split <;> infer_instance

instance : Of K (branchTrue o) := by rw [branchTrue]; infer_instance

instance : Of K (branchFalse o) := by rw [branchFalse]; infer_instance

instance : Of K (branchIncrementing o) := by rw [branchIncrementing]; infer_instance

instance : Of K (branchRegister r) := by rw [branchRegister]; infer_instance

instance : Of K (returnWord o) := by rw [returnWord]; infer_instance

instance : Of K (branchAndLink o) := by rw [branchAndLink]; infer_instance

instance : Of K (branchSubroutine o w) := by rw [branchSubroutine]; infer_instance

instance : Of K (nextToBase o) := by rw [nextToBase]; infer_instance

/-! ### Control of the processor -/

instance : Of K halt := by rw [halt]; infer_instance

instance : Of K wait := by rw [wait]; infer_instance

instance : Of K (loadSwitches r) := by rw [loadSwitches]; infer_instance

instance {blocked : Bool} : Of K (blockInterrupts blocked) := by
  have hset : Of K (modifyCpu fun c => c.withBlocked blocked) := of_modifyCpu fun _ => quiet_withStatus
  rw [blockInterrupts]
  infer_instance

instance {on : Bool} : Of K (enableExceptions on) := by
  have hset : Of K (modifyPsd fun p => p.withExceptions on) :=
    of_modifyCpu fun c => ⟨⟨rfl, rfl, fun _ _ => rfl, c.psd.control_withExceptions⟩, rfl, rfl⟩
  rw [enableExceptions]
  infer_instance

instance : Of K (loadStatus r) := by rw [loadStatus]; infer_instance

instance : Of K (setStatus r) := by
  have hset : ∀ w, Of K (modifyCpu fun c => c.withStatus w) := fun _ => of_modifyCpu fun _ => quiet_withStatus
  rw [setStatus]
  infer_instance

instance : Of K (loadSecondWord r) := by rw [loadSecondWord]; infer_instance

instance : Of K controlCache := by rw [controlCache]; infer_instance

instance : Of K (codesToRegister r) := by rw [codesToRegister]; infer_instance

instance : Of K (registerToCodes r) := by rw [registerToCodes]; infer_instance

instance : Of K (loadMapRegister r) := by rw [loadMapRegister]; infer_instance

instance : Of K (mapToRegister o) := by rw [mapToRegister]; infer_instance

instance : Of K (scratchpadToRegister o) := by rw [scratchpadToRegister]; infer_instance

instance : Of K (registerToProtection o) := by rw [registerToProtection]; infer_instance

instance : Of K (protectionToRegister o) := by rw [protectionToRegister]; infer_instance

/-! ### Groups -/

instance : Of K undefined := inferInstanceAs (Of K (throw .undefinedInstruction : Exec Flow))

instance : Of K (andGroup o) := by
  rw [andGroup]
  split <;> infer_instance

instance : Of K (exchangeRegisters o) := by rw [exchangeRegisters]; infer_instance

instance : Of K (addGroup o) := by
  rw [addGroup]
  split <;> infer_instance

end

section
variable [Kind K]

-- Each part of a long sequence takes an instance for the kind as well.
set_option synthInstance.maxSize 256

instance : RegisterKind K where
  pure := Kind.pure
  throw := Kind.throw
  bind := Kind.bind
  ask := Kind.ask
  loadMap := Kind.loadMap
  modifyCpu h := Kind.modifyCpu fun c => (h c).toComputes

/-! ### Parts that reach memory -/

instance {f : Memory → Except MemoryError α} : Of K (fromMemory f) := ⟨Kind.fromMemory f⟩

instance {x : Memory.Action α} : Of K (toMemory x) := ⟨Kind.toMemory x⟩

instance {access : Access} : Of K (translate a access) := ⟨Kind.translate a access⟩

instance {g : Cpu → Nat} : Of K (modifyCpu fun c => { c with indirections := g c }) :=
  ⟨Kind.modifyCpu fun _ => ⟨rfl, rfl, fun _ _ => rfl, rfl⟩⟩

/-! ### Access to memory -/

instance {n : Nat} : Of K (requireAligned a n) := by rw [requireAligned]; infer_instance

instance {access : Access} : Of K (readWord a access) := by rw [readWord]; infer_instance

instance : Of K (readHalf a) := by rw [readHalf]; infer_instance

instance : Of K (readByte a) := by rw [readByte]; infer_instance

instance : Of K (readDouble a) := by rw [readDouble]; infer_instance

instance : Of K (writeWord a w) := by rw [writeWord]; infer_instance

instance {h : Half} : Of K (writeHalf a h) := by rw [writeHalf]; infer_instance

instance {b : Byte} : Of K (writeByte a b) := by rw [writeByte]; infer_instance

instance : Of K (writeDouble a d) := by rw [writeDouble]; infer_instance

/-! ### Operands -/

instance {reference : Reference} : Of K (indexed reference) := by rw [indexed]; infer_instance

instance {left : Nat} {reference : Reference} : Of K (follow left reference) := by
  induction left generalizing reference with
  | zero => rw [follow]; infer_instance
  | succ left ih => rw [follow]; infer_instance

instance {isIndexed : Bool} : Of K (resolve i isIndexed next) := by rw [resolve]; infer_instance

instance {format : Format} : Of K (operandOf i format next) := by
  cases format with
  | halfword | immediate => exact inferInstanceAs (Of K (pure _ : Exec Operand))
  | memory | memoryNoIndex => exact inferInstanceAs (Of K (resolve i _ next))

instance : Of K (readOperand o) := by
  rw [readOperand]
  split <;> infer_instance

instance : Of K (readOperandDouble o) := by
  rw [readOperandDouble]
  split <;> infer_instance

instance : Of K (writeOperand o w) := by
  rw [writeOperand]
  split <;> infer_instance

instance : Of K (writeOperandDouble o d) := by
  rw [writeOperandDouble]
  split <;> infer_instance

/-! ### Loads and stores -/

instance : Of K (load o) := by rw [load]; infer_instance

instance : Of K (loadMasked o) := by rw [loadMasked]; infer_instance

instance : Of K (store o) := by rw [store]; infer_instance

instance : Of K (storeMasked o) := by rw [storeMasked]; infer_instance

instance : Of K (storeZero o) := by rw [storeZero]; infer_instance

instance {count : Nat} : Of K (readWords count a) := by
  induction count generalizing a with
  | zero => rw [readWords]; infer_instance
  | succ count ih => rw [readWords]; infer_instance

instance {words : List Word} : Of K (writeWords a words) := by
  induction words generalizing a with
  | nil => rw [writeWords]; infer_instance
  | cons w words ih => rw [writeWords]; infer_instance

instance : Of K (usesBaseFile o) := by rw [usesBaseFile]; infer_instance

instance : Of K (requireFileAddress o) := by rw [requireFileAddress]; infer_instance

instance : Of K (loadFile o) := by rw [loadFile]; infer_instance

instance : Of K (storeFile o) := by rw [storeFile]; infer_instance

instance : Of K (loadRealAddress o) := by rw [loadRealAddress]; infer_instance

instance : Of K (loadBase o) := by rw [loadBase]; infer_instance

instance : Of K (storeBase o) := by rw [storeBase]; infer_instance

/-! ### Arithmetic -/

instance {f : {n : Nat} → BitVec n → BitVec n → BitVec n × Bool} : Of K (combineMemory o f) := by
  rw [combineMemory]
  infer_instance

instance : Of K (loadNegative o) := by rw [loadNegative]; infer_instance

instance : Of K (addToMemory o) := by
  rw [addToMemory]
  dsimp only
  split <;> infer_instance

instance : Of K (compareMemory o) := by rw [compareMemory]; infer_instance

instance {f : LogicalOperation} : Of K (logicalMemory o f) := by rw [logicalMemory]; infer_instance

instance {operation : BitOperation} : Of K (bitInMemory o operation) := by
  rw [bitInMemory]
  split <;> infer_instance

/-! ### Floating point -/

instance {f : FloatOperation} : Of K (floatMemory o f) := by
  rw [floatMemory]
  split <;> infer_instance

/-! ### Branches -/

instance : Of K (call o w) := by rw [call]; infer_instance

instance : Of K returnFromCall := by rw [returnFromCall]; infer_instance

/-! ### Groups -/

instance : Of K (registerGroup o) := by
  have hchoice : ∀ based : Bool, Of K (match o.augment, based with
      | 0x0, _ => branchRegister o.register
      | 0x1, true => copyToBase o
      | 0x2, true => exchangeBase o
      | 0x3, _ => codesToRegister o.register
      | 0x4, _ => registerToCodes o.register
      | 0x5, true => do branchSubroutine o (← base o.source)
      | 0x8, true => do call o (← base o.source)
      | 0xC, true => nextToBase o
      | 0xE, true => returnFromCall
      | _, _ => undefined) := fun _ => by
    split <;> infer_instance
  rw [registerGroup]
  infer_instance

instance : Of K (baseGroup o) := by
  rw [baseGroup]
  split <;> infer_instance

end

/-! ### Every opcode -/

/-- The instructions that take hold of the processor itself, each with what it does. -/
inductive Controls (o : Operand) : Opcode → Exec Flow → Prop
  | extend (h : o.augment = 0xD) : Controls o .gen (extendAddressing true)
  | contract (h : o.augment = 0xF) : Controls o .gen (extendAddressing false)
  | transfer (h : o.augment = 0xE) : Controls o .trr (registerToScratchpad o)
  | returning (h : o.register.val = 2) : Controls o .misc (returnFromInterrupt o)
  | loading {changeMaps : Bool} (h : o.register.val = if changeMaps then 5 else 3) :
      Controls o .misc (loadStatusDoubleword o changeMaps)
  | supervisor (h : o.augment = 6) : Controls o .imm (supervisorCall o)
  | monitor : Controls o .calm (callMonitor o)

/-- An instruction takes hold of the processor or is of every kind. -/
theorem controls_or_of (opcode : Opcode) (o : Operand) :
    Controls o opcode (perform opcode o) ∨ ∀ K [Kind K], Of K (perform opcode o) := by
  cases opcode with
  | gen =>
    rw [perform, generalGroup]
    split
    case h_12 heq => exact .inl (.extend heq)
    case h_14 heq => exact .inl (.contract heq)
    all_goals exact .inr fun _ _ => inferInstance
  | trr =>
    rw [perform, transferGroup]
    split
    case h_14 heq => exact .inl (.transfer heq)
    all_goals exact .inr fun _ _ => inferInstance
  | misc =>
    rw [perform, miscellaneousGroup]
    split
    case h_3 heq => exact .inl (.returning heq)
    case h_4 heq => exact .inl (.loading heq)
    case h_5 heq => exact .inl (.loading heq)
    all_goals exact .inr fun _ _ => inferInstance
  | imm =>
    rw [perform, immediateGroup]
    split
    case h_7 heq => exact .inl (.supervisor heq)
    all_goals exact .inr fun _ _ => inferInstance
  | calm => exact .inl .monitor
  | _ => exact .inr fun _ _ => by rw [perform]; infer_instance

/-! ### Steps that compute -/

/-- The kind of the steps that leave alone what the control of the processor rests on. -/
def Computing (α : Type) (x : Exec α) : Prop := Moves (fun s s' : Core => Computes s.cpu s'.cpu) x

instance : Std.Refl fun s s' : Core => Computes s.cpu s'.cpu := ⟨fun _ => .refl⟩

instance : Trans (fun s s' : Core => Computes s.cpu s'.cpu) (fun s s' : Core => Computes s.cpu s'.cpu)
    (fun s s' : Core => Computes s.cpu s'.cpu) := ⟨fun h h' => h.trans h'⟩

instance : Kind Computing where
  pure _ := Moves.pure _
  throw _ := Moves.throw _
  bind hx hf := Moves.bind hx hf
  ask _ := moves_ask
  fromMemory _ := moves_fromMemory
  toMemory _ := moves_toMemory fun _ _ _ => .refl
  translate _ _ := by
    constructor
    · intro s s' a h
      rw [translate] at h
      split at h <;> cases h
      exact .refl
    · intro s s' e h
      rw [translate] at h
      split at h <;> cases h
      exact ⟨rfl, rfl, fun _ _ => rfl, rfl⟩
  loadMap _ := moves_loadMap fun _ _ _ => ⟨rfl, rfl, fun _ _ => rfl, rfl⟩
  modifyCpu h := moves_modifyCpu fun cpu _ => h cpu

end Exec
end Concept32
