import Concept32.Proofs.Translation
import Concept32.Proofs.Exec
import Concept32.Proofs.Instructions.Dispatch
import Concept32.Proofs.Instructions.Kinds

/-!
# Which traps instructions raise

No instruction but a supervisor call raises the trap of a supervisor call, and one that raises the trap of a page has
noted the address whose page is not resident. This holds of every step that an instruction takes, so it is inferred
from the steps that can fail by themselves. An instruction that traps leaves the processor as it was, also if it has
begun to store.
-/

namespace Concept32

/-- A trap says what is wrong: it is not a supervisor call, and if it is for a page, then that is the page of the
address that the processor has noted, and it is not resident. -/
structure Core.Explained (t : Trap) (s : Core) : Prop where
  not_call : t ≠ .supervisorCall
  page : ∀ page, t = .demandPage page →
    page = (s.cpu.faultAddress &&& 0x00FFFFFF#32) >>> s.cpu.map.scheme.pageShift ∧
      ∃ access, s.cpu.map.translate s.cpu.faultAddress access s.cpu.psd.mapped s.cpu.psd.privileged s.memory.sizeBytes =
        .error (.notResident (s.cpu.faultAddress &&& 0x00FFFFFF#32) page)

/-- The processor is as it was but for the notes that it keeps about the current instruction. -/
def Core.Steady (s s' : Core) : Prop :=
  ∃ address count, s'.cpu = { s.cpu with faultAddress := address, indirections := count }

namespace Core
variable {s s' : Core}

theorem Same.steady (h : Same s s') : Steady s s' := by
  obtain ⟨address, count, rfl⟩ := h
  exact ⟨address, count, rfl⟩

instance : Std.Refl Steady := ⟨fun s => ⟨s.cpu.faultAddress, s.cpu.indirections, rfl⟩⟩

instance : Trans Steady Steady Steady where
  trans := by
    rintro _ _ _ ⟨_, _, h⟩ ⟨address, count, h'⟩
    exact ⟨address, count, by rw [h', h]⟩

end Core

theorem Core.Explained.of_plain {t : Trap} [h : t.Plain] {s : Core} : Explained t s :=
  ⟨h.not_call, fun page hpage => absurd hpage (h.not_page page)⟩

namespace Exec
open Concept32.Core EStateM
variable {α : Type} {o : Operand} {r : RegisterNumber} {a w : Word} {d : Double} {i : Instruction} {next : Word}

/-- Every trap that the step raises says what is wrong. -/
abbrev Explains (x : Exec α) : Prop := Fails Explained x

/-! ### Steps that can fail by themselves -/

instance {t : Trap} [t.Plain] : Explains (throw t : Exec α) := ⟨fun h => by cases h; exact .of_plain⟩

instance {f : Cpu → α} : Explains (ask f) := ⟨fun h => by cases h⟩

instance {f : Cpu → Cpu} : Explains (modifyCpu f) := ⟨fun h => by cases h⟩

instance {f : Memory → Except MemoryError α} : Explains (fromMemory f) where
  of_error h := by
    rw [fromMemory] at h
    split at h
    · cases h
    · cases h
      exact .of_plain

instance {x : Memory.Action α} : Explains (toMemory x) where
  of_error h := by
    rw [toMemory] at h
    split at h
    · cases h
    · cases h
      exact .of_plain

instance {cpix : Word} : Explains (loadMap cpix) where
  of_error h := by
    rw [loadMap_eq] at h
    split at h
    · cases h
    · cases h
      exact .of_plain

instance {logical : Word} {access : Access} : Explains (translate logical access) where
  of_error {s s' t} h := by
    rw [translate] at h
    dsimp only at h
    split at h
    · cases h
    · next fault hfault =>
      cases h
      cases fault with
      | notResident place page =>
        obtain ⟨rfl, rfl⟩ := TranslationUnit.notResident_of_translate hfault
        exact ⟨Trap.noConfusion, fun _ h => Trap.demandPage.inj h ▸ ⟨rfl, access, hfault⟩⟩
      | noEntry | protection | nonPresent => exact ⟨Trap.noConfusion, fun _ => Trap.noConfusion⟩

/-- The steps that explain their traps are a kind of steps. -/
instance : Kind fun _ x => Explains x where
  pure _ := Fails.pure
  throw _ := inferInstance
  bind hx hf := @Fails.bind _ _ _ _ _ _ _ hx hf
  ask _ := inferInstance
  fromMemory _ := inferInstance
  toMemory _ := inferInstance
  translate _ _ := inferInstance
  loadMap _ := inferInstance
  modifyCpu _ := inferInstance

instance {x : Exec α} [h : Of (fun _ x => Explains x) x] : Explains x := h.holds

/-! ### Instructions that take hold of the processor -/

instance {on : Bool} : Explains (extendAddressing on) := by rw [extendAddressing, modifyPsd]; infer_instance

instance : Explains (registerToScratchpad o) := by rw [registerToScratchpad]; infer_instance

instance {p : Psd} {changeMaps : Bool} : Explains (loadPsd p changeMaps) := by rw [loadPsd_eq]; infer_instance

instance {changeMaps : Option Bool} : Explains (loadPsdOperand o changeMaps) := by rw [loadPsdOperand]; infer_instance

instance : Explains (returnFromInterrupt o) := by
  have hend : ∀ first : Option Nat, Explains (do
      match first with
      | some level => modifyCpu fun c => c.deactivateLevel level
      | none => pure ()
      return Flow.loaded) := fun first => by
    split <;> infer_instance
  rw [returnFromInterrupt]
  infer_instance

instance {changeMaps : Bool} : Explains (loadStatusDoubleword o changeMaps) := by
  rw [loadStatusDoubleword]
  infer_instance

/-- An instruction that does not call the supervisor raises no trap of a supervisor call. -/
theorem explains_perform {opcode : Opcode} (h : ¬callsSupervisor opcode o) : Explains (perform opcode o) := by
  obtain hcontrols | hof := controls_or_of opcode o
  · generalize perform opcode o = x at hcontrols ⊢
    cases hcontrols with
    | supervisor haugment => exact absurd (.inr ⟨rfl, haugment⟩) h
    | monitor => exact absurd (.inl rfl) h
    | _ => infer_instance
  · exact (hof fun _ x => Explains x).holds

/-! ### The processor when an instruction traps -/

theorem steady_of_reads {x : Exec α} (h : Reads x) : Moves Steady x :=
  h.mono (fun _ _ _ => Same.steady) fun _ _ => Same.steady

theorem steady_writeWord : Moves Steady (writeWord a w) :=
  .bind (steady_of_reads reads_requireAligned) fun _ => .bind (steady_of_reads reads_translate) fun _ =>
    moves_toMemory fun _ _ _ => ⟨_, _, rfl⟩

theorem steady_writeWords {words : List Word} : Moves Steady (writeWords a words) := by
  induction words generalizing a with
  | nil => rw [writeWords]; exact .pure ()
  | cons w words ih =>
    rw [writeWords]
    exact .bind steady_writeWord fun _ => ih

theorem steady_storeFile : Ends (fun _ => Anyhow) Steady (storeFile o) := by
  rw [storeFile]
  have hstore : ∀ file : Vector Word 8, Ends (fun _ => Anyhow) Steady (do
      writeWords o.address (file.toList.drop o.register.val)
      return Flow.next) := fun _ => .bind steady_writeWords fun _ => .pure
  refine .bind (steady_of_reads reads_requireAligned) fun _ => ?_
  refine .bind (steady_of_reads reads_usesBaseFile) fun _ => ?_
  dsimp only
  split
  · exact .bind (steady_of_reads ends_ask) hstore
  · exact .bind (steady_of_reads ends_ask) hstore

/-- A call stores its frame before it changes a register. -/
theorem steady_call : Ends (fun _ => Anyhow) Steady (call o w) := by
  have hset : ∀ {S : Core → Core → Prop} (r : RegisterNumber) (value : Word),
      Ends (fun _ => Anyhow) S (setBase r value) := fun _ _ => ends_setBase.mono (fun _ _ _ _ => trivial) fun _ _ => id
  exact .bind (steady_of_reads ends_ask) fun _ => .bind (steady_of_reads ends_returnWord) fun _ =>
    .bind (steady_of_reads ends_ask) fun _ => .bind steady_writeWord fun _ => .bind steady_writeWord fun _ =>
      .finish (hset _ _) fun _ => .finish (hset _ _) fun _ => .pure

/-- An instruction that does not call the supervisor leaves the processor as it was if it traps. -/
theorem steady_perform {opcode : Opcode} (h : ¬callsSupervisor opcode o) :
    Ends (fun _ => Anyhow) Steady (perform opcode o) := by
  by_cases hsteps : storesInSteps opcode o
  · cases opcode with
    | stf => exact steady_storeFile
    | calm => exact absurd (.inl rfl) h
    | imm => exact absurd (.inr ⟨rfl, hsteps⟩) h
    | reg =>
      refine .bind (steady_of_reads ends_ask) fun based => ?_
      rw [show o.augment = 8 from hsteps]
      cases based with
      | true => exact .bind (steady_of_reads ends_ask) fun _ => steady_call
      | false => exact .throw
    | lwbr =>
      rw [perform, baseGroup, hsteps.1, hsteps.2]
      exact steady_call
    | _ => exact absurd hsteps id
  · exact (commits_perform hsteps).mono (fun _ _ _ _ => trivial) fun _ _ => Same.steady

end Exec
end Concept32
