import Concept32.Cpu.Context
import Concept32.Proofs.AddressMap
import Concept32.Proofs.Steps

/-!
# The parts of instructions

How the primitives of instructions move the processor and memory, for every relation between the states
before and after that allows what they do.
-/

namespace Concept32

theorem Scratchpad.get_set_of_ne {s : Scratchpad} {slot slot' : Nat} {w : Word} (h : slot' % 256 ≠ slot % 256) :
    (s.set slot w).get slot' = s.get slot' :=
  Vector.getElem_set_ne (Nat.mod_lt _ (by decide)) (Nat.mod_lt _ (by decide)) h.symm

namespace Exec
open EStateM
variable {R : Core → Core → Prop}

theorem moves_ask [Std.Refl R] {α : Type} {f : Cpu → α} : Moves R (ask f) where
  ok h := by cases h; exact Std.Refl.refl _
  error h := by cases h

theorem moves_fromMemory [Std.Refl R] {α : Type} {f : Memory → Except MemoryError α} : Moves R (fromMemory f) where
  ok h := by rw [fromMemory] at h; split at h <;> cases h; exact Std.Refl.refl _
  error h := by rw [fromMemory] at h; split at h <;> cases h; exact Std.Refl.refl _

theorem moves_modifyCpu {f : Cpu → Cpu} (hf : ∀ cpu memory, R ⟨cpu, memory⟩ ⟨f cpu, memory⟩) :
    Moves R (modifyCpu f) where
  ok h := by cases h; exact hf _ _
  error h := by cases h

theorem moves_toMemory {α : Type} {x : Memory.Action α} (hx : ∀ cpu memory memory', R ⟨cpu, memory⟩ ⟨cpu, memory'⟩) :
    Moves R (toMemory x) where
  ok h := by rw [toMemory] at h; split at h <;> cases h; exact hx _ _ _
  error h := by rw [toMemory] at h; split at h <;> cases h; exact hx _ _ _

/-! ### Exchanging status doublewords -/

/-- A map that cannot be loaded leaves everything as it was. -/
theorem loadMap_eq {core : Core} {cpix : Word} :
    loadMap cpix core =
      match core.cpu.map.load core.memory core.cpu.scratchpad.processList cpix with
      | .ok map => .ok () ⟨{ core.cpu with map := map }, core.memory⟩
      | .error e => .error e.trap core := by
  rw [loadMap, AddressMap.reload_eq]
  cases core.cpu.map.load core.memory core.cpu.scratchpad.processList cpix with
  | ok map => rfl
  | error e => rfl

theorem moves_loadMap [Std.Refl R] {cpix : Word}
    (hmap : ∀ cpu memory map, R ⟨cpu, memory⟩ ⟨{ cpu with map := map }, memory⟩) : Moves R (loadMap cpix) where
  ok h := by rw [loadMap_eq] at h; split at h <;> cases h; exact hmap _ _ _
  error h := by rw [loadMap_eq] at h; split at h <;> cases h; exact Std.Refl.refl _

/-- The processor with a status doubleword in force, and interrupts blocked or not as it says. -/
def enforced (p : Psd) (cpu : Cpu) : Cpu :=
  match p.blocking with
  | .block => { cpu.withBlocked true with psd := p }
  | .unblock => { cpu.withBlocked false with psd := p }
  | .retain => { cpu with psd := p }

theorem psd_enforced {p : Psd} {cpu : Cpu} : (enforced p cpu).psd = p := by
  rw [enforced]
  split <;> rfl

theorem levels_enforced {p : Psd} {cpu : Cpu} : (enforced p cpu).levels = cpu.levels := by
  rw [enforced]
  split <;> rfl

/-- Beside the status word the scratchpad stays as it is. -/
theorem slot_enforced {p : Psd} {cpu : Cpu} {slot : Nat} (hslot : slot % 256 ≠ Scratchpad.statusSlot) :
    (enforced p cpu).scratchpad.get slot = cpu.scratchpad.get slot := by
  rw [enforced]
  cases p.blocking with
  | block => exact Scratchpad.get_set_of_ne hslot
  | unblock => exact Scratchpad.get_set_of_ne hslot
  | retain => rfl

/-- A status doubleword is put in force by one change of the processor, after its map has been loaded. -/
theorem loadPsd_eq {p : Psd} {changeMaps : Bool} :
    loadPsd p changeMaps =
      if p.mapped && changeMaps then loadMap p.cpix >>= fun _ => modifyCpu (enforced p) else modifyCpu (enforced p) := by
  have hrest : ∀ u : PUnit, (do
      match p.blocking with
      | .block => modifyCpu fun c => c.withBlocked true
      | .unblock => modifyCpu fun c => c.withBlocked false
      | .retain => pure u
      modifyPsd fun _ => p : Exec Unit) = modifyCpu (enforced p) := fun _ => by
    funext s
    show _ = EStateM.Result.ok () (⟨enforced p s.cpu, s.memory⟩ : Core)
    rw [enforced]
    cases p.blocking with
    | block => rfl
    | unblock => rfl
    | retain => rfl
  rw [loadPsd]
  split
  · exact congrArg (loadMap p.cpix >>= ·) (funext hrest)
  · exact hrest ()

theorem moves_loadPsd [Std.Refl R] [Trans R R R] {p : Psd} {changeMaps : Bool}
    (hmap : ∀ cpu memory map, R ⟨cpu, memory⟩ ⟨{ cpu with map := map }, memory⟩)
    (hpsd : ∀ cpu memory, R ⟨cpu, memory⟩ ⟨enforced p cpu, memory⟩) : Moves R (loadPsd p changeMaps) := by
  rw [loadPsd_eq]
  split
  · exact .bind (moves_loadMap hmap) fun _ => moves_modifyCpu hpsd
  · exact moves_modifyCpu hpsd

/-- An exchange of status doublewords changes no interrupt level. -/
theorem keeps_levels_exchange {block resume : Word} :
    Moves (Keeps fun s : Core => s.cpu.levels) (exchange block resume) :=
  .bind moves_ask fun _ => .bind moves_ask fun _ => .bind (moves_toMemory fun _ _ _ => rfl) fun _ =>
    .bind (moves_toMemory fun _ _ _ => rfl) fun _ =>
      .bind (.bind moves_fromMemory fun _ => .bind moves_fromMemory fun _ => .pure _) fun _ =>
        moves_loadPsd (fun _ _ _ => rfl) fun _ _ => levels_enforced

end Exec
end Concept32
