import Concept32.Proofs.Exchange
import Concept32.Proofs.Hardware.Operands
import Concept32.Proofs.Hardware.Raising

/-!
# Stores of several words

STF, CALL and CALLM translate and store their words one after the other. If a word is refused, those before it have
been stored, and memory is as it was only if it held them already.
-/

namespace Concept32

/-- The instruction stores several words one after the other: STF, CALL or CALLM. -/
def Instruction.storesWords (i : Instruction) (based : Bool) : Prop :=
  match i.opcode? based with
  | some .stf => True
  | some .reg => based = true ∧ i.augment = 8
  | some .lwbr => i.fBit = true ∧ i.register.val = 1
  | _ => False

/-! ### Words stored in memory -/

namespace Memory
variable {m : Memory} {a w : Word} {stores : List (Word × Word)} {n : Nat}

/-- Memory with words stored at their addresses. -/
def storedAll (m : Memory) : List (Word × Word) → Memory
  | [] => m
  | (a, w) :: rest => (m.stored a w).storedAll rest

theorem wordAt_storedAll_of_ne (hne : ∀ store ∈ stores, n ≠ store.1.toNat / 4) :
    (m.storedAll stores).wordAt n = m.wordAt n := by
  induction stores generalizing m with
  | nil => rfl
  | cons store rest ih =>
    rw [storedAll, ih fun store hstore => hne store (List.mem_cons_of_mem _ hstore),
      wordAt_stored_of_ne (hne store List.mem_cons_self)]

/-- Words stored at different places change nothing exactly if they are there already. -/
theorem storedAll_eq_self_iff (hplaces : stores.Pairwise fun x y => x.1.toNat / 4 ≠ y.1.toNat / 4)
    (hfits : ∀ store ∈ stores, store.1.toNat < m.sizeBytes) :
    m.storedAll stores = m ↔ ∀ store ∈ stores, m.wordAt (store.1.toNat / 4) = store.2 := by
  induction stores with
  | nil => exact ⟨fun _ _ h => absurd h List.not_mem_nil, fun _ => rfl⟩
  | cons store rest ih =>
    obtain ⟨hfirst, hrest⟩ := List.pairwise_cons.mp hplaces
    have ih := ih hrest fun store hstore => hfits store (List.mem_cons_of_mem _ hstore)
    have hin : store.1.toNat / 4 < m.words.size := by
      have hlt := hfits store List.mem_cons_self
      rw [sizeBytes] at hlt
      omega
    rw [storedAll]
    constructor
    · intro h
      have hhere : m.wordAt (store.1.toNat / 4) = store.2 := by
        rw [← h, wordAt_storedAll_of_ne hfirst, stored, wordAt_update, if_pos ⟨rfl, hin⟩]
      rw [stored_eq_self hhere] at h
      exact List.forall_mem_cons.mpr ⟨hhere, ih.mp h⟩
    · intro h
      obtain ⟨hhere, hthere⟩ := List.forall_mem_cons.mp h
      rw [stored_eq_self hhere]
      exact ih.mpr hthere

end Memory

/-! ### Where words are stored -/

namespace Core
variable {s : Core} {a w p : Word} {words : List Word} {t : Trap}

/-- The physical address at which a word is stored, or the trap that its store raises. -/
def storePlace (s : Core) (logical : Word) : Except Trap Word :=
  if logical.toNat % 4 = 0 then
    (s.cpu.map.translate logical .write s.cpu.psd.mapped s.cpu.psd.privileged s.memory.sizeBytes).mapError
      AddressFault.trap
  else .error .addressSpecification

/-- The words from a logical address on, with the physical addresses at which they are stored, up to the first that is
refused. -/
def reached (s : Core) : (logical : Word) → List Word → List (Word × Word)
  | _, [] => []
  | logical, w :: rest =>
    match s.storePlace logical with
    | .ok physical => (physical, w) :: s.reached (logical + 4) rest
    | .error _ => []

theorem storePlace_eq_ok : s.storePlace a = .ok p ↔ a.toNat % 4 = 0 ∧
    s.cpu.map.translate a .write s.cpu.psd.mapped s.cpu.psd.privileged s.memory.sizeBytes = .ok p := by
  rw [storePlace]
  split
  · next haligned => rw [Except.mapError_eq_ok, and_iff_right haligned]
  · next haligned => simp [haligned]

theorem storePlace_stored (p w : Word) : storePlace ⟨s.cpu, s.memory.stored p w⟩ = s.storePlace := by
  funext a
  rw [storePlace, Memory.sizeBytes_stored, storePlace]

theorem reached_congr {s' : Core} (hplace : s'.storePlace = s.storePlace) : s'.reached a words = s.reached a words := by
  induction words generalizing a with
  | nil => rfl
  | cons w rest ih =>
    rw [reached, reached, hplace]
    cases s.storePlace a with
    | ok p => exact congrArg _ ih
    | error t => rfl

/-- A word keeps its place on its page, also when the words before it are on another. -/
theorem place_of_reached {store : Word × Word} (h : store ∈ s.reached a words) :
    store.1.toNat < s.memory.sizeBytes ∧ store.1.toNat % 4 = 0 ∧
      ∃ k < words.length, store.1.toNat % 0x2000 = (a.toNat + 4 * k) % 0x2000 := by
  induction words generalizing a with
  | nil => cases h
  | cons w rest ih =>
    rw [reached] at h
    split at h
    · next p hplace =>
      obtain ⟨haligned, hphysical⟩ := storePlace_eq_ok.mp hplace
      have hoffset := TranslationUnit.offset_of_translate hphysical
      rcases List.mem_cons.mp h with rfl | h
      · dsimp only
        exact ⟨TranslationUnit.translate_lt hphysical, by omega, 0, Nat.zero_lt_succ _, hoffset⟩
      · obtain ⟨hlt, hword, k, hk, hnear⟩ := ih h
        rw [BitVec.toNat_add] at hnear
        refine ⟨hlt, hword, k + 1, Nat.succ_lt_succ hk, hnear.trans ?_⟩
        rw [show (4 : Word).toNat = 4 from rfl]
        omega
    · cases h

/-- Words that span less than a page are stored at different places, wherever their pages are. -/
theorem pairwise_reached (hlength : words.length ≤ 0x800) :
    (s.reached a words).Pairwise fun x y => x.1.toNat / 4 ≠ y.1.toNat / 4 := by
  induction words generalizing a with
  | nil => exact .nil
  | cons w rest ih =>
    rw [List.length_cons] at hlength
    rw [reached]
    split
    · next p hplace =>
      obtain ⟨haligned, hphysical⟩ := storePlace_eq_ok.mp hplace
      have hoffset := TranslationUnit.offset_of_translate hphysical
      refine .cons (fun store hstore => ?_) (ih (by omega))
      obtain ⟨-, hword, k, hk, hnear⟩ := place_of_reached hstore
      rw [BitVec.toNat_add, show (4 : Word).toNat = 4 from rfl] at hnear
      dsimp only
      omega
    · exact .nil

/-- Words are stored without a change exactly if they are there already. -/
theorem storedAll_reached_iff (hlength : words.length ≤ 0x800) :
    s.memory.storedAll (s.reached a words) = s.memory ↔
      ∀ store ∈ s.reached a words, s.memory.wordAt (store.1.toNat / 4) = store.2 :=
  Memory.storedAll_eq_self_iff (pairwise_reached hlength) fun _ h => (place_of_reached h).1

end Core

namespace Exec
open Concept32.Core EStateM
variable {s : Core} {a w : Word} {words : List Word} {o : Operand}

theorem writeWord_of_place {p : Word} (h : s.storePlace a = .ok p) :
    writeWord a w s = .ok () ⟨s.cpu, s.memory.stored p w⟩ := by
  obtain ⟨haligned, hphysical⟩ := storePlace_eq_ok.mp h
  rw [writeWord, requireAligned, if_pos haligned, pure_bind, bind_of_ok (translate_eq_ok.mpr ⟨hphysical, rfl⟩)]
  exact toMemory_change hphysical haligned (Nat.dvd_refl 4)

theorem writeWord_of_refused {t : Trap} (h : s.storePlace a = .error t) :
    ∃ u, writeWord a w s = .error t u ∧ Same s u := by
  rw [storePlace] at h
  rw [writeWord, requireAligned]
  split at h
  · next haligned =>
    rw [if_pos haligned, pure_bind]
    cases hphysical : s.cpu.map.translate a .write s.cpu.psd.mapped s.cpu.psd.privileged s.memory.sizeBytes with
    | ok p =>
      rw [hphysical] at h
      cases h
    | error fault =>
      rw [hphysical] at h
      cases h
      have htranslate : translate a .write s = .error fault.trap ⟨{ s.cpu with faultAddress := a }, s.memory⟩ := by
        rw [translate, hphysical]
      exact ⟨_, bind_of_error htranslate, a, s.cpu.indirections, rfl⟩
  · next haligned =>
    rw [if_neg haligned]
    cases h
    exact ⟨s, rfl, Std.Refl.refl s⟩

/-- The words before the first that is refused are stored. -/
theorem memory_after_writeWords : (after (writeWords a words) s).memory = s.memory.storedAll (s.reached a words) := by
  induction words generalizing a s with
  | nil => rfl
  | cons w rest ih =>
    rw [writeWords, reached, after]
    cases hplace : s.storePlace a with
    | ok p =>
      have hstored := writeWord_of_place (w := w) hplace
      rw [bind_of_ok hstored]
      exact ih.trans (congrArg (s.memory.stored p w).storedAll (reached_congr (storePlace_stored p w)))
    | error t =>
      obtain ⟨u, hwrite, _, _, rfl⟩ := writeWord_of_refused (w := w) hplace
      rw [bind_of_error hwrite]
      rfl

/-- Where a storing instruction begins to store, and the words that it has to store. -/
def outgoing (opcode : Opcode) (o : Operand) (c : Cpu) : Word × List Word :=
  if opcode = .stf then
    (o.address, (if c.psd.based && o.fBit then c.base else c.gpr).toList.drop o.register.val)
  else (c.base.get stackBase - frameBytes, [(c.psd.withAddress o.next).word1, c.base.get frameBase])

theorem length_outgoing {opcode : Opcode} {c : Cpu} : (outgoing opcode o c).2.length ≤ 8 := by
  rw [outgoing]
  split
  · rw [List.length_drop, Vector.length_toList]
    exact Nat.sub_le _ _
  · exact Nat.le_add_left 2 6

theorem storeFile_of_aligned (haligned : o.address.toNat % 4 = 0) : storeFile o s =
    (do writeWords (outgoing .stf o s.cpu).1 (outgoing .stf o s.cpu).2; return Flow.next : Exec Flow) s := by
  rw [storeFile, requireFileAddress, requireAligned, if_pos haligned, pure_bind,
    bind_of_ok (show usesBaseFile o s = .ok (s.cpu.psd.based && o.fBit) s from rfl), outgoing, if_pos rfl]
  split
  · rfl
  · rfl

theorem memory_after_storeFile : (after (storeFile o) s).memory =
    s.memory.storedAll (s.reached (outgoing .stf o s.cpu).1 (outgoing .stf o s.cpu).2) := by
  by_cases haligned : o.address.toNat % 4 = 0
  · rw [after, storeFile_of_aligned haligned, ← memory_after_writeWords]
    exact part_after_bind fun _ => .pure _
  · -- The address is refused before any word, and so would be its first word.
    have hnone : s.reached (outgoing .stf o s.cpu).1 (outgoing .stf o s.cpu).2 = [] := by
      have hrefused : s.storePlace (outgoing .stf o s.cpu).1 = .error .addressSpecification := if_neg haligned
      cases hwords : (outgoing .stf o s.cpu).2 with
      | nil => rfl
      | cons w rest => rw [reached, hrefused]
    have hrefused : requireFileAddress o s = .error .addressSpecification s := by
      rw [requireFileAddress, requireAligned, if_neg haligned]
      rfl
    rw [hnone, after, storeFile, bind_of_error hrefused]
    rfl

theorem memory_after_call {opcode : Opcode} {target : Word} (h : opcode ≠ .stf) :
    (after (call o target) s).memory =
      s.memory.storedAll (s.reached (outgoing opcode o s.cpu).1 (outgoing opcode o s.cpu).2) := by
  have hsets : ∀ (frame : Word) (flow : Flow),
      Moves (Keeps Core.memory) (do setBase stackBase frame; setBase frameBase frame; return flow : Exec Flow) :=
    fun _ _ => .bind (moves_modifyCpu fun _ _ => rfl) fun _ => .bind (moves_modifyCpu fun _ _ => rfl) fun _ => .pure _
  have hcall : call o target s =
      (do
        writeWords (s.cpu.base.get stackBase - frameBytes) [(s.cpu.psd.withAddress o.next).word1, s.cpu.base.get frameBase]
        setBase stackBase (s.cpu.base.get stackBase - frameBytes)
        setBase frameBase (s.cpu.base.get stackBase - frameBytes)
        return Flow.jump (target &&& ~~~1#32) : Exec Flow) s := by
    rw [writeWords, writeWords, writeWords, bind_assoc]
    simp only [bind_assoc, pure_bind]
    rfl
  rw [outgoing, if_neg h, ← memory_after_writeWords, after, hcall]
  exact part_after_bind fun _ => hsets _ _

/-- The operation stores several words one after the other. -/
def storesWords (opcode : Opcode) (o : Operand) (based : Bool) : Prop :=
  match opcode with
  | .stf => True
  | .reg => based = true ∧ o.augment = 8
  | .lwbr => o.fBit = true ∧ o.register.val = 1
  | _ => False

theorem memory_after_perform {opcode : Opcode} (h : storesWords opcode o s.cpu.psd.based) :
    (after (perform opcode o) s).memory =
      s.memory.storedAll (s.reached (outgoing opcode o s.cpu).1 (outgoing opcode o s.cpu).2) := by
  cases opcode with
  | stf => exact memory_after_storeFile
  | reg =>
    obtain ⟨hbased, haugment⟩ := h
    have hgroup : registerGroup o s = call o (s.cpu.base.get o.source) s := by
      rw [registerGroup, bind_of_ok (show based s = .ok s.cpu.psd.based s from rfl), hbased, haugment]
      rfl
    rw [after, perform, hgroup]
    exact memory_after_call Opcode.noConfusion
  | lwbr =>
    rw [perform, baseGroup, h.1, h.2]
    exact memory_after_call Opcode.noConfusion
  | _ => exact absurd h id

end Exec

namespace Hardware
open Concept32.Core Concept32.Exec EStateM
variable {δ ω : Type} {s s' : Hardware δ ω} {core : Core} {i target : Instruction} {next : Word} {t : Trap} {now : Nat}

/-- The words that an instruction stores one after the other, with the places at which it stores them: those before
the first that is refused, and none if the instruction traps before it stores. -/
def written (i : Instruction) (next : Word) (core : Core) : List (Word × Word) :=
  match prepare i next core with
  | .ok (opcode, o) _ => core.reached (outgoing opcode o core.cpu).1 (outgoing opcode o core.cpu).2
  | .error _ _ => []

theorem storedAll_written_iff : core.memory.storedAll (written i next core) = core.memory ↔
    ∀ store ∈ written i next core, core.memory.wordAt (store.1.toNat / 4) = store.2 := by
  rw [written]
  split
  · exact storedAll_reached_iff (Nat.le_trans length_outgoing (by decide))
  · exact ⟨fun _ _ h => absurd h List.not_mem_nil, fun _ => rfl⟩

theorem storesWords_of_prepared {opcode : Opcode} {o : Operand} (h : Prepared i next core opcode o)
    (hstores : o.instruction.storesWords core.cpu.psd.based) :
    Concept32.Exec.storesWords opcode o core.cpu.psd.based := by
  rw [Instruction.storesWords, h.opcode?] at hstores
  cases opcode with
  | stf => trivial
  | reg => exact hstores
  | lwbr => exact ⟨(h.fBit (based_of_lwbr h.opcode?) rfl).trans hstores.1, hstores.2⟩
  | _ => exact absurd hstores id

variable [Peripheral δ ω]

/-- A storing instruction leaves in memory just the words that it has come to, whether it completes or traps. -/
theorem memory_after_storing (now : Nat) (htarget : carriedOut? i next s.core = some target)
    (hstores : target.storesWords s.core.cpu.psd.based) :
    (after (dispatch now i next) s).core.memory = s.core.memory.storedAll (written i next s.core) := by
  rw [after, written]
  cases hprepare : prepare i next s.core with
  | ok found u =>
    obtain ⟨opcode, o⟩ := found
    have hprepared := prepared_of_prepare hprepare
    obtain rfl := Option.some.inj (htarget.symm.trans hprepared.target)
    have hoperation := storesWords_of_prepared hprepared hstores
    have hio : opcode ≠ .io := fun h => by rw [h] at hoperation; exact hoperation
    have hperformed : (after (Concept32.Exec.perform opcode o) u).memory =
        s.core.memory.storedAll (s.core.reached (outgoing opcode o s.core.cpu).1 (outgoing opcode o s.core.cpu).2) := by
      obtain ⟨_, _, rfl⟩ := reads_prepare.ok hprepare
      refine Eq.trans (memory_after_perform ?_) (congrArg s.core.memory.storedAll (reached_congr rfl))
      exact hoperation
    rw [dispatch_of_prepare hprepare, carryOut, if_neg hio]
    exact (congrArg (fun u : Hardware δ ω => u.core.memory) after_onCore).trans hperformed
  | error t u =>
    rw [dispatch_of_prepare_error hprepare]
    obtain ⟨_, _, rfl⟩ := reads_prepare.error hprepare
    rfl

/-- A storing instruction that traps changes nothing but memory, and memory it leaves as it was exactly if the words
before the one that is refused were there already. -/
theorem memory_of_storing_error (htarget : carriedOut? i next s.core = some target)
    (hstores : target.storesWords s.core.cpu.psd.based) (h : dispatch now i next s = .error t s') :
    OnCore Steady s s' ∧ s'.core.memory = s.core.memory.storedAll (written i next s.core) ∧
      (s'.core.memory = s.core.memory ↔
        ∀ store ∈ written i next s.core, s.core.memory.wordAt (store.1.toNat / 4) = store.2) := by
  have hcalls : ¬target.callsSupervisor s.core.cpu.psd.based := by
    rw [Instruction.storesWords] at hstores
    rintro (hcalm | ⟨himm, -⟩)
    · rw [hcalm] at hstores
      exact hstores
    · rw [himm] at hstores
      exact hstores
  have hsteady : OnCore Steady s s' :=
    (dispatch_raises h fun found hfound => Option.some.inj (htarget.symm.trans hfound) ▸ hcalls).2
  have hmemory : s'.core.memory = s.core.memory.storedAll (written i next s.core) := by
    rw [← memory_after_storing now htarget hstores, after, h]
  exact ⟨hsteady, hmemory, hmemory ▸ storedAll_written_iff⟩

/-- A machine with one word of memory, and a number in register 6. -/
def oneWord (held : Word) : Hardware StandardDevice Char where
  core :=
    { cpu := { Cpu.initial .c3227 0 with gpr := (Vector.replicate 8 0).set 6 1#32 }
      memory := ⟨#[held], by simp⟩ }
  channels := .empty

/-- STF of registers 6 and 7 at address zero. -/
def storeTwo : Instruction := ⟨0xDF000000#32⟩

/-- The second register is refused, and the word of memory holds the first already. -/
theorem memory_of_storing_held : carriedOut? storeTwo 4 (oneWord 1).core = some storeTwo ∧
    storeTwo.storesWords (oneWord 1).core.cpu.psd.based ∧
    ∃ u, dispatch 0 storeTwo 4 (oneWord 1) = .error .nonPresentMemory u ∧ u.core.memory = (oneWord 1).core.memory := by
  have hstores : storeTwo.storesWords (oneWord 1).core.cpu.psd.based := trivial
  obtain ⟨u, htrap⟩ : ∃ u, dispatch 0 storeTwo 4 (oneWord 1) = .error .nonPresentMemory u := ⟨_, rfl⟩
  have hwritten : written storeTwo 4 (oneWord 1).core = [(0, 1)] := rfl
  obtain ⟨-, -, hiff⟩ := memory_of_storing_error rfl hstores htrap
  refine ⟨rfl, hstores, u, htrap, hiff.mpr fun store hstore => ?_⟩
  rw [hwritten, List.mem_singleton] at hstore
  rw [hstore]
  rfl

/-- The second register is refused when the first has been stored. -/
theorem memory_changed_by_storing : storeTwo.storesWords (oneWord 0).core.cpu.psd.based ∧
    ∃ u, dispatch 0 storeTwo 4 (oneWord 0) = .error .nonPresentMemory u ∧
      (oneWord 0).core.memory.readWord 0 = .ok 0 ∧ u.core.memory.readWord 0 = .ok 1 :=
  ⟨trivial, _, rfl, rfl, rfl⟩

end Hardware
end Concept32
