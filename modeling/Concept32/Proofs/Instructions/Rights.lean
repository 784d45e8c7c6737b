import Concept32.Cpu.Access
import Concept32.Proofs.Translation
import Concept32.Proofs.Exec
import Concept32.Proofs.Memory

/-!
# What a step of an instruction may change

A step that only reads leaves nothing behind but the notes that the processor keeps about the current
instruction. A step of an unprivileged program stays inside the program's rights: it changes registers, the
first status word and the bytes that the address map grants for writing, and it can neither become privileged
nor reach the second status word or anything else in the processor.
-/

namespace Concept32

namespace Psd
variable {p : Psd}

/-! ### The privilege -/

@[simp] theorem privileged_withCodes {cc : ConditionCodes} : (p.withCodes cc).privileged = p.privileged :=
  hasAny_replaceBits (by decide)

@[simp] theorem privileged_withAddress {a : Word} : (p.withAddress a).privileged = p.privileged :=
  hasAny_replaceBits (by decide)

@[simp] theorem privileged_withExceptions {on : Bool} : (p.withExceptions on).privileged = p.privileged :=
  hasAny_withBits (by decide)

@[simp] theorem privileged_withExtended {on : Bool} : (p.withExtended on).privileged = p.privileged :=
  hasAny_withBits (by decide)

end Psd

namespace Core
variable {s s' s'' : Core}

/-- Nothing has changed but the notes that the processor keeps about the current instruction. -/
def Same (s s' : Core) : Prop :=
  ∃ address count, s' = ⟨{ s.cpu with faultAddress := address, indirections := count }, s.memory⟩

/-- An unprivileged program may store at the physical byte address. -/
def Grants (s : Core) (n : Nat) : Prop :=
  ∃ logical physical, s.cpu.map.translate logical .write s.cpu.psd.mapped false s.memory.sizeBytes = .ok physical ∧
    physical.toNat = n

/-- What an unprivileged program did stayed inside its rights. -/
structure Confined (s s' : Core) : Prop where
  privileged : s'.cpu.psd.privileged = false
  word2 : s'.cpu.psd.word2 = s.cpu.psd.word2
  scratchpad : s'.cpu.scratchpad = s.cpu.scratchpad
  levels : s'.cpu.levels = s.cpu.levels
  map : s'.cpu.map = s.cpu.map
  protect : s'.cpu.protect = s.cpu.protect
  mode : s'.cpu.mode = s.cpu.mode
  size : s'.memory.words.size = s.memory.words.size
  memory : ∀ n, s'.memory.byteAt n ≠ s.memory.byteAt n → s.Grants n

/-- An unprivileged program stayed inside its rights. -/
def Permitted (s s' : Core) : Prop := s.cpu.psd.privileged = false → Confined s s'

/-- An unprivileged program stayed inside its rights and goes on by itself. -/
def Obeys (flow : Flow) (s s' : Core) : Prop :=
  s.cpu.psd.privileged = false → (flow = .next ∨ ∃ a, flow = .jump a) ∧ Confined s s'

/-- The program was privileged. -/
def Guarded (s _ : Core) : Prop := s.cpu.psd.privileged = true

/-! ### One step after another -/

/-- A program may change its registers, and the notes about the current instruction with them. -/
theorem Confined.registers (c : Cpu) (h : s.cpu.psd.privileged = false) :
    Confined s ⟨{ s.cpu with
      gpr := c.gpr, base := c.base, faultAddress := c.faultAddress, indirections := c.indirections }, s.memory⟩ :=
  ⟨h, rfl, rfl, rfl, rfl, rfl, rfl, rfl, fun _ hne => absurd rfl hne⟩

theorem Confined.refl (h : s.cpu.psd.privileged = false) : Confined s s := .registers s.cpu h

theorem Confined.grants_iff (h : Confined s s') {n : Nat} : s'.Grants n ↔ s.Grants n := by
  rw [Grants, Grants, h.map, Memory.sizeBytes, Memory.sizeBytes, h.size, Psd.mapped, Psd.mapped, h.word2]

theorem Confined.trans (h : Confined s s') (h' : Confined s' s'') : Confined s s'' where
  privileged := h'.privileged
  word2 := h'.word2.trans h.word2
  scratchpad := h'.scratchpad.trans h.scratchpad
  levels := h'.levels.trans h.levels
  map := h'.map.trans h.map
  protect := h'.protect.trans h.protect
  mode := h'.mode.trans h.mode
  size := h'.size.trans h.size
  memory n hne := by
    by_cases hmid : s''.memory.byteAt n = s'.memory.byteAt n
    · exact h.memory n (hmid ▸ hne)
    · exact h.grants_iff.mp (h'.memory n hmid)

theorem Same.permitted (h : Same s s') : Permitted s s' := by
  obtain ⟨address, count, rfl⟩ := h
  exact .registers { s.cpu with faultAddress := address, indirections := count }

instance : Std.Refl Same := ⟨fun s => ⟨s.cpu.faultAddress, s.cpu.indirections, rfl⟩⟩

instance : Std.Refl Permitted := ⟨fun _ => Confined.refl⟩

instance : Std.Refl (Obeys .next) := ⟨fun _ h => ⟨.inl rfl, .refl h⟩⟩

instance {a : Word} : Std.Refl (Obeys (.jump a)) := ⟨fun _ h => ⟨.inr ⟨a, rfl⟩, .refl h⟩⟩

instance : Trans Same Same Same where
  trans := by rintro _ _ _ ⟨_, _, rfl⟩ ⟨address, count, rfl⟩; exact ⟨address, count, rfl⟩

instance : Trans Permitted Permitted Permitted where
  trans h h' hp := (h hp).trans (h' (h hp).privileged)

instance : Trans Same Permitted Permitted where
  trans h h' := Trans.trans h.permitted h'

instance {flow : Flow} : Trans Permitted (Obeys flow) (Obeys flow) where
  trans h h' hp := ⟨(h' (h hp).privileged).1, (h hp).trans (h' (h hp).privileged).2⟩

instance {flow : Flow} : Trans Same (Obeys flow) (Obeys flow) where
  trans h h' := Trans.trans h.permitted h'

end Core

namespace Exec
open Concept32.Core EStateM
variable {α β : Type} {T : α → Core → Core → Prop} {S : Core → Core → Prop} {x : Exec α} {s s' : Core}

/-- The step only reads. -/
abbrev Reads (x : Exec α) : Prop := Ends (fun _ => Same) Same x

/-- The step stays inside the rights of the program, and does nothing if it traps. -/
abbrev Alters (x : Exec α) : Prop := Ends (fun _ => Permitted) Same x

/-- The instruction stays inside the rights of the program, and does nothing if it traps. -/
abbrev Commits (x : Exec Flow) : Prop := Ends Obeys Same x

/-! ### Steps that only read -/

theorem ends_ask {f : Cpu → α} : Ends (fun _ => Same) S (ask f) where
  ok h := by cases h; exact Std.Refl.refl _
  error h := by cases h

theorem reads_fromMemory {f : Memory → Except MemoryError α} : Reads (fromMemory f) := moves_fromMemory

theorem reads_translate {logical : Word} {access : Access} : Reads (translate logical access) where
  ok h := by rw [translate] at h; split at h <;> cases h; exact Std.Refl.refl _
  error {s _ _} h := by rw [translate] at h; split at h <;> cases h; exact ⟨logical, s.cpu.indirections, rfl⟩

theorem reads_requireAligned {logical : Word} {alignment : Nat} : Reads (requireAligned logical alignment) := by
  rw [requireAligned]
  split
  · exact .pure
  · exact .throw

theorem reads_requireEven {r : RegisterNumber} : Reads (requireEven r) := by
  rw [requireEven]
  split
  · exact .pure
  · exact .throw

theorem reads_pair {r : RegisterNumber} : Reads (pair r) :=
  .bind reads_requireEven fun _ => ends_ask

theorem reads_readWord {logical : Word} {access : Access} : Reads (readWord logical access) :=
  .bind reads_requireAligned fun _ => .bind reads_translate fun _ => reads_fromMemory

theorem reads_readHalf {logical : Word} : Reads (readHalf logical) :=
  .bind reads_requireAligned fun _ => .bind reads_translate fun _ => reads_fromMemory

theorem reads_readByte {logical : Word} : Reads (readByte logical) :=
  .bind reads_translate fun _ => reads_fromMemory

theorem reads_readDouble {logical : Word} : Reads (readDouble logical) :=
  .bind reads_requireAligned fun _ => .bind reads_readWord fun _ => .bind reads_readWord fun _ => .pure

theorem reads_checkOverflow {overflowed : Bool} : Reads (checkOverflow overflowed) := by
  rw [checkOverflow]
  refine .bind ends_ask fun _ => ?_
  split
  · exact .throw
  · exact .pure

/-! ### Steps that set registers and condition codes -/

theorem ends_modifyCpu {f : Cpu → Cpu} (hf : ∀ s : Core, Permitted s ⟨f s.cpu, s.memory⟩) :
    Ends (fun _ => Permitted) S (modifyCpu f) where
  ok h := by cases h; exact hf _
  error h := by cases h

theorem ends_modifyRegisters {f : Cpu → Cpu} (hf : ∀ c, f c = { c with gpr := (f c).gpr, base := (f c).base }) :
    Ends (fun _ => Permitted) S (modifyCpu f) :=
  ends_modifyCpu fun s hp => by
    rw [hf]
    exact .registers { f s.cpu with faultAddress := s.cpu.faultAddress, indirections := s.cpu.indirections } hp

theorem ends_setGpr {r : RegisterNumber} {w : Word} : Ends (fun _ => Permitted) S (setGpr r w) :=
  ends_modifyRegisters fun _ => rfl

theorem ends_setBase {r : RegisterNumber} {w : Word} : Ends (fun _ => Permitted) S (setBase r w) :=
  ends_modifyRegisters fun _ => rfl

theorem ends_setPair {r : RegisterNumber} {d : Double} : Ends (fun _ => Permitted) S (setPair r d) :=
  .finish ends_setGpr fun _ => ends_setGpr

theorem ends_modifyPsd {f : Psd → Psd} (hprivileged : ∀ p : Psd, (f p).privileged = p.privileged)
    (hword2 : ∀ p : Psd, (f p).word2 = p.word2) : Ends (fun _ => Permitted) S (modifyPsd f) :=
  ends_modifyCpu fun _ hp =>
    ⟨(hprivileged _).trans hp, hword2 _, rfl, rfl, rfl, rfl, rfl, rfl, fun _ hne => absurd rfl hne⟩

theorem ends_setCodes {cc : ConditionCodes} : Ends (fun _ => Permitted) S (setCodes cc) :=
  ends_modifyPsd (fun _ => Psd.privileged_withCodes) fun _ => rfl

theorem alters_putResult {r : RegisterNumber} {value : Word} {overflowed : Bool} :
    Alters (putResult r value overflowed) :=
  .bind reads_checkOverflow fun _ => .finish ends_setGpr fun _ => ends_setCodes

theorem alters_putPairResult {r : RegisterNumber} {value : Double} {overflowed : Bool} :
    Alters (putPairResult r value overflowed) :=
  .bind reads_checkOverflow fun _ => .finish ends_setPair fun _ => ends_setCodes

theorem moves_of_reads (h : Reads x) : Moves Permitted x :=
  h.mono (fun _ _ _ => Same.permitted) fun _ _ => Same.permitted

theorem moves_of_alters (h : Alters x) : Moves Permitted x :=
  h.mono (fun _ _ _ => id) fun _ _ => Same.permitted

/-! ### Steps that store -/

/-- Changing an aligned part of a word through the address map changes no byte that is not granted. -/
theorem permitted_update {logical physical : Word} {alignment : Nat} {f : Word → Word}
    (h : s.cpu.map.translate logical .write s.cpu.psd.mapped s.cpu.psd.privileged s.memory.sizeBytes = .ok physical)
    (haligned : logical.toNat % alignment = 0) (hdvd : alignment ∣ 4)
    (hf : ∀ w place, place < 4 → place < physical.toNat % 4 ∨ physical.toNat % 4 + alignment ≤ place →
      Memory.byteOf (f w) place = Memory.byteOf w place) :
    Permitted s ⟨s.cpu, s.memory.update (physical.toNat / 4) f⟩ := fun hp => by
  refine ⟨hp, rfl, rfl, rfl, rfl, rfl, rfl, Memory.size_update .., fun n hne => ?_⟩
  rw [Memory.byteAt_update] at hne
  split at hne
  · next hword =>
    by_cases hplace : n % 4 < physical.toNat % 4 ∨ physical.toNat % 4 + alignment ≤ n % 4
    · have hn : (s.memory.wordAt (n / 4)) = s.memory.wordAt (physical.toNat / 4) := by rw [hword.1]
      exact absurd ((hf _ _ (Nat.mod_lt _ (by decide)) hplace).trans (by rw [← hn]; rfl)) hne
    · obtain ⟨-, neighbour, hneighbour, hnat⟩ := TranslationUnit.translate_add (k := n % 4 - physical.toNat % 4) h haligned
        hdvd (Nat.dvd_mul_right 4 _) (by omega)
      exact ⟨_, neighbour, hp ▸ hneighbour, by omega⟩
  · exact absurd rfl hne

theorem translate_eq_ok {logical physical : Word} {access : Access} :
    translate logical access s = .ok physical s' ↔
      s.cpu.map.translate logical access s.cpu.psd.mapped s.cpu.psd.privileged s.memory.sizeBytes = .ok physical ∧
        s' = s := by
  rw [translate]
  split
  · next heq => simp only [heq, EStateM.Result.ok.injEq, Except.ok.injEq, eq_comm]
  · next heq => simp [heq]

/-- An aligned word or part of a word that was translated is there to be changed. -/
theorem toMemory_change {logical physical : Word} {alignment : Nat} {f : Word → Word}
    (h : s.cpu.map.translate logical .write s.cpu.psd.mapped s.cpu.psd.privileged s.memory.sizeBytes = .ok physical)
    (haligned : logical.toNat % alignment = 0) (hdvd : alignment ∣ 4) :
    toMemory (Memory.change physical alignment f) s = .ok () ⟨s.cpu, s.memory.update (physical.toNat / 4) f⟩ := by
  have halignment : 0 < alignment := Nat.pos_of_dvd_of_pos hdvd (by decide)
  have hphysical := (TranslationUnit.translate_add h haligned hdvd (Nat.dvd_mul_right 4 _) halignment).1
  rw [toMemory, Memory.change_of_lt hphysical (TranslationUnit.translate_lt h)]

theorem alters_requireAligned {logical : Word} {alignment : Nat} {f : Unit → Exec α}
    (hf : logical.toNat % alignment = 0 → Ends T Same (f ())) [∀ a, Trans Same (T a) (T a)] :
    Ends T Same (requireAligned logical alignment >>= f) := by
  rw [requireAligned]
  split
  · next haligned => exact .bind (Q := Same) .pure fun _ => hf haligned
  · exact .throw

/-- A store of an aligned part of a word traps before it changes anything, or stays inside the rights. -/
theorem alters_change {logical : Word} {alignment : Nat} {f : Word → Word → Word}
    (haligned : logical.toNat % alignment = 0) (hdvd : alignment ∣ 4)
    (hf : ∀ (physical w : Word) (place : Nat), physical.toNat % alignment = 0 → place < 4 →
      place < physical.toNat % 4 ∨ physical.toNat % 4 + alignment ≤ place →
        Memory.byteOf (f physical w) place = Memory.byteOf w place) :
    Alters (translate logical .write >>= fun physical => toMemory (Memory.change physical alignment (f physical))) where
  ok h := by
    obtain ⟨physical, t, htranslate, hstore⟩ := bind_eq_ok.mp h
    obtain ⟨hphysical, rfl⟩ := translate_eq_ok.mp htranslate
    have hpos : 0 < alignment := Nat.pos_of_dvd_of_pos hdvd (by decide)
    have hat := (TranslationUnit.translate_add hphysical haligned hdvd (Nat.dvd_mul_right 4 _) hpos).1
    rw [toMemory_change hphysical haligned hdvd] at hstore
    cases hstore
    exact permitted_update hphysical haligned hdvd fun w place => hf physical w place hat
  error h := by
    rcases bind_eq_error.mp h with h | ⟨physical, t, htranslate, hstore⟩
    · exact reads_translate.error h
    · obtain ⟨hphysical, rfl⟩ := translate_eq_ok.mp htranslate
      rw [toMemory_change hphysical haligned hdvd] at hstore
      cases hstore

theorem alters_writeWord {logical w : Word} : Alters (writeWord logical w) :=
  alters_requireAligned fun haligned =>
    alters_change (f := fun _ _ => w) haligned (Nat.dvd_refl 4) fun _ _ _ _ _ _ => by omega

theorem alters_writeHalf {logical : Word} {h : Half} : Alters (writeHalf logical h) :=
  alters_requireAligned fun haligned =>
    alters_change (f := fun physical w => Memory.withHalf w (physical.toNat % 4) h) haligned (by decide)
      fun _ _ _ _ hlt _ => Memory.byteOf_withHalf_of_ne hlt (by omega) (by omega) (by omega)

theorem alters_writeByte {logical : Word} {b : Byte} : Alters (writeByte logical b) :=
  alters_change (f := fun physical w => Memory.withByte w (physical.toNat % 4) b) (Nat.mod_one _) (Nat.one_dvd 4)
    fun _ _ _ _ hlt _ => Memory.byteOf_withByte_of_ne hlt (Nat.mod_lt _ (by decide)) (by omega)

/-- Both words of a doubleword are translated before either is stored, and then both are stored. -/
theorem alters_writeDouble {logical : Word} {d : Double} : Alters (writeDouble logical d) := by
  refine alters_requireAligned fun haligned => ?_
  have hhigh : logical.toNat % 4 = 0 := by omega
  have hlow : (logical + 4).toNat % 4 = 0 := by
    have hnat : (logical + 4).toNat = (logical.toNat + 4) % 0x100000000 := BitVec.toNat_add ..
    omega
  have hstore : ∀ {s : Core} {high low : Word},
      s.cpu.map.translate logical .write s.cpu.psd.mapped s.cpu.psd.privileged s.memory.sizeBytes = .ok high →
      s.cpu.map.translate (logical + 4) .write s.cpu.psd.mapped s.cpu.psd.privileged s.memory.sizeBytes = .ok low →
      ∃ s', (do toMemory (Memory.writeWord high (highWord d)); toMemory (Memory.writeWord low (lowWord d)) :
        Exec Unit) s = .ok () s' ∧ Permitted s s' := fun {s high low} hfirst hsecond => by
    let t : Core := ⟨s.cpu, s.memory.update (high.toNat / 4) fun _ => highWord d⟩
    have hsecond' : t.cpu.map.translate (logical + 4) .write t.cpu.psd.mapped t.cpu.psd.privileged t.memory.sizeBytes =
        .ok low := (congrArg _ (Memory.sizeBytes_update ..)).trans hsecond
    have hat := (TranslationUnit.translate_add hfirst hhigh (Nat.dvd_refl 4) (Nat.dvd_mul_right 4 _) (by decide : 0 < 4)).1
    have hat' := (TranslationUnit.translate_add hsecond hlow (Nat.dvd_refl 4) (Nat.dvd_mul_right 4 _) (by decide : 0 < 4)).1
    have hpermitted : Permitted s t := permitted_update hfirst hhigh (Nat.dvd_refl 4) fun _ _ _ _ => by omega
    have hpermitted' : Permitted t ⟨t.cpu, t.memory.update (low.toNat / 4) fun _ => lowWord d⟩ :=
      permitted_update hsecond' hlow (Nat.dvd_refl 4) fun _ _ _ _ => by omega
    refine ⟨_, ?_, Trans.trans hpermitted hpermitted'⟩
    exact bind_eq_ok.mpr ⟨(), t, toMemory_change hfirst hhigh (Nat.dvd_refl 4),
      toMemory_change hsecond' hlow (Nat.dvd_refl 4)⟩
  constructor
  · intro s s' _ h
    obtain ⟨high, _, hx, hrest⟩ := bind_eq_ok.mp h
    obtain ⟨hfirst, rfl⟩ := translate_eq_ok.mp hx
    obtain ⟨low, _, hx', hstores⟩ := bind_eq_ok.mp hrest
    obtain ⟨hsecond, rfl⟩ := translate_eq_ok.mp hx'
    obtain ⟨t, heq, hpermitted⟩ := hstore hfirst hsecond
    cases heq.symm.trans hstores
    exact hpermitted
  · intro s s' _ h
    rcases bind_eq_error.mp h with hx | ⟨high, _, hx, hrest⟩
    · exact reads_translate.error hx
    obtain ⟨hfirst, rfl⟩ := translate_eq_ok.mp hx
    rcases bind_eq_error.mp hrest with hx' | ⟨low, _, hx', hstores⟩
    · exact reads_translate.error hx'
    obtain ⟨hsecond, rfl⟩ := translate_eq_ok.mp hx'
    obtain ⟨t, heq, -⟩ := hstore hfirst hsecond
    cases heq.symm.trans hstores

/-! ### Steps that need the privilege -/

theorem checks_requirePrivileged :
    Ends (fun _ s s' => s.cpu.psd.privileged = true ∧ s' = s) Same requirePrivileged := by
  have hrun : ∀ s : Core, requirePrivileged s =
      if s.cpu.psd.privileged then .ok () s else .error .privilegeViolation s := fun s => by
    show (if !s.cpu.psd.privileged then throw .privilegeViolation else pure () : Exec Unit) s = _
    cases s.cpu.psd.privileged
    · rfl
    · rfl
  constructor
  · intro s s' _ h
    rw [hrun] at h
    split at h <;> cases h
    exact ⟨‹_›, rfl⟩
  · intro s s' _ h
    rw [hrun] at h
    split at h <;> cases h
    exact Std.Refl.refl _

/-- What follows the check of the privilege is free to do anything, as long as it does nothing when it traps. -/
theorem guarded_requirePrivileged {f : Unit → Exec α} (hf : ∀ u, Ends (fun _ => Anyhow) Same (f u)) :
    Ends (fun _ => Guarded) Same (requirePrivileged >>= f) :=
  .bind_check checks_requirePrivileged hf

theorem anyhow_modifyCpu {f : Cpu → Cpu} : Ends (fun _ => Anyhow) S (modifyCpu f) where
  ok _ := trivial
  error h := by cases h

theorem guarded_finish {β : Type} {f : α → Exec β} (hx : Ends (fun _ => Guarded) Same x)
    (hf : ∀ a, Ends (fun _ => Anyhow) Never (f a)) : Ends (fun _ => Guarded) Same (x >>= f) where
  ok h := by
    obtain ⟨_, _, hxt, -⟩ := bind_eq_ok.mp h
    have hp := hx.ok hxt
    exact hp
  error h := by
    rcases bind_eq_error.mp h with h | ⟨a, _, -, hft⟩
    · exact hx.error h
    · exact ((hf a).error hft).elim

theorem commits_of_guarded {x : Exec Flow} (h : Ends (fun _ => Guarded) Same x) : Commits x :=
  h.mono (fun _ _ _ hp hn => absurd hp (by rw [Guarded, hn]; exact Bool.false_ne_true)) fun _ _ => id

end Exec
end Concept32
