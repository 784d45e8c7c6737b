import Concept32.Proofs.Channels.Direct
import Concept32.Proofs.Channels.Unstaged

/-!
# The staged word

How a transfer with a staged word stands to one without: the staged word has the value that memory has there, and
writing it back makes the two memories one.
-/

namespace Concept32.Transfer
open EStateM
variable {t t' r : Transfer} {word : StagedWord} {a : Address}

/-! ### The memory behind the staged word -/

/-- A staged word is a word of memory, and memory has its value. -/
structure Holds (word : StagedWord) (m : Memory) : Prop where
  aligned : word.address.toNat % 4 = 0
  present : word.address.toNat / 4 < m.words.size
  value : m.wordAt (word.address.toNat / 4) = word.value

/-- Memory with the staged word written back. -/
def written (t : Transfer) : Memory :=
  match t.program.staged with
  | some word => if word.dirty then t.memory.update (word.address.toNat / 4) fun _ => word.value else t.memory
  | none => t.memory

/-- A transfer without a staged word is where one with a staged word is. -/
structure Shadows (t r : Transfer) : Prop where
  program : r.program = t.program.unstaged
  holds : ∀ word, t.program.staged = some word → Holds word r.memory
  memory : r.memory = t.written

/-- The two have the same memory: the staged word need not be written back. -/
structure Clean (t r : Transfer) : Prop where
  program : r.program = t.program.unstaged
  memory : r.memory = t.memory
  staged : ∀ word, t.program.staged = some word → Holds word r.memory ∧ word.dirty = false

theorem Clean.shadows (h : Clean t r) : Shadows t r where
  program := h.program
  holds word hword := (h.staged word hword).1
  memory := by
    rw [h.memory, written]
    split
    · next word hword => rw [(h.staged word hword).2, if_neg Bool.false_ne_true]
    · rfl

theorem Clean.of_none (hprogram : r.program = t.program.unstaged) (hmemory : r.memory = t.memory)
    (hnone : t.program.staged = none) : Clean t r :=
  ⟨hprogram, hmemory, fun word hword => by rw [hnone] at hword; cases hword⟩

theorem Clean.of_some (hprogram : r.program = t.program.unstaged) (hmemory : r.memory = t.memory)
    (hword : t.program.staged = some word) (hholds : Holds word r.memory) (hclean : word.dirty = false) :
    Clean t r :=
  ⟨hprogram, hmemory, fun word' hword' => by
    rw [hword] at hword'
    cases hword'
    exact ⟨hholds, hclean⟩⟩

theorem flush_none (hnone : t.program.staged = none) : flush t = .ok () t := by
  rw [flush, bind_of_ok (current_eq_ok t), hnone]
  rfl

theorem flush_clean (hword : t.program.staged = some word) (hclean : word.dirty = false) : flush t = .ok () t := by
  rw [flush, bind_of_ok (current_eq_ok t), hword]
  dsimp only
  rw [if_neg (Bool.not_eq_true _ ▸ hclean)]
  rfl

theorem flush_dirty {m : Memory} (hword : t.program.staged = some word) (hdirty : word.dirty = true)
    (hstore : Memory.writeWord (word.address.setWidth 32) word.value t.memory = .ok () m) :
    flush t = .ok () ⟨{ t.program with staged := some { word with dirty := false } }, m⟩ := by
  rw [flush, bind_of_ok (current_eq_ok t), hword]
  dsimp only
  rw [if_pos hdirty]
  refine (bind_of_ok (a := true) (t := ⟨t.program, m⟩) ?_).trans rfl
  rw [hstore]

/-- Writing the staged word back succeeds, and memory is then what it is without a staged word. -/
theorem flush_of_shadows (h : Shadows t r) : ∃ t', flush t = .ok () t' ∧ Clean t' r := by
  cases hstaged : t.program.staged with
  | none => exact ⟨t, flush_none hstaged, .of_none h.program (by rw [h.memory, written, hstaged]) hstaged⟩
  | some word =>
    have hholds := h.holds word hstaged
    cases hdirty : word.dirty with
    | false =>
      have hmemory : r.memory = t.memory := by
        rw [h.memory, written, hstaged]
        exact if_neg (Bool.not_eq_true _ ▸ hdirty)
      exact ⟨t, flush_clean hstaged hdirty, .of_some h.program hmemory hstaged hholds hdirty⟩
    | true =>
      have hmemory : r.memory = t.memory.update (word.address.toNat / 4) fun _ => word.value := by
        rw [h.memory, written, hstaged]
        exact if_pos hdirty
      have hstore : Memory.writeWord (word.address.setWidth 32) word.value t.memory = .ok () r.memory := by
        rw [Memory.writeWord_eq_ok, toNat_setWidth_word]
        exact ⟨hholds.aligned, by simpa [hmemory] using hholds.present, hmemory⟩
      exact ⟨_, flush_dirty hstaged hdirty hstore,
        .of_some h.program rfl rfl ⟨hholds.aligned, hholds.present, hholds.value⟩ rfl⟩

/-! ### The word of a byte address -/

/-- The address of the word that holds a byte address. -/
theorem toNat_wordAddress (a : Address) : (a &&& 0xFFFFFC#24).toNat = a.toNat / 4 * 4 := by
  have hbits : ∀ i : Fin 24, (0xFFFFFC#24).getLsbD i = decide (2 ≤ i.val) := by decide
  have hshift : a &&& 0xFFFFFC#24 = a >>> 2 <<< 2 := by
    refine BitVec.eq_of_getLsbD_eq fun i hi => ?_
    rw [BitVec.getLsbD_and, hbits ⟨i, hi⟩, BitVec.getLsbD_shiftLeft, BitVec.getLsbD_ushiftRight]
    by_cases h2 : 2 ≤ i
    · have hlow : ¬i < 2 := by omega
      simp only [hi, h2, hlow, Nat.add_sub_of_le, decide_true, decide_false, Bool.not_false, Bool.and_true, Bool.true_and]
    · have hlow : i < 2 := by omega
      simp only [h2, hlow, decide_true, decide_false, Bool.not_true, Bool.and_false, Bool.false_and]
  rw [hshift, BitVec.toNat_shiftLeft, BitVec.toNat_ushiftRight, Nat.shiftLeft_eq, Nat.shiftRight_eq_div_pow]
  omega

theorem wordAddress_div (a : Address) : (a &&& 0xFFFFFC#24).toNat / 4 = a.toNat / 4 := by
  rw [toNat_wordAddress]
  omega

/-- Read the word that holds a byte address and keep it as the staged one. -/
def fill (a : Address) : Step ChannelStatus StagedWord := do
  match (← get).memory.readWord ((a &&& 0xFFFFFC#24).setWidth 32) with
  | .ok value =>
    let word : StagedWord := ⟨a &&& 0xFFFFFC#24, value, false⟩
    modifyProgram fun p => { p with staged := some word }
    return word
  | .error _ => failMemory

/-- The staged word is the one asked for. -/
theorem stage_staged (hword : t.program.staged = some word) (haddress : word.address = a &&& 0xFFFFFC#24) :
    stage a t = .ok word t := by
  rw [stage, bind_of_ok (current_eq_ok t), hword]
  dsimp only
  rw [if_pos haddress]
  rfl

/-- The staged word is another one, which is written back first. -/
theorem stage_other (hother : ∀ word, t.program.staged = some word → word.address ≠ a &&& 0xFFFFFC#24)
    (hflush : flush t = .ok () t') : stage a t = fill a t' := by
  rw [stage, bind_of_ok (current_eq_ok t)]
  cases hstaged : t.program.staged with
  | none => exact bind_of_ok hflush
  | some word =>
    dsimp only
    rw [if_neg (hother word hstaged)]
    exact bind_of_ok hflush

theorem fill_of_lt (hpresent : a.toNat / 4 < t.memory.words.size) :
    ∃ word, fill a t = .ok word ⟨{ t.program with staged := some word }, t.memory⟩ ∧
      word.address = a &&& 0xFFFFFC#24 ∧ word.value = t.memory.wordAt (a.toNat / 4) ∧ word.dirty = false := by
  have hread : t.memory.readWord ((a &&& 0xFFFFFC#24).setWidth 32) = .ok (t.memory.wordAt (a.toNat / 4)) := by
    rw [Memory.readWord_eq_ok, toNat_setWidth_word, wordAddress_div]
    exact ⟨by rw [toNat_wordAddress]; omega, hpresent, rfl⟩
  refine ⟨⟨a &&& 0xFFFFFC#24, t.memory.wordAt (a.toNat / 4), false⟩, ?_, rfl, rfl, rfl⟩
  rw [fill, bind_of_ok (EStateM.get_eq_ok.mpr ⟨rfl, rfl⟩), hread]
  rfl

theorem fill_of_not_lt (habsent : ¬a.toNat / 4 < t.memory.words.size) : fill a t = failMemory t := by
  rw [fill, bind_of_ok (EStateM.get_eq_ok.mpr ⟨rfl, rfl⟩)]
  cases hread : t.memory.readWord ((a &&& 0xFFFFFC#24).setWidth 32) with
  | ok value =>
    rw [Memory.readWord_eq_ok, toNat_setWidth_word, wordAddress_div] at hread
    exact absurd hread.2.1 habsent
  | error e => rfl

/-- A byte address that is present has its word staged. -/
theorem stage_of_lt (h : Shadows t r) (hpresent : a.toNat / 4 < r.memory.words.size) :
    ∃ word t', stage a t = .ok word t' ∧ Shadows t' r ∧ (Clean t r → Clean t' r) ∧
      t'.program.staged = some word ∧ word.address = a &&& 0xFFFFFC#24 := by
  by_cases hstaged : ∃ word, t.program.staged = some word ∧ word.address = a &&& 0xFFFFFC#24
  · obtain ⟨word, hword, haddress⟩ := hstaged
    exact ⟨word, t, stage_staged hword haddress, h, id, hword, haddress⟩
  · obtain ⟨t', hflush, hclean⟩ := flush_of_shadows h
    rw [hclean.memory] at hpresent
    obtain ⟨word, hfill, haddress, hvalue, hdirty⟩ := fill_of_lt hpresent
    have hstage := stage_other (fun word hword haddress => hstaged ⟨word, hword, haddress⟩) hflush
    have hholds : Holds word r.memory := by
      refine ⟨?_, ?_, ?_⟩
      · rw [haddress, toNat_wordAddress]
        omega
      · rwa [haddress, wordAddress_div, hclean.memory]
      · rw [haddress, wordAddress_div, hvalue, hclean.memory]
    have hkept : Clean ⟨{ t'.program with staged := some word }, t'.memory⟩ r :=
      .of_some hclean.program hclean.memory rfl hholds hdirty
    exact ⟨word, _, hstage.trans hfill, hkept.shadows, fun _ => hkept, rfl, haddress⟩

/-- A byte address beyond the end of memory ends the transfer. -/
theorem stage_of_not_lt (h : Shadows t r) (habsent : ¬a.toNat / 4 < r.memory.words.size) :
    ∃ t', stage a t = failMemory t' ∧ Clean t' r := by
  obtain ⟨t', hflush, hclean⟩ := flush_of_shadows h
  refine ⟨t', (stage_other (fun word hword haddress => habsent ?_) hflush).trans (fill_of_not_lt ?_), hclean⟩
  · rw [← wordAddress_div, ← haddress]
    exact (h.holds word hword).present
  · rwa [hclean.memory] at habsent
end Concept32.Transfer
