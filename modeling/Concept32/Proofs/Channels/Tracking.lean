import Mathlib.Logic.Function.Basic
import Concept32.Proofs.Channels.Fetching
import Concept32.Proofs.Channels.Servicing

/-!
# What the bytes of a device make of memory

Bytes that a device has put in are in memory or in the word that its program keeps, which is written back later as a
whole. As long as nobody else stores into that word, every byte is the last that was stored at its address.
-/

namespace Concept32
open EStateM

/-! ### Stores -/

abbrev ByteStore := Nat × Byte

/-- The bytes that stores leave, one after another. -/
def overwritten (bytes : Nat → Byte) (stores : List ByteStore) : Nat → Byte :=
  stores.foldl (fun bytes e => Function.update bytes e.1 e.2) bytes

section
variable {bytes bytes' : Nat → Byte} {stores : List ByteStore} {n : Nat}

theorem overwritten_append {later : List ByteStore} :
    overwritten bytes (stores ++ later) = overwritten (overwritten bytes stores) later := List.foldl_append

theorem overwritten_of_untouched (h : ∀ e ∈ stores, e.1 ≠ n) : overwritten bytes stores n = bytes n := by
  induction stores generalizing bytes with
  | nil => rfl
  | cons e rest ih =>
    refine (ih fun e' he' => h e' (List.mem_cons_of_mem _ he')).trans ?_
    exact Function.update_of_ne (Ne.symm (h e List.mem_cons_self)) _ _

theorem overwritten_congr (h : bytes n = bytes' n) : overwritten bytes stores n = overwritten bytes' stores n := by
  induction stores generalizing bytes bytes' with
  | nil => exact h
  | cons e rest ih =>
    refine ih ?_
    dsimp only
    by_cases hn : n = e.1
    · rw [hn, Function.update_self, Function.update_self]
    · rw [Function.update_of_ne hn, Function.update_of_ne hn, h]

end

/-- The word has the bytes that are to be in memory, and there is a place for it. -/
structure StagedWord.Accurate (bytes : Nat → Byte) (extent : Nat) (word : StagedWord) : Prop where
  aligned : word.address.toNat % 4 = 0
  present : word.address.toNat / 4 < extent
  value : ∀ n, n / 4 = word.address.toNat / 4 → Memory.byteOf word.value (n % 4) = bytes n

namespace ChannelProgram
variable {p q : ChannelProgram} {mem : Memory} {limit : Nat}

/-- The word that has bytes which are not written back. -/
def unwritten? (p : ChannelProgram) : Option StagedWord := p.staged.filter StagedWord.dirty

def holds? (p : ChannelProgram) : Option Nat := p.unwritten?.map fun word => word.address.toNat / 4

theorem unwritten?_eq_some {word : StagedWord} :
    p.unwritten? = some word ↔ p.staged = some word ∧ word.dirty = true := by
  rw [unwritten?, Option.filter_eq_some_iff]

/-- A word that the program keeps without need is not used for bytes that come in. -/
def Settled (p : ChannelProgram) : Prop :=
  ∀ word, p.staged = some word → word.dirty = false → p.count = 0 ∨ p.status.hasError = true

theorem settled_of_none (h : p.staged = none) : p.Settled := fun word hword => by
  cases h.symm.trans hword

/-- Whatever word the program keeps has bytes to write back. -/
def Fresh (p : ChannelProgram) : Prop := ∀ word, p.staged = some word → word.dirty = true

theorem Fresh.settled (h : p.Fresh) : p.Settled := fun word hword hclean => by
  cases (h word hword).symm.trans hclean

theorem Settled.fresh (h : p.Settled) (hcount : p.count ≠ 0) (herror : p.status.hasError = false) : p.Fresh := by
  intro word hword
  by_contra hclean
  rw [Bool.not_eq_true] at hclean
  rcases h word hword hclean with hzero | hfailed
  · exact hcount hzero
  · cases herror.symm.trans hfailed

/-! ### Going through a list -/

/-- How going on to data ends: there are some, in a doubleword that is new or the same; there are none; or the list is
wrong. The word is the one before or none. -/
inductive Chains (p : ChannelProgram) : Result ChannelStatus ChannelProgram Bool → Prop
  | moved {q : ChannelProgram} (h : (q = p ∧ p.count ≠ 0) ∨ q.staged = none) : Chains p (.ok true q)
  | exhausted {q : ChannelProgram} (hcount : q.count = 0) (hstaged : q.staged = p.staged ∨ q.staged = none) :
    Chains p (.ok false q)
  | failed {s : ChannelStatus} {q : ChannelProgram} (herror : q.status.hasError = true)
      (hstaged : q.staged = p.staged ∨ q.staged = none) : Chains p (.error s q)

theorem chains (mem : Memory) (limit : Nat) (p : ChannelProgram) : Chains p (chainData mem limit p) := by
  induction limit generalizing p with
  | zero =>
    rw [ChannelProgram.chainData]
    split
    · next hcount => exact .moved (.inl ⟨rfl, hcount⟩)
    split
    · next hcount _ => exact .exhausted (Decidable.not_not.mp hcount) (.inl rfl)
    · exact .failed ChannelStatus.hasError_union_programCheck (.inl rfl)
  | succ limit ih =>
    rw [ChannelProgram.chainData]
    split
    · next hcount => exact .moved (.inl ⟨rfl, hcount⟩)
    split
    · next hcount _ => exact .exhausted (Decidable.not_not.mp hcount) (.inl rfl)
    · have hfetches := fetches mem true p
      -- From a new doubleword on no word is kept.
      have hnew : ∀ q : ChannelProgram, q.staged = none → Chains p (chainData mem limit q) := fun q hq => by
        have hrest := ih q
        generalize chainData mem limit q = result at hrest
        cases hrest with
        | moved h =>
          refine .moved (.inr ?_)
          rcases h with ⟨rfl, -⟩ | h
          · exact hq
          · exact h
        | exhausted hcount hstaged => exact .exhausted hcount (.inr (by simpa [hq] using hstaged))
        | failed herror hstaged => exact .failed herror (.inr (by simpa [hq] using hstaged))
      generalize fetch mem true p = fetched at hfetches
      cases hfetches with
      | stopped herror _ _ hstaged => exact .failed herror hstaged
      | continued _ _ _ hstaged => exact hnew _ hstaged
      | given _ _ hstaged => exact hnew _ hstaged

theorem staged_skipChain (h : p.staged = none) : (p.skipChain mem limit).staged = none := by
  induction limit generalizing p with
  | zero =>
    rw [skipChain]
    split
    · exact h
    · exact h
  | succ limit ih =>
    rw [skipChain]
    split
    · exact h
    · have hfetches := fetches mem true p
      generalize fetch mem true p = fetched at hfetches
      cases hfetches with
      | stopped _ _ _ hstaged => simpa [h] using hstaged
      | continued _ _ _ hstaged =>
        dsimp only
        split
        · exact ih hstaged
        · exact hstaged
      | given _ _ hstaged =>
        dsimp only
        split
        · exact ih hstaged
        · exact hstaged

end ChannelProgram

namespace Transfer
open ChannelProgram
variable {t t' : Transfer} {bytes : Nat → Byte} {extent : Nat} {held : Nat → Prop} {a : Address} {b : Byte}
  {word : StagedWord}

/-! ### Keeping track of bytes -/

/-- Memory has every byte, but for the words that are held elsewhere and for the one that the program is to write back,
which has its bytes itself. -/
structure Tracks (bytes : Nat → Byte) (extent : Nat) (held : Nat → Prop) (t : Transfer) : Prop where
  size : t.memory.words.size = extent
  memory : ∀ n, ¬held (n / 4) → t.program.holds? ≠ some (n / 4) → t.memory.byteAt n = bytes n
  word : ∀ word, t.program.unwritten? = some word → word.Accurate bytes extent

namespace Tracks

theorem change {q : ChannelProgram} (h : Tracks bytes extent held t) (hstaged : q.staged = t.program.staged) :
    Tracks bytes extent held ⟨q, t.memory⟩ := by
  have hsame : q.unwritten? = t.program.unwritten? := by rw [unwritten?, unwritten?, hstaged]
  have hholds : q.holds? = t.program.holds? := by rw [holds?, holds?, hsame]
  exact ⟨h.size, fun n hn hother => h.memory n hn (hholds ▸ hother), fun w hw => h.word w (hsame ▸ hw)⟩

theorem forget {q : ChannelProgram} (h : Tracks bytes extent held t) (hnone : t.program.unwritten? = none)
    (hq : q.unwritten? = none) : Tracks bytes extent held ⟨q, t.memory⟩ where
  size := h.size
  memory n hn _ := h.memory n hn (by simp [holds?, hnone])
  word w hw := by cases hq.symm.trans hw

end Tracks

/-- Writing the word back succeeds, and then memory has every byte. -/
theorem tracks_flush (h : Tracks bytes extent held t) : ∃ t', flush t = .ok () t' ∧ Tracks bytes extent held t' ∧
    t'.program.unstaged = t.program.unstaged ∧ t'.program.unwritten? = none := by
  cases hstaged : t.program.staged with
  | none => exact ⟨t, flush_none hstaged, h, rfl, by rw [unwritten?, hstaged]; rfl⟩
  | some word =>
    cases hdirty : word.dirty with
    | false =>
      refine ⟨t, flush_clean hstaged hdirty, h, rfl, ?_⟩
      rw [unwritten?, hstaged]
      simp [hdirty]
    | true =>
      have hword : t.program.unwritten? = some word := unwritten?_eq_some.mpr ⟨hstaged, hdirty⟩
      have hstore : Memory.writeWord (word.address.setWidth 32) word.value t.memory =
          .ok () (t.memory.update (word.address.toNat / 4) fun _ => word.value) := by
        rw [Memory.writeWord_eq_ok, toNat_setWidth_word]
        exact ⟨(h.word word hword).aligned, h.size ▸ (h.word word hword).present, rfl⟩
      refine ⟨_, flush_dirty hstaged hdirty hstore, ⟨?_, fun n hn _ => ?_, fun _ h => by cases h⟩, rfl, rfl⟩
      · rw [Memory.size_update, h.size]
      · rw [Memory.byteAt_update]
        split
        · next hn' => exact (h.word word hword).value n hn'.1
        · next hn' =>
          refine h.memory n hn fun hheld => hn' ⟨?_, h.size ▸ (h.word word hword).present⟩
          rw [holds?, hword] at hheld
          exact (Option.some.inj hheld).symm

/-- The word of a byte address, and what it has. -/
structure Stages (bytes : Nat → Byte) (extent : Nat) (held : Nat → Prop) (a : Address) (t : Transfer)
    (word : StagedWord) (t' : Transfer) : Prop where
  tracks : Tracks bytes extent held t'
  program : t'.program = { t.program with staged := some word }
  address : word.address = a &&& 0xFFFFFC#24
  value : ¬held (a.toNat / 4) → ∀ n, n / 4 = a.toNat / 4 → Memory.byteOf word.value (n % 4) = bytes n
  only : ∀ i, t'.program.holds? = some i → i = a.toNat / 4

theorem stages (h : Tracks bytes extent held t) (hfresh : t.program.Fresh) (hpresent : a.toNat / 4 < extent) :
    ∃ word t', stage a t = .ok word t' ∧ Stages bytes extent held a t word t' := by
  by_cases hstaged : ∃ word, t.program.staged = some word ∧ word.address = a &&& 0xFFFFFC#24
  · obtain ⟨word, hword, haddress⟩ := hstaged
    have hunwritten : t.program.unwritten? = some word := unwritten?_eq_some.mpr ⟨hword, hfresh word hword⟩
    have hindex : word.address.toNat / 4 = a.toNat / 4 := by rw [haddress, wordAddress_div]
    refine ⟨word, t, stage_staged hword haddress, h, by rw [← hword], haddress, fun _ n hn => ?_, fun i hi => ?_⟩
    · exact (h.word word hunwritten).value n (hn.trans hindex.symm)
    · rw [holds?, hunwritten] at hi
      exact (Option.some.inj hi).symm.trans hindex
  · obtain ⟨t', hflush, htracks, hsame, hnone⟩ := tracks_flush h
    obtain ⟨word, hfill, haddress, hvalue, hdirty⟩ := fill_of_lt (t := t') (htracks.size.symm ▸ hpresent)
    have hstage := stage_other (fun word hword haddress => hstaged ⟨word, hword, haddress⟩) hflush
    have hclean : ({ t'.program with staged := some word } : ChannelProgram).unwritten? = none := by
      rw [unwritten?]
      simp [hdirty]
    refine ⟨word, _, hstage.trans hfill, htracks.forget hnone hclean, ?_, haddress, fun hfree n hn => ?_,
      fun i hi => ?_⟩
    · exact congrArg (fun p => { p with staged := some word }) hsame
    · rw [← htracks.memory n (hn ▸ hfree) (by simp [holds?, hnone]), hvalue, Memory.byteAt, ← hn]
      rfl
    · rw [holds?, hclean] at hi
      cases hi

/-- Beyond the end of memory no word is found. -/
theorem stage_absent (h : Tracks bytes extent held t) (hfresh : t.program.Fresh) (habsent : ¬a.toNat / 4 < extent) :
    ∃ t', stage a t = failMemory t' ∧ Tracks bytes extent held t' := by
  obtain ⟨t', hflush, htracks, -, -⟩ := tracks_flush h
  refine ⟨t', (stage_other (fun word hword haddress => habsent ?_) hflush).trans (fill_of_not_lt ?_), htracks⟩
  · have hpresent := (h.word word (unwritten?_eq_some.mpr ⟨hword, hfresh word hword⟩)).present
    rwa [haddress, wordAddress_div] at hpresent
  · rwa [htracks.size]

/-! ### The calls of a device -/

/-- Where the program has just put a byte, unless it threw that away. -/
def leftAt? (p : ChannelProgram) : Option Address :=
  if p.flags.contains .skip then none
  else some (if p.command = some ChannelCommand.readBackward then p.dataAddress + 1 else p.dataAddress - 1)

/-- How a byte that comes in is taken: it is refused, or stored where the program says, if it is not thrown away. -/
inductive Takes (bytes : Nat → Byte) (extent : Nat) (held : Nat → Prop) (b : Byte) :
    Result TransferEnd Transfer Unit → Prop
  | refused {e : TransferEnd} {t : Transfer} (htracks : Tracks bytes extent held t) (hsettled : t.program.Settled) :
    Takes bytes extent held b (.error e t)
  | taken {t : Transfer}
      (htracks : Tracks (overwritten bytes ((leftAt? t.program).toList.map fun a => (a.toNat, b))) extent held t)
      (hsettled : t.program.Settled) : Takes bytes extent held b (.ok () t)

/-- The byte does not go into a word that is held elsewhere. -/
def Clear (held : Nat → Prop) : Result TransferEnd Transfer Unit → Prop
  | .ok _ t => ∀ a ∈ leftAt? t.program, ¬held (a.toNat / 4)
  | .error _ _ => True

def passed (p : ChannelProgram) : ChannelProgram :=
  { p with
    dataAddress := if p.command = some ChannelCommand.readBackward then p.dataAddress - 1 else p.dataAddress + 1
    count := p.count - 1 }

theorem leftAt?_passed {p : ChannelProgram} :
    leftAt? (passed p) = if p.flags.contains .skip then none else some p.dataAddress := by
  unfold leftAt? passed
  dsimp only
  split
  · rfl
  split
  · rw [BitVec.sub_add_cancel]
  · rw [BitVec.add_sub_cancel]

theorem Stages.put {q : ChannelProgram} (h : Stages bytes extent held a t word t') (hpresent : a.toNat / 4 < extent)
    (hfree : ¬held (a.toNat / 4))
    (hq : q.staged = some { word with value := Memory.withByte word.value (offsetOf a) b, dirty := true }) :
    Tracks (Function.update bytes a.toNat b) extent held ⟨q, t'.memory⟩ := by
  have hindex : word.address.toNat / 4 = a.toNat / 4 := by rw [h.address, wordAddress_div]
  have hunwritten : q.unwritten? =
      some { word with value := Memory.withByte word.value (offsetOf a) b, dirty := true } :=
    unwritten?_eq_some.mpr ⟨hq, rfl⟩
  refine ⟨h.tracks.size, fun n hn hother => ?_, fun w hw => ?_⟩
  -- The program holds the word of the address, so what is asked of memory is asked of other words only.
  · have hbeside : n / 4 ≠ a.toNat / 4 := fun heq => hother (by rw [holds?, hunwritten, heq, ← hindex]; rfl)
    have hne : n ≠ a.toNat := fun heq => hbeside (by rw [heq])
    rw [Function.update_of_ne hne]
    exact h.tracks.memory n hn fun hheld => hbeside (h.only _ hheld)
  · obtain rfl := Option.some.inj (hunwritten.symm.trans hw)
    refine ⟨?_, hindex ▸ hpresent, fun n hn => ?_⟩
    · show word.address.toNat % 4 = 0
      rw [h.address, toNat_wordAddress]
      omega
    · have hword : n / 4 = a.toNat / 4 := hn.trans hindex
      show Memory.byteOf (Memory.withByte word.value (a.toNat % 4) b) (n % 4) = _
      by_cases hne : n = a.toNat
      · rw [hne, Function.update_self, Memory.byteOf_withByte_self (by omega)]
      · rw [Function.update_of_ne hne, Memory.byteOf_withByte_of_ne (by omega) (by omega) (by omega)]
        exact h.value hfree n hword

theorem put_of_skip (hskip : t.program.flags.contains .skip = true) :
    put b t = .ok () ⟨passed t.program, t.memory⟩ := by
  unfold put
  refine (bind_of_ok (current_eq_ok t)).trans ((bind_of_ok (current_eq_ok t)).trans
    ((bind_of_ok (current_eq_ok t)).trans ?_))
  rw [hskip]
  rfl

theorem put_of_not_skip (hskip : t.program.flags.contains .skip = false) :
    put b t = (orStop (stage t.program.dataAddress) >>= fun word => do
      modifyProgram fun p => { p with
        staged := some { word with
          value := Memory.withByte word.value (offsetOf t.program.dataAddress) b
          dirty := true } }
      modifyProgram fun p => { p with
        dataAddress := if t.program.command = some ChannelCommand.readBackward then t.program.dataAddress - 1
          else t.program.dataAddress + 1
        count := p.count - 1 } : Step TransferEnd Unit) t := by
  unfold put
  refine (bind_of_ok (current_eq_ok t)).trans ((bind_of_ok (current_eq_ok t)).trans
    ((bind_of_ok (current_eq_ok t)).trans ?_))
  rw [hskip]
  rfl

theorem takes_put (h : Tracks bytes extent held t) (hfresh : t.program.Fresh) (hclear : Clear held (put b t)) :
    Takes bytes extent held b (put b t) := by
  cases hskip : t.program.flags.contains .skip with
  | true =>
    have hnone : leftAt? (passed t.program) = none := by rw [leftAt?_passed, hskip, if_pos rfl]
    rw [put_of_skip hskip]
    refine .taken ?_ (Fresh.settled hfresh)
    rw [hnone]
    exact h.change rfl
  | false =>
    have hstart := put_of_not_skip (b := b) hskip
    by_cases hpresent : t.program.dataAddress.toNat / 4 < extent
    · obtain ⟨word, t', hstage, hstages⟩ := stages h hfresh hpresent
      obtain ⟨program, memory⟩ := t'
      obtain rfl : program = _ := hstages.program
      let stored : StagedWord :=
        { word with value := Memory.withByte word.value (offsetOf t.program.dataAddress) b, dirty := true }
      have hput : put b t = .ok () ⟨passed { t.program with staged := some stored }, memory⟩ := by
        rw [hstart, bind_of_ok (orStop_of_ok hstage)]
        rfl
      have hleft : leftAt? (passed { t.program with staged := some stored }) = some t.program.dataAddress := by
        rw [leftAt?_passed]
        exact if_neg (Bool.eq_false_iff.mp hskip)
      have hfree : ¬held (t.program.dataAddress.toNat / 4) := by
        rw [hput] at hclear
        exact hclear _ hleft
      have htracks := hstages.put (q := passed { t.program with staged := some stored }) hpresent hfree rfl
      rw [hput]
      refine .taken ?_ (Fresh.settled fun w hw => by cases hw; rfl)
      rw [hleft]
      exact htracks
    · obtain ⟨t', hstage, htracks⟩ := stage_absent h hfresh hpresent
      have hfail : orStop (stage t.program.dataAddress) t = .error (.error (t'.program.addStatus .programCheck).status)
          ⟨{ t'.program.addStatus .programCheck with phase := .ended }, t'.memory⟩ := by
        rw [orStop, hstage]
        rfl
      have hput : put b t = .error (.error (t'.program.addStatus .programCheck).status)
          ⟨{ t'.program.addStatus .programCheck with phase := .ended }, t'.memory⟩ := by
        rw [hstart]
        exact bind_of_error hfail
      rw [hput]
      exact .refused (htracks.change rfl) fun _ _ _ => .inr ChannelStatus.hasError_union_programCheck

/-- Where there is no room, the word is written back before the list is gone through. -/
theorem takes_room (h : Tracks bytes extent held t) (hcount : t.program.count = 0)
    (hclear : Clear held ((do orStop flush; withData (put b) : Step TransferEnd Unit) t)) :
    Takes bytes extent held b ((do orStop flush; withData (put b) : Step TransferEnd Unit) t) := by
  obtain ⟨⟨program, memory⟩, hflush, htracks, hsame, hnone⟩ := tracks_flush h
  have hzero : program.count = 0 := (congrArg ChannelProgram.count hsame).trans hcount
  have hchains := chains memory dataChainLimit program
  rw [bind_of_ok (orStop_of_ok hflush)] at hclear ⊢
  generalize hchained : program.chainData memory dataChainLimit = chained at hchains
  -- Nothing is left to write back, so what becomes of the word on the way through the list does not matter.
  have hkept : ∀ q : ChannelProgram, q.staged = program.staged ∨ q.staged = none → q.unwritten? = none := by
    intro q hq
    rcases hq with hq | hq
    · rw [unwritten?, hq]
      exact hnone
    · rw [unwritten?, hq]
      rfl
  cases hchains with
  | @moved q hq =>
    have hstaged : q.staged = none := by
      rcases hq with ⟨-, hcount'⟩ | hstaged
      · exact absurd hzero hcount'
      · exact hstaged
    rw [withData_of_more (chainData_of_ok hchained)] at hclear ⊢
    exact takes_put (htracks.forget hnone (hkept q (.inr hstaged))) (fun w hw => by cases hstaged.symm.trans hw) hclear
  | @exhausted q hcount' hstaged =>
    rw [withData_of_none (chainData_of_ok hchained)]
    exact .refused (htracks.forget hnone (hkept _ hstaged)) fun _ _ _ => .inl hcount'
  | @failed s q herror hstaged =>
    rw [withData_of_error (chainData_of_error hchained)]
    exact .refused (htracks.forget hnone (hkept q hstaged)) fun _ _ _ => .inr herror

theorem settled_addStatus {p : ChannelProgram} {s : ChannelStatus} (h : p.Settled) : (p.addStatus s).Settled :=
  fun w hw hclean => (h w hw hclean).imp id fun herror => by
    show (p.status.union s).hasError = true
    rw [ChannelStatus.hasError_union, herror, Bool.true_or]

theorem takes_writeByte (h : Tracks bytes extent held t) (hsettled : t.program.Settled)
    (hclear : Clear held (writeByte b t)) : Takes bytes extent held b (writeByte b t) := by
  rcases accepting_cases _ t with ⟨-, p, e, hp, hrefused⟩ | ⟨hgo, haccepted⟩
  · have hwrite : writeByte b t = .error e ⟨p, t.memory⟩ := hrefused
    rw [hwrite]
    rcases hp with rfl | rfl
    · exact .refused h hsettled
    · exact .refused (h.change rfl) (settled_addStatus hsettled)
  · rw [not_or, Bool.not_eq_true] at hgo
    by_cases hcount : t.program.count = 0
    · have hwrite : writeByte b t = _ := haccepted.trans (congrFun (if_pos hcount) t)
      rw [hwrite] at hclear ⊢
      exact takes_room h hcount hclear
    · have hwrite : writeByte b t = put b t := haccepted.trans (congrFun (if_neg hcount) t)
      rw [hwrite] at hclear ⊢
      exact takes_put h (hsettled.fresh hcount hgo.1) hclear

def stores (b : Byte) (t : Transfer) : List ByteStore :=
  match writeByte b t with
  | .ok _ t => (leftAt? t.program).toList.map fun a => (a.toNat, b)
  | .error _ _ => []

theorem tracks_writeByte (h : Tracks bytes extent held t) (hsettled : t.program.Settled)
    (hfree : ∀ e ∈ stores b t, ¬held (e.1 / 4)) :
    Tracks (overwritten bytes (stores b t)) extent held ((writeByte b).run t).2 ∧
      ((writeByte b).run t).2.program.Settled := by
  have hclear : Clear held (writeByte b t) := by
    unfold stores at hfree
    unfold Clear
    cases hwrite : writeByte b t with
    | error e t' => trivial
    | ok u t' =>
      intro a ha
      rw [hwrite] at hfree
      exact hfree (a.toNat, b) (List.mem_map.mpr ⟨a, Option.mem_toList.mpr ha, rfl⟩)
  have htakes := takes_writeByte h hsettled hclear
  unfold stores Step.run
  generalize writeByte b t = written at htakes
  cases htakes with
  | refused htracks hsettled => exact ⟨htracks, hsettled⟩
  | taken htracks hsettled => exact ⟨htracks, hsettled⟩

theorem tracks_isComplete (h : Tracks bytes extent held t) (hsettled : t.program.Settled) :
    Tracks bytes extent held (isComplete.run t).2 ∧ (isComplete.run t).2.program.Settled := by
  by_cases hended : t.program.phase = .ended
  · rw [run_of_ok (show isComplete t = .ok true t from if_pos hended)]
    exact ⟨h, hsettled⟩
  by_cases hcount : t.program.count = 0
  · obtain ⟨t', hflush, htracks, hsame, -⟩ := tracks_flush h
    have hzero : t'.program.count = 0 := (congrArg ChannelProgram.count hsame).trans hcount
    have hcomplete := (if_neg hended).trans (if_neg fun hne => hne hcount) (a := isComplete t)
    rw [hflush] at hcomplete
    dsimp only at hcomplete
    split at hcomplete
    · rw [run_of_ok hcomplete]
      exact ⟨htracks, fun _ _ _ => .inl hzero⟩
    · rw [run_of_ok hcomplete]
      exact ⟨htracks.change rfl, fun _ _ _ => .inl hzero⟩
  · rw [run_of_ok (show isComplete t = .ok false t from (if_neg hended).trans (if_pos hcount))]
    exact ⟨h, hsettled⟩

theorem staged_ended {mem : Memory} {s : ChannelStatus} {p : ChannelProgram} : (ended mem s p).staged = none := by
  unfold ended
  refine staged_skipChain ?_
  split
  · split
    · rfl
    · rfl
  · split
    · rfl
    · rfl

/-- A device that ends its command has written everything back. -/
theorem tracks_endCommand {s : ChannelStatus} (h : Tracks bytes extent held t) :
    Tracks bytes extent held ((endCommand s).run t).2 ∧ ((endCommand s).run t).2.program.staged = none := by
  obtain ⟨t', hflush, htracks, -, hnone⟩ := tracks_flush h
  have hend : endCommand s t = .ok () ⟨ended t'.memory s t'.program, t'.memory⟩ := by rw [endCommand, hflush]
  rw [run_of_ok hend]
  exact ⟨htracks.forget hnone (by rw [unwritten?, staged_ended]; rfl), staged_ended⟩

theorem tracks_receive {d : DeviceAddress} {s : ChannelStatus} (h : Tracks bytes extent held t)
    (hsettled : t.program.Settled) :
    Tracks bytes extent held ⟨t.program.receive d s, t.memory⟩ ∧ (t.program.receive d s).Settled := by
  unfold receive
  split
  · exact ⟨h.change rfl, settled_addStatus hsettled⟩
  · exact ⟨h.change rfl, hsettled⟩

end Transfer

/-! ### Services -/

def Service.TakesIn {ω α : Type} : Service ω α → Prop
  | .done _ => True
  | .output _ rest => rest.TakesIn
  | .inspect next => ∀ v, (next v).TakesIn
  | .readByte _ => False
  | .writeByte _ next => ∀ r, (next r).TakesIn
  | .isComplete next => ∀ r, (next r).TakesIn
  | .endCommand _ rest => rest.TakesIn
  | .attention _ rest => rest.TakesIn
  | .wake _ rest => rest.TakesIn

namespace Connection
open Transfer
variable {ω α : Type} {bytes : Nat → Byte} {extent : Nat} {held : Nat → Prop}

def stores : Service ω α → Connection → List ByteStore
  | .done _, _ => []
  | .output _ rest, c => stores rest c
  | .inspect next, c => stores (next c.view) c
  | .readByte next, c => stores (next c.readByte.1) c.readByte.2
  | .writeByte b next, c => c.transfer.stores b ++ stores (next (c.writeByte b).1) (c.writeByte b).2
  | .isComplete next, c => stores (next c.isComplete.1) c.isComplete.2
  | .endCommand s rest, c => stores rest (c.endCommand s)
  | .attention s rest, c => stores rest (c.attention s)
  | .wake s rest, c => stores rest (c.wake s)

/-- A service that takes no bytes from memory leaves every byte as it was stored last. -/
theorem tracks_run (service : Service ω α) {c : Connection} (output : Array ω) (hin : service.TakesIn)
    (h : Tracks bytes extent held c.transfer) (hsettled : c.transfer.program.Settled)
    (hfree : ∀ e ∈ stores service c, ¬held (e.1 / 4)) :
    Tracks (overwritten bytes (stores service c)) extent held (c.run service output).2.1.transfer ∧
      (c.run service output).2.1.transfer.program.Settled := by
  induction service generalizing c output bytes with
  | done value => exact ⟨h, hsettled⟩
  | output item rest ih => exact ih _ hin h hsettled hfree
  | inspect next ih => exact ih c.view _ (hin _) h hsettled hfree
  | readByte next ih => exact hin.elim
  | writeByte b next ih =>
    obtain ⟨hbyte, hbyte'⟩ := tracks_writeByte h hsettled fun e he => hfree e (List.mem_append_left _ he)
    rw [← transfer_transferStep (x := Transfer.writeByte b)] at hbyte hbyte'
    have hrest := ih _ (c := (c.writeByte b).2) output (hin _) hbyte hbyte' fun e he =>
      hfree e (List.mem_append_right _ he)
    rw [stores, overwritten_append]
    exact hrest
  | isComplete next ih =>
    obtain ⟨hasked, hasked'⟩ := tracks_isComplete h hsettled
    rw [← transfer_isComplete] at hasked hasked'
    exact ih _ _ (hin _) hasked hasked' hfree
  | endCommand s rest ih =>
    obtain ⟨hended, hnone⟩ := tracks_endCommand (s := s) h
    rw [← transfer_endCommand] at hended hnone
    exact ih _ hin hended (ChannelProgram.settled_of_none hnone) hfree
  | attention s rest ih =>
    obtain ⟨hreceived, hreceived'⟩ := tracks_receive (d := c.address) (s := s) h hsettled
    exact ih _ hin hreceived hreceived' hfree
  | wake s rest ih => exact ih _ hin h hsettled hfree

end Connection
end Concept32
