import Concept32.Proofs.Channels.SoundPrograms
import Concept32.Proofs.Channels.Tracking

/-!
# Staged words in memory

The word that a program keeps is one of the words of memory. Writing it back therefore cannot fail, and a command always
comes to its end. A byte that is moved is one of those that were left.
-/

namespace Concept32
open EStateM

/-- Memory of `extent` words has a place for the word. -/
structure StagedWord.Fits (extent : Nat) (word : StagedWord) : Prop where
  aligned : word.address.toNat % 4 = 0
  present : word.address.toNat / 4 < extent

namespace ChannelProgram
variable {mem : Memory} {limit : Nat} {p q : ChannelProgram}

/-- The program has no command in progress and none to go on to, so it is not busy. -/
structure AtRest (p : ChannelProgram) : Prop where
  command : p.command = none
  flags : p.flags = .none
  idle : p.isBusy = false

theorem atRest_of (hcommand : p.command = none) (hflags : p.flags = .none) : p.AtRest := by
  refine ⟨hcommand, hflags, ?_⟩
  unfold isBusy
  rw [hcommand, hflags]
  decide

/-- Data chaining comes to a doubleword that has data. -/
theorem count_of_chainData (h : chainData mem limit p = .ok true q) : q.count ≠ 0 := by
  induction limit generalizing p with
  | zero =>
    rw [chainData] at h
    split at h
    · next hcount =>
      cases h
      exact hcount
    · split at h
      · cases h
      · cases h
  | succ limit ih =>
    rw [chainData] at h
    split at h
    · next hcount =>
      cases h
      exact hcount
    · split at h
      · cases h
      · cases hfetch : fetch mem true p with
        | ok issued p' =>
          rw [hfetch] at h
          exact ih h
        | error s p' =>
          rw [hfetch] at h
          cases h

theorem staged_chainData (mem : Memory) (limit : Nat) (p : ChannelProgram) :
    (reached (chainData mem limit p)).staged = p.staged ∨ (reached (chainData mem limit p)).staged = none := by
  have hchains := chains mem limit p
  generalize chainData mem limit p = result at hchains
  cases hchains with
  | moved h =>
    rcases h with ⟨rfl, -⟩ | hnone
    · exact .inl rfl
    · exact .inr hnone
  | exhausted _ hstaged => exact hstaged
  | failed _ hstaged => exact hstaged

end ChannelProgram

namespace Transfer
open ChannelProgram
variable {α : Type} {t t' : Transfer} {extent : Nat} {a : Address} {b : Byte} {s : ChannelStatus} {p q : ChannelProgram}

/-- Memory has `extent` words, and the one that the program keeps is among them. -/
structure Fits (extent : Nat) (t : Transfer) : Prop where
  size : t.memory.words.size = extent
  staged : ∀ word, t.program.staged = some word → word.Fits extent

theorem Fits.change (h : t.Fits extent) (hq : q.staged = t.program.staged ∨ q.staged = none) :
    Fits extent ⟨q, t.memory⟩ where
  size := h.size
  staged word hword := by
    rcases hq with hsame | hnone
    · exact h.staged word (hsame ▸ hword)
    · cases hnone.symm.trans hword

theorem Fits.stagedAs (h : t.Fits extent) {word : StagedWord} (hword : word.Fits extent) (hq : q.staged = some word) :
    Fits extent ⟨q, t.memory⟩ where
  size := h.size
  staged other hother := by
    obtain rfl := Option.some.inj (hq.symm.trans hother)
    exact hword

/-! ### The staged word -/

theorem flush_of_fits (h : t.Fits extent) :
    ∃ t', flush t = .ok () t' ∧ t'.Fits extent ∧ t'.program.unstaged = t.program.unstaged := by
  cases hstaged : t.program.staged with
  | none => exact ⟨t, flush_none hstaged, h, rfl⟩
  | some word =>
    have hword := h.staged word hstaged
    cases hdirty : word.dirty with
    | false => exact ⟨t, flush_clean hstaged hdirty, h, rfl⟩
    | true =>
      have hstore : Memory.writeWord (word.address.setWidth 32) word.value t.memory =
          .ok () (t.memory.update (word.address.toNat / 4) fun _ => word.value) := by
        rw [Memory.writeWord_eq_ok, toNat_setWidth_word]
        exact ⟨hword.aligned, h.size ▸ hword.present, rfl⟩
      have hfits : Fits extent ⟨t.program, t.memory.update (word.address.toNat / 4) fun _ => word.value⟩ :=
        ⟨(Memory.size_update _ _ _).trans h.size, h.staged⟩
      have hclean : StagedWord.Fits extent { word with dirty := false } := ⟨hword.aligned, hword.present⟩
      exact ⟨_, flush_dirty hstaged hdirty hstore, hfits.stagedAs hclean rfl, rfl⟩

theorem failMemory_eq : (failMemory : Step ChannelStatus α) t =
    .error (t.program.status.union .programCheck)
      ⟨{ t.program.addStatus .programCheck with phase := .ended }, t.memory⟩ := rfl

/-- A word that is staged is a word of memory; beyond the end of memory there is none. -/
theorem stage_of_fits (a : Address) (h : t.Fits extent) :
    (∃ word t', stage a t = .ok word t' ∧ t'.Fits extent ∧ word.Fits extent) ∨
      ∃ s t', stage a t = .error s t' ∧ t'.Fits extent := by
  by_cases hstaged : ∃ word, t.program.staged = some word ∧ word.address = a &&& 0xFFFFFC#24
  · obtain ⟨word, hword, haddress⟩ := hstaged
    exact .inl ⟨word, t, stage_staged hword haddress, h, h.staged word hword⟩
  obtain ⟨t', hflush, hfits, -⟩ := flush_of_fits h
  have hstage : stage a t = fill a t' :=
    stage_other (fun word hword haddress => hstaged ⟨word, hword, haddress⟩) hflush
  by_cases hpresent : a.toNat / 4 < extent
  · obtain ⟨word, hfill, haddress, -, -⟩ := fill_of_lt (hfits.size.symm ▸ hpresent)
    have hword : word.Fits extent := by
      refine ⟨?_, ?_⟩
      · rw [haddress, toNat_wordAddress]
        omega
      · rwa [haddress, wordAddress_div]
    exact .inl ⟨word, _, hstage.trans hfill, hfits.stagedAs hword rfl, hword⟩
  · have hfail : stage a t = failMemory t' := hstage.trans (fill_of_not_lt (hfits.size.symm ▸ hpresent))
    exact .inr ⟨_, _, hfail.trans failMemory_eq, hfits.change (.inl rfl)⟩

/-! ### Bytes that are moved -/

/-- How a call ends that moves a byte of the doubleword of `q`: with one fewer left, or with as many as were. -/
inductive Counts (extent : Nat) (q : ChannelProgram) : Result TransferEnd Transfer α → Prop
  | moved {answer : α} {t : Transfer} (hfits : t.Fits extent) (hcount : t.program.count.toNat + 1 = q.count.toNat) :
    Counts extent q (.ok answer t)
  | refused {e : TransferEnd} {t : Transfer} (hfits : t.Fits extent) (hcount : t.program.count = q.count) :
    Counts extent q (.error e t)

/-- The program at the doubleword whose byte is moved: where it was, or where data chaining leads it, perhaps after the
staged word is written back. -/
inductive ComesTo (t : Transfer) : ChannelProgram → Prop
  | stays : ComesTo t t.program
  | chained {t' : Transfer} (h : t' = t ∨ flush t = .ok () t') :
    ComesTo t (reached (t'.program.chainData t'.memory dataChainLimit))

/-- Staging a word leaves the bytes that the doubleword has left. -/
theorem count_stage_ok {word : StagedWord} (h : stage a t = .ok word t') : t'.program.count = t.program.count := by
  have hrests : t.program.Rests ((stage a).run t).2.program := Relates.stage t
  rw [run_of_ok h] at hrests
  exact hrests.count

theorem count_stage_error (h : stage a t = .error s t') : t'.program.count = t.program.count := by
  have hrests : t.program.Rests ((stage a).run t).2.program := Relates.stage t
  rw [run_of_error h] at hrests
  exact hrests.count

theorem counts_take (h : t.Fits extent) (hleft : t.program.count ≠ 0) : Counts extent t.program (take t) := by
  have htake : take t = _ := bind_of_ok (current_eq_ok t)
  rcases stage_of_fits t.program.dataAddress h with ⟨word, t', hstage, hfits, -⟩ | ⟨s, t', hstage, hfits⟩
  · have hcount := count_stage_ok hstage
    rw [htake, bind_of_ok (orStop_of_ok hstage)]
    refine .moved (hfits.change (.inl rfl)) ?_
    show (t'.program.count - 1).toNat + 1 = _
    rw [hcount]
    exact toNat_sub_one hleft
  · rw [htake, bind_of_error (orStop_of_error hstage)]
    exact .refused hfits (count_stage_error hstage)

theorem counts_put (h : t.Fits extent) (hleft : t.program.count ≠ 0) : Counts extent t.program (put b t) := by
  cases hskip : t.program.flags.contains .skip with
  | true =>
    rw [put_of_skip hskip]
    exact .moved (h.change (.inl rfl)) (toNat_sub_one hleft)
  | false =>
    rw [put_of_not_skip hskip]
    rcases stage_of_fits t.program.dataAddress h with ⟨word, t', hstage, hfits, hword⟩ | ⟨s, t', hstage, hfits⟩
    · have hcount := count_stage_ok hstage
      rw [bind_of_ok (orStop_of_ok hstage)]
      have hkept : ({ word with
          value := Memory.withByte word.value (offsetOf t.program.dataAddress) b
          dirty := true } : StagedWord).Fits extent := ⟨hword.aligned, hword.present⟩
      refine .moved (hfits.stagedAs hkept rfl) ?_
      show (t'.program.count - 1).toNat + 1 = _
      rw [hcount]
      exact toNat_sub_one hleft
    · rw [bind_of_error (orStop_of_error hstage)]
      exact .refused hfits (count_stage_error hstage)

/-- Go on to the next doubleword that has data, and there move a byte. -/
theorem counts_chained {x : Step TransferEnd α} (h : t.Fits extent)
    (hx : ∀ t' : Transfer, t'.Fits extent → t'.program.count ≠ 0 → Counts extent t'.program (x t')) :
    Counts extent (reached (t.program.chainData t.memory dataChainLimit)) (withData x t) := by
  have hstaged := staged_chainData t.memory dataChainLimit t.program
  cases hchain : t.program.chainData t.memory dataChainLimit with
  | error s p =>
    rw [hchain] at hstaged
    rw [withData_of_error (chainData_of_error hchain)]
    exact .refused (h.change hstaged) rfl
  | ok more p =>
    rw [hchain] at hstaged
    cases more with
    | false =>
      rw [withData_of_none (chainData_of_ok hchain)]
      exact .refused (h.change hstaged) rfl
    | true =>
      rw [withData_of_more (chainData_of_ok hchain)]
      exact hx ⟨p, t.memory⟩ (h.change hstaged) (count_of_chainData hchain)

theorem counts_readByte (h : t.Fits extent) : ∃ q, t.ComesTo q ∧ Counts extent q (readByte t) := by
  by_cases herror : t.program.status.hasError
  · have hread : readByte t = .error (.error t.program.status) t := congrFun (if_pos herror) t
    rw [hread]
    exact ⟨_, .stays, .refused h rfl⟩
  by_cases hended : t.program.phase = .ended
  · have hread : readByte t = .error .exhausted t :=
      (congrFun (if_neg herror) t).trans (congrFun (if_pos hended) t)
    rw [hread]
    exact ⟨_, .stays, .refused h rfl⟩
  · have hread := (congrFun (if_neg herror) t).trans (congrFun (if_neg hended) t) (a := readByte t)
    rw [hread]
    exact ⟨_, .chained (.inl rfl), counts_chained (x := take) h fun _ => counts_take⟩

theorem counts_writeByte (b : Byte) (h : t.Fits extent) : ∃ q, t.ComesTo q ∧ Counts extent q (writeByte b t) := by
  rcases accepting_cases _ t with ⟨-, p, e, hp, hrefused⟩ | ⟨-, haccepted⟩
  · have hwrite : writeByte b t = .error e ⟨p, t.memory⟩ := hrefused
    rw [hwrite]
    refine ⟨_, .stays, ?_⟩
    rcases hp with rfl | rfl
    · exact .refused h rfl
    · exact .refused (h.change (.inl rfl)) rfl
  by_cases hcount : t.program.count = 0
  · have hwrite : writeByte b t = _ := haccepted.trans (congrFun (if_pos hcount) t)
    obtain ⟨t', hflush, hfits, -⟩ := flush_of_fits h
    rw [hwrite, bind_of_ok (orStop_of_ok hflush)]
    exact ⟨_, .chained (.inr hflush), counts_chained (x := put b) hfits fun _ => counts_put⟩
  · have hwrite : writeByte b t = put b t := haccepted.trans (congrFun (if_neg hcount) t)
    rw [hwrite]
    exact ⟨_, .stays, counts_put h hcount⟩

/-! ### The end of a command -/

/-- How a command has ended: the channel says so, and an error stops the program. -/
structure HasEnded (p : ChannelProgram) : Prop where
  command : p.command = none
  channelEnd : p.status.contains .channelEnd = true
  atRest : p.status.hasError = true → p.AtRest

theorem hasEnded_ended (mem : Memory) (s : ChannelStatus) (p : ChannelProgram) : HasEnded (ended mem s p) := by
  -- The rest of the list is passed over after the command is given up.
  have hskipped : ∀ q : ChannelProgram, q.command = none → q.status.contains .channelEnd = true →
      HasEnded { q.skipChain mem dataChainLimit with
        flags := if (q.skipChain mem dataChainLimit).status.hasError then .none
          else (q.skipChain mem dataChainLimit).flags
        phase := .newCommand } := by
    intro q hcommand hend
    obtain ⟨hcommand', hend', -⟩ := skipChain_ends mem dataChainLimit hcommand hend
    exact ⟨hcommand', hend', fun herror => atRest_of hcommand' (if_pos herror)⟩
  have hend : (((p.addStatus .channelEnd).addStatus s).status).contains .channelEnd = true :=
    ChannelStatus.contains_union_of_left ChannelStatus.contains_union
  unfold ended
  refine hskipped _ ?_ ?_
  · dsimp only
    split <;> split <;> rfl
  · dsimp only
    split <;> split
    · exact ChannelStatus.contains_union_of_left hend
    · exact hend
    · exact ChannelStatus.contains_union_of_left hend
    · exact hend

/-- Writing the staged word back does not fail, so a command always comes to its end. -/
theorem endCommand_of_fits (s : ChannelStatus) (h : t.Fits extent) :
    ∃ t', endCommand s t = .ok () t' ∧ t'.Fits extent ∧ HasEnded t'.program := by
  obtain ⟨t', hflush, hfits, -⟩ := flush_of_fits h
  refine ⟨⟨ended t'.memory s t'.program, t'.memory⟩, ?_, ?_, hasEnded_ended _ _ _⟩
  · rw [endCommand, hflush]
  · exact hfits.change (.inr staged_ended)

/-! ### Services -/

theorem Counts.run {x : Step TransferEnd α} (h : Counts extent q (x t)) : Fits extent (x.run t).2 := by
  cases hstep : x t with
  | ok answer t' =>
    rw [hstep] at h
    rw [run_of_ok hstep]
    cases h with
    | moved hfits _ => exact hfits
  | error e t' =>
    rw [hstep] at h
    rw [run_of_error hstep]
    cases h with
    | refused hfits _ => exact hfits

theorem fits_isComplete (h : t.Fits extent) : Fits extent (isComplete.run t).2 := by
  by_cases hended : t.program.phase = .ended
  · rw [run_of_ok (show isComplete t = .ok true t from if_pos hended)]
    exact h
  by_cases hcount : t.program.count ≠ 0
  · have hroom : isComplete t = .ok false t := (if_neg hended).trans (if_pos hcount)
    rw [run_of_ok hroom]
    exact h
  · obtain ⟨t', hflush, hfits, -⟩ := flush_of_fits h
    have hcomplete := (if_neg hended).trans (if_neg hcount) (a := isComplete t)
    rw [hflush] at hcomplete
    dsimp only at hcomplete
    split at hcomplete
    · rw [run_of_ok hcomplete]
      exact hfits
    · rw [run_of_ok hcomplete]
      exact hfits.change (.inl rfl)

/-- Whatever a device does while it is serviced, the staged word is one of memory. -/
theorem keeps_fits : Connection.Keeps (Fits extent) where
  readByte t h := by
    obtain ⟨q, -, hcounts⟩ := counts_readByte h
    exact hcounts.run
  writeByte b t h := by
    obtain ⟨q, -, hcounts⟩ := counts_writeByte b h
    exact hcounts.run
  isComplete t := fits_isComplete
  endCommand s t h := by
    obtain ⟨t', hend, hfits, -⟩ := endCommand_of_fits s h
    rw [run_of_ok hend]
    exact hfits
  receive t device s h := by
    refine h.change (.inl ?_)
    unfold receive
    split <;> rfl

end Transfer
end Concept32
