import Concept32.Proofs.Channels.Buffering
import Concept32.Proofs.Channels.Rounds
import Concept32.Proofs.Channels.Skipping
import Concept32.Proofs.Recurrence

/-!
# When the data of a command run out

A console prints the bytes of its command until the channel has no more. Data chaining may lead back to a doubleword that
the command has used before: the list that follows is then the same again, and as long as memory has all of its bytes
they never run out. Any other list ends, for there are only so many places where it can go on.
-/

namespace Concept32

namespace ChannelProgram
open Progress
variable {mem : Memory} {p q : ChannelProgram} {limit n : Nat}

/-! ### The bytes of a list -/

/-- Where a list goes on behind a doubleword: the flags of the doubleword, and the place of the next. -/
structure ListPlace where
  flags : CommandFlags
  next : Address
  deriving DecidableEq

/-- The bytes that a doubleword has left. -/
structure DataBlock where
  first : Address
  count : Half
  /-- Where the list goes on behind them. -/
  place : ListPlace
  deriving DecidableEq

/-- The bytes that the current doubleword has left. -/
def block (p : ChannelProgram) : DataBlock := ⟨p.dataAddress, p.count, ⟨p.flags, p.modified.next⟩⟩

/-- A byte that is taken leaves the others of its doubleword. -/
theorem block_taken : block { p with dataAddress := p.dataAddress + 1, count := p.count - 1 } =
    ⟨p.block.first + 1, p.block.count - 1, p.block.place⟩ := by
  rw [block, block, next_modified, next_modified]

/-- The next doubleword with data, past at most `limit` doublewords with it. -/
def ListPlace.block? (mem : Memory) : (limit : Nat) → ListPlace → Option DataBlock
  | 0, _ => none
  | limit + 1, l =>
    if l.flags.contains .dataChain then
      match entryAt mem l.next true with
      | .given next e =>
        if e.count ≠ 0 then some ⟨e.dataAddress, e.count, ⟨e.flags, next⟩⟩ else block? mem limit ⟨e.flags, next⟩
      | _ => none
    else none

namespace DataBlock
variable {b b' : DataBlock} {l l' : ListPlace}

/-- Memory has all bytes of a doubleword. -/
def Present (mem : Memory) (b : DataBlock) : Prop :=
  ∀ i < b.count.toNat, (b.first + BitVec.ofNat 24 i).toNat / 4 < mem.words.size

instance : Decidable (b.Present mem) := inferInstanceAs (Decidable (∀ i < b.count.toNat, _))

/-- The doubleword of the next byte: the current one, or the next one that has data. -/
def current? (mem : Memory) (b : DataBlock) : Option DataBlock :=
  if b.count ≠ 0 then some b else b.place.block? mem dataChainLimit

/-- What is left when the next byte is taken, if there is one and memory has it. -/
def next? (mem : Memory) (b : DataBlock) : Option DataBlock :=
  (b.current? mem).bind fun b =>
    if b.first.toNat / 4 < mem.words.size then some ⟨b.first + 1, b.count - 1, b.place⟩ else none

end DataBlock

/-- Where the list goes on behind its next doubleword with data, if there is one and memory has its bytes. -/
def ListPlace.behind? (mem : Memory) (l : ListPlace) : Option ListPlace :=
  (l.block? mem dataChainLimit).bind fun b => if b.Present mem then some b.place else none

/-! ### Doubleword by doubleword -/

namespace DataBlock
variable {b b' : DataBlock} {l l' : ListPlace}

theorem present_of_empty (h : b.count = 0) : b.Present mem := by
  rw [Present, h]
  exact fun i hi => absurd hi (Nat.not_lt_zero i)

theorem present_iff (h : b.count ≠ 0) : b.Present mem ↔
    b.first.toNat / 4 < mem.words.size ∧ Present mem ⟨b.first + 1, b.count - 1, b.place⟩ := by
  have hcount : b.count.toNat = (b.count - 1).toNat + 1 := (toNat_sub_one h).symm
  have haddress : ∀ i, b.first + BitVec.ofNat 24 (i + 1) = b.first + 1 + BitVec.ofNat 24 i := by
    intro i
    rw [BitVec.add_assoc, BitVec.add_comm 1, BitVec.ofNat_add]
    rfl
  rw [Present, Present, hcount, Nat.forall_lt_succ_left, BitVec.add_zero]
  simp only [haddress]

theorem next?_of_count (h : b.count ≠ 0) : b.next? mem =
    if b.first.toNat / 4 < mem.words.size then some ⟨b.first + 1, b.count - 1, b.place⟩ else none := by
  rw [next?, current?, if_pos h]
  rfl

/-- The bytes of a doubleword are taken one after the other, if memory has them all. -/
theorem afterSteps?_count (mem : Memory) (b : DataBlock) :
    if b.Present mem then
      ∃ b', afterSteps? (next? mem) b.count.toNat b = some b' ∧ b'.count = 0 ∧ b'.place = b.place
    else afterSteps? (next? mem) b.count.toNat b = none := by
  induction hn : b.count.toNat generalizing b with
  | zero =>
    have hcount : b.count = 0 := BitVec.eq_of_toNat_eq hn
    rw [if_pos (present_of_empty hcount)]
    exact ⟨b, rfl, hcount, rfl⟩
  | succ n ih =>
    have hcount : b.count ≠ 0 := fun h => by
      rw [h] at hn
      cases hn
    have hrest : (b.count - 1).toNat = n := Nat.succ.inj ((toNat_sub_one hcount).trans hn)
    have hleft := ih ⟨b.first + 1, b.count - 1, b.place⟩ hrest
    simp only [present_iff hcount, afterSteps?, next?_of_count hcount]
    by_cases hfirst : b.first.toNat / 4 < mem.words.size
    · simpa only [hfirst, true_and, if_true, Option.bind_some] using hleft
    · simp only [hfirst, false_and, if_false, Option.bind_none]

/-- From the end of a doubleword on, the bytes are those of the next one that has data. -/
theorem next?_of_empty (h : b.count = 0) (hblock : b.place.block? mem dataChainLimit = some b') (hcount : b'.count ≠ 0) :
    b.next? mem = b'.next? mem := by
  rw [next?, next?, current?, current?, if_neg (not_not.mpr h), if_pos hcount, hblock]

end DataBlock

namespace ListPlace
variable {b : DataBlock} {l l' : ListPlace}

theorem count_of_block? (h : l.block? mem limit = some b) : b.count ≠ 0 := by
  induction limit generalizing l with
  | zero => cases h
  | succ limit ih =>
    rw [block?] at h
    split at h
    · split at h
      · split at h
        · next hcount =>
          cases h
          exact hcount
        · exact ih h
      · cases h
    · cases h

/-- The flags of a doubleword are right before the place where the list goes on. -/
theorem flags_of_block? (h : l.block? mem limit = some b) :
    ∃ word2, wordAt? mem (b.place.next - 4) = some word2 ∧ b.place.flags = ⟨word2.extractLsb' 16 16⟩ := by
  induction limit generalizing l with
  | zero => cases h
  | succ limit ih =>
    rw [block?] at h
    split at h
    · split at h
      · next next e hentry =>
        split at h
        · cases h
          unfold entryAt at hentry
          split at hentry
          · cases hentry
          · next a word1 hplace =>
            split at hentry
            · cases hentry
            · next word2 hword2 =>
              split at hentry
              · cases hentry
                refine ⟨word2, ?_, rfl⟩
                have hbefore : a + 8 - 4 = a + 4 := by bv_omega
                rw [hbefore]
                exact hword2
              · cases hentry
        · exact ih h
      · cases h
    · cases h

/-- A list goes on from one place in one way, whatever led there. -/
theorem eq_of_behind? {l₁ l₂ l₁' l₂' : ListPlace} (h₁ : l₁.behind? mem = some l₁') (h₂ : l₂.behind? mem = some l₂')
    (hnext : l₁'.next = l₂'.next) : l₁' = l₂' := by
  have hflags : ∀ {l l' : ListPlace}, l.behind? mem = some l' →
      ∃ word2, wordAt? mem (l'.next - 4) = some word2 ∧ l'.flags = ⟨word2.extractLsb' 16 16⟩ := by
    intro l l' h
    obtain ⟨b, hblock, hplace⟩ := Option.bind_eq_some_iff.mp h
    split at hplace
    · cases hplace
      exact flags_of_block? hblock
    · cases hplace
  obtain ⟨word₁, hword₁, hflags₁⟩ := hflags h₁
  obtain ⟨word₂, hword₂, hflags₂⟩ := hflags h₂
  rw [hnext, hword₂] at hword₁
  cases hword₁
  obtain ⟨flags₁, next₁⟩ := l₁'
  obtain ⟨flags₂, next₂⟩ := l₂'
  exact congr (congrArg mk (hflags₁.trans hflags₂.symm)) hnext

/-- A list that goes on long enough comes back. -/
theorem recurs_of_isSome (h : (afterSteps? (behind? mem) (2 ^ 24 + 1) l).isSome) : Recurs (behind? mem) l :=
  .of_isSome (fun l => l.next.toFin) (fun _ _ _ _ h₁ h₂ hkey => eq_of_behind? h₁ h₂ (BitVec.eq_of_toFin_eq hkey)) h

end ListPlace

namespace DataBlock
variable {b b' : DataBlock} {l l' : ListPlace}

/-- A doubleword has no bytes left, and the list goes on at a place. -/
structure Spent (b : DataBlock) (l : ListPlace) : Prop where
  count : b.count = 0
  place : b.place = l

/-- The bytes of one more doubleword can be taken if it is there and memory has them. -/
theorem Spent.afterSteps?_behind (mem : Memory) (h : b.Spent l) : match l.behind? mem with
    | some l' => ∃ n b', 0 < n ∧ n ≤ 0xFFFF ∧ afterSteps? (next? mem) n b = some b' ∧ b'.Spent l'
    | none => afterSteps? (next? mem) 0xFFFF b = none := by
  obtain ⟨hcount, rfl⟩ := h
  rw [ListPlace.behind?]
  cases hblock : b.place.block? mem dataChainLimit with
  | none =>
    have hlast : b.next? mem = none := by
      rw [next?, current?, if_neg (not_not.mpr hcount), hblock]
      rfl
    rw [Option.bind_none]
    dsimp only
    rw [afterSteps?, hlast]
    rfl
  | some d =>
    have hd := ListPlace.count_of_block? hblock
    have hpositive : 0 < d.count.toNat := Nat.pos_of_ne_zero fun hzero => hd (BitVec.eq_of_toNat_eq hzero)
    have hbound : d.count.toNat ≤ 0xFFFF := Nat.le_of_lt_succ d.count.isLt
    -- The first byte is the first of the next doubleword, and so are the bytes after it.
    have hsame : ∀ n, 0 < n → afterSteps? (next? mem) n b = afterSteps? (next? mem) n d := by
      intro n hn
      obtain ⟨n, rfl⟩ := Nat.exists_eq_succ_of_ne_zero hn.ne'
      rw [afterSteps?, afterSteps?, next?_of_empty hcount hblock hd]
    have htaken := afterSteps?_count mem d
    rw [← hsame _ hpositive] at htaken
    rw [Option.bind_some]
    split at htaken
    · next hpresent =>
      obtain ⟨b', hafter, hempty, hplace⟩ := htaken
      rw [if_pos hpresent]
      exact ⟨_, b', hpositive, hbound, hafter, hempty, hplace⟩
    · next habsent =>
      rw [if_neg habsent]
      exact afterSteps?_eq_none_of_le hbound htaken

/-- A list that goes on for `n` doublewords has at least as many bytes. -/
theorem Spent.exists_afterSteps? (h : b.Spent l) (hl : afterSteps? (ListPlace.behind? mem) n l = some l') :
    ∃ m b', n ≤ m ∧ afterSteps? (next? mem) m b = some b' ∧ b'.Spent l' := by
  induction n generalizing b l with
  | zero =>
    cases hl
    exact ⟨0, b, Nat.le_refl 0, rfl, h⟩
  | succ n ih =>
    rw [afterSteps?] at hl
    have hbehind := h.afterSteps?_behind mem
    cases hplace : l.behind? mem with
    | none =>
      rw [hplace] at hl
      cases hl
    | some l₁ =>
      rw [hplace] at hl hbehind
      obtain ⟨k, b₁, hk, -, hafter, hspent⟩ := hbehind
      obtain ⟨m, b', hm, hrest, hspent'⟩ := ih hspent hl
      refine ⟨k + m, b', by omega, ?_, hspent'⟩
      rw [afterSteps?_add, hafter]
      exact hrest

/-- A list that ends within `n` doublewords has at most as many bytes as they can have. -/
theorem Spent.afterSteps?_eq_none (h : b.Spent l) (hl : afterSteps? (ListPlace.behind? mem) n l = none) :
    afterSteps? (next? mem) (n * 0xFFFF) b = none := by
  induction n generalizing b l with
  | zero => cases hl
  | succ n ih =>
    rw [afterSteps?] at hl
    have hbehind := h.afterSteps?_behind mem
    cases hplace : l.behind? mem with
    | none =>
      rw [hplace] at hbehind
      exact afterSteps?_eq_none_of_le (by omega) hbehind
    | some l₁ =>
      rw [hplace] at hl hbehind
      obtain ⟨k, b₁, -, hk, hafter, hspent⟩ := hbehind
      have hrest : afterSteps? (next? mem) (k + n * 0xFFFF) b = none := by
        rw [afterSteps?_add, hafter]
        exact ih hspent hl
      exact afterSteps?_eq_none_of_le (by omega) hrest

end DataBlock

/-! ### A program that moves bytes -/

/-- The program can go on: nothing has gone wrong, and its command has not ended. -/
structure Moving (p : ChannelProgram) : Prop where
  clean : p.status.hasError = false
  phase : p.phase ≠ .ended

/-- From the end of a doubleword data chaining leads to the next one that has data. -/
theorem chainData_of_empty (limit : Nat) (hmoving : p.Moving) (hcount : p.count = 0) :
    match p.block.place.block? mem limit with
    | some b => ∃ q, chainData mem limit p = .ok true q ∧ q.Moving ∧ q.block = b
    | none => (∃ q, chainData mem limit p = .ok false q) ∨ ∃ s q, chainData mem limit p = .error s q := by
  induction limit generalizing p with
  | zero =>
    rw [ListPlace.block?, chainData, if_neg (not_not.mpr hcount)]
    dsimp only
    split
    · exact .inl ⟨p, rfl⟩
    · exact .inr ⟨_, _, rfl⟩
  | succ limit ih =>
    rw [ListPlace.block?, chainData, if_neg (not_not.mpr hcount), block]
    cases hchain : p.flags.contains .dataChain with
    | false => exact .inl ⟨p, rfl⟩
    | true =>
      have hfetch := fetch_of_chained mem hmoving.clean hchain
      rw [if_pos rfl, Bool.not_true, if_neg Bool.false_ne_true]
      obtain ⟨next, e, hentry⟩ | ⟨next, hentry⟩ := entryAt_cases mem p.modified.next true
      · rw [hentry] at hfetch ⊢
        obtain ⟨q, hfetch, hcontinued⟩ := hfetch
        have hgoes : q.Moving := ⟨hcontinued.clean, fun hended => by cases hcontinued.phase.symm.trans hended⟩
        have hblock : q.block = ⟨e.dataAddress, e.count, ⟨e.flags, next⟩⟩ := by
          rw [block, modified_of_plain hcontinued.plain, hcontinued.dataAddress, hcontinued.count, hcontinued.flags,
            hcontinued.next]
        rw [hfetch]
        dsimp only
        by_cases hdata : e.count = 0
        · rw [if_neg (not_not.mpr hdata)]
          have hrest := ih hgoes (hcontinued.count.trans hdata)
          rw [hblock] at hrest
          exact hrest
        · rw [if_pos hdata, chainData.eq_def, if_pos (hcontinued.count ▸ hdata)]
          exact ⟨q, rfl, hgoes, hblock⟩
      · rw [hentry] at hfetch ⊢
        obtain ⟨s, q, hfetch, -⟩ := hfetch
        rw [hfetch]
        exact .inr ⟨s, q, rfl⟩

theorem chainData_of_moving (mem : Memory) (hmoving : p.Moving) :
    match p.block.current? mem with
    | some b => ∃ q, chainData mem dataChainLimit p = .ok true q ∧ q.Moving ∧ q.block = b
    | none => (∃ q, chainData mem dataChainLimit p = .ok false q) ∨ ∃ s q, chainData mem dataChainLimit p = .error s q := by
  by_cases hcount : p.block.count = 0
  · rw [DataBlock.current?, if_neg (not_not.mpr hcount)]
    exact chainData_of_empty dataChainLimit hmoving hcount
  · rw [DataBlock.current?, if_pos hcount, chainData.eq_def, if_pos (show p.count ≠ 0 from hcount)]
    exact ⟨p, rfl, hmoving, rfl⟩

end ChannelProgram

namespace Transfer
open EStateM ChannelProgram
variable {mem : Memory} {t t' r : Transfer} {b : DataBlock} {n : Nat}

/-! ### Bytes that are read -/

/-- The transfer stands at a doubleword. -/
structure At (mem : Memory) (b : DataBlock) (r : Transfer) : Prop where
  memory : r.memory = mem
  moving : r.program.Moving
  block : r.program.block = b

theorem readDirect_of_moving (h : r.program.Moving) : readDirect r = withData takeDirect r := by
  refine (congrFun (if_neg ?_) r).trans (congrFun (if_neg h.phase) r)
  rw [h.clean]
  exact Bool.false_ne_true

/-- A byte is read if there is a next one and memory has it. -/
theorem readDirect_of_at (h : At mem b r) : match b.next? mem with
    | some b' => ∃ byte r', readDirect r = .ok byte r' ∧ At mem b' r'
    | none => ∃ e r', readDirect r = .error e r' := by
  obtain ⟨rfl, hmoving, rfl⟩ := h
  have hchain := chainData_of_moving r.memory hmoving
  rw [readDirect_of_moving hmoving, DataBlock.next?]
  cases hcurrent : r.program.block.current? r.memory with
  | none =>
    rw [hcurrent] at hchain
    rcases hchain with ⟨q, hchain⟩ | ⟨s, q, hchain⟩
    · rw [withData_of_none (chainData_of_ok hchain)]
      exact ⟨_, _, rfl⟩
    · rw [withData_of_error (chainData_of_error hchain)]
      exact ⟨_, _, rfl⟩
  | some d =>
    rw [hcurrent] at hchain
    obtain ⟨q, hchain, hgoes, rfl⟩ := hchain
    rw [withData_of_more (chainData_of_ok hchain), Option.bind_some]
    by_cases hpresent : q.block.first.toNat / 4 < r.memory.words.size
    · rw [if_pos hpresent]
      have hload := loadByte_of_lt (r := ⟨q, r.memory⟩) hpresent
      have hafter : At r.memory ⟨q.block.first + 1, q.block.count - 1, q.block.place⟩
          ⟨{ q with dataAddress := q.dataAddress + 1, count := q.count - 1 }, r.memory⟩ :=
        ⟨rfl, ⟨hgoes.clean, hgoes.phase⟩, block_taken⟩
      exact ⟨_, _, (bind_of_ok rfl).trans (bind_of_ok (orStop_of_ok hload)), hafter⟩
    · rw [if_neg hpresent]
      have hload := (loadByte_of_not_lt (r := ⟨q, r.memory⟩) hpresent).trans failMemory_eq
      exact ⟨_, _, (bind_of_ok rfl).trans (bind_of_error (orStop_of_error hload))⟩

/-- The transfer after the next byte is read, if it can be. -/
def afterByte? (t : Transfer) : Option Transfer :=
  match readByte t with
  | .ok _ t' => some t'
  | .error _ _ => none

/-- With a staged word the bytes are the same as without. -/
theorem isSome_afterSteps?_afterByte? (hat : At mem b t) (hstaged : t.program.staged = none) (n : Nat) :
    (afterSteps? afterByte? n t).isSome ↔ (afterSteps? (DataBlock.next? mem) n b).isSome := by
  refine isSome_afterSteps?_iff (R := fun t b => ∃ r, Clean t r ∧ At mem b r) ?_ ?_ n
  · rintro t b ⟨r, hclean, hat⟩
    have hread := simulates_readByte t r hclean
    have hdirect := readDirect_of_at hat
    rw [afterByte?]
    cases hnext : b.next? mem with
    | none =>
      rw [hnext] at hdirect
      obtain ⟨e, r', hdirect⟩ := hdirect
      rw [hdirect] at hread
      generalize readByte t = result at hread
      cases hread
      trivial
    | some b' =>
      rw [hnext] at hdirect
      obtain ⟨byte, r', hdirect, hat'⟩ := hdirect
      rw [hdirect] at hread
      generalize readByte t = result at hread
      cases hread with
      | ok _ hclean' => exact ⟨r', hclean', hat'⟩
  · have hunstaged : t.program.unstaged = t.program := by rw [unstaged, ← hstaged]
    exact ⟨t, .of_none hunstaged.symm rfl hstaged, hat⟩

/-- The data chain of a command comes back: after the bytes of the current doubleword the list goes on from a place to
which it leads again, and memory has the bytes of all doublewords on the way. -/
structure ComesBack (t : Transfer) : Prop where
  moving : t.program.Moving
  present : t.program.block.Present t.memory
  recurs : Recurs (ListPlace.behind? t.memory) t.program.block.place

/-- The bytes of the current doubleword come first. -/
theorem spent_of_present (h : b.Present mem) :
    ∃ b', afterSteps? (DataBlock.next? mem) b.count.toNat b = some b' ∧ b'.Spent b.place := by
  have htaken := DataBlock.afterSteps?_count mem b
  rw [if_pos h] at htaken
  obtain ⟨b', hafter, hcount, hplace⟩ := htaken
  exact ⟨b', hafter, hcount, hplace⟩

/-- A list that comes back has bytes without end. -/
theorem ComesBack.isSome (h : t.ComesBack) (hstaged : t.program.staged = none) (n : Nat) :
    (afterSteps? afterByte? n t).isSome := by
  rw [isSome_afterSteps?_afterByte? ⟨rfl, h.moving, rfl⟩ hstaged]
  obtain ⟨b', hafter, hspent⟩ := spent_of_present h.present
  obtain ⟨l', hl'⟩ := Option.isSome_iff_exists.mp (h.recurs.isSome n)
  obtain ⟨m, b'', hm, hrest, -⟩ := hspent.exists_afterSteps? hl'
  have hlast : afterSteps? (DataBlock.next? t.memory) (t.program.block.count.toNat + m) t.program.block = some b'' := by
    rw [afterSteps?_add, hafter]
    exact hrest
  rw [← Option.ne_none_iff_isSome]
  intro hnone
  cases hlast.symm.trans (afterSteps?_eq_none_of_le (by omega) hnone)

/-- A list that ends within `n` doublewords ends within as many bytes as they can have. -/
theorem afterSteps?_block_eq_none (hlast : afterSteps? (ListPlace.behind? mem) n b.place = none) :
    afterSteps? (DataBlock.next? mem) ((n + 1) * 0xFFFF) b = none := by
  have hcount : b.count.toNat ≤ 0xFFFF := Nat.le_of_lt_succ b.count.isLt
  by_cases hpresent : b.Present mem
  · obtain ⟨b', hafter, hspent⟩ := spent_of_present hpresent
    have hnone : afterSteps? (DataBlock.next? mem) (b.count.toNat + n * 0xFFFF) b = none := by
      rw [afterSteps?_add, hafter]
      exact hspent.afterSteps?_eq_none hlast
    exact afterSteps?_eq_none_of_le (by omega) hnone
  · have hnone := DataBlock.afterSteps?_count mem b
    rw [if_neg hpresent] at hnone
    exact afterSteps?_eq_none_of_le (by omega) hnone

/-- A program that has failed or has ended gives no byte. -/
theorem afterByte?_of_not_moving (h : ¬t.program.Moving) : afterByte? t = none := by
  have hstop : ∃ e, readByte t = .error e t := by
    by_cases herror : t.program.status.hasError
    · exact ⟨_, congrFun (if_pos herror) t⟩
    · have hended : t.program.phase = .ended := by
        by_contra hphase
        exact h ⟨by simpa using herror, hphase⟩
      exact ⟨_, (congrFun (if_neg herror) t).trans (congrFun (if_pos hended) t)⟩
  obtain ⟨e, hstop⟩ := hstop
  rw [afterByte?, hstop]

/-- A list that does not come back has no more bytes than its places can have. -/
theorem afterSteps?_of_not_comesBack (h : ¬t.ComesBack) (hstaged : t.program.staged = none) :
    afterSteps? afterByte? Console.byteLimit t = none := by
  by_cases hmoving : t.program.Moving
  · by_cases hlast : afterSteps? (ListPlace.behind? t.memory) (2 ^ 24 + 1) t.program.block.place = none
    · have hnone := afterSteps?_block_eq_none hlast
      rw [← Option.not_isSome_iff_eq_none, ← isSome_afterSteps?_afterByte? ⟨rfl, hmoving, rfl⟩ hstaged,
        Option.not_isSome_iff_eq_none] at hnone
      exact afterSteps?_eq_none_of_le (by decide) hnone
    · have hrecurs := ListPlace.recurs_of_isSome (Option.ne_none_iff_isSome.mp hlast)
      have habsent : ¬t.program.block.Present t.memory := fun hpresent => h ⟨hmoving, hpresent, hrecurs⟩
      have hnone := DataBlock.afterSteps?_count t.memory t.program.block
      rw [if_neg habsent, ← Option.not_isSome_iff_eq_none, ← isSome_afterSteps?_afterByte? ⟨rfl, hmoving, rfl⟩ hstaged,
        Option.not_isSome_iff_eq_none] at hnone
      exact afterSteps?_eq_none_of_le (le_trans (Nat.le_of_lt t.program.block.count.isLt) (by decide)) hnone
  · have hfirst : afterSteps? afterByte? 1 t = none := by
      rw [afterSteps?, afterByte?_of_not_moving hmoving]
      rfl
    exact afterSteps?_eq_none_of_le (by decide) hfirst

end Transfer

/-! ### Output of a console -/

namespace Console
open Channels ChannelProgram Transfer
variable {ω : Type} {t : Transfer}

/-- A service that takes bytes as long as there are some is cut off by its limit, or has come to their end. -/
theorem run_readBytes (limit : Nat) (taken : Array Byte) (connection : Connection) (output : Array ω) :
    (connection.run (Service.readBytes limit taken) output).1.2 = none ↔
      (afterSteps? afterByte? limit connection.transfer).isSome := by
  induction limit generalizing taken connection output with
  | zero => exact ⟨fun _ => rfl, fun _ => rfl⟩
  | succ limit ih =>
    obtain ⟨address, t, channel, raised⟩ := connection
    rw [Service.readBytes, Connection.run, afterSteps?, afterByte?, Connection.readByte, Connection.transferStep]
    cases readByte t with
    | ok byte t' => exact ih (taken.push byte) ⟨address, t', channel, raised⟩ output
    | error e t' =>
      refine iff_of_false (fun h => ?_) Bool.false_ne_true
      cases h

/-- A console has been given a command of a list. The bytes of the command run out exactly if its data chain does not come
back, and they then run out within the limit of the console: it is cut off only if it would print for ever. -/
theorem output_ends_iff {δ : Type} [Peripheral δ ω] {c : Channels δ ω} {now : Nat} {mem : Memory} {a : DeviceAddress}
    {allowed : Bool} {p : ChannelProgram} (hgiven : (c.continueProgram now mem a allowed).1 = .ok ())
    (hp : (c.continueProgram now mem a allowed).2.program? a = some p) (mem' : Memory) :
    ((∃ n, afterSteps? afterByte? n ⟨p, mem'⟩ = none) ↔ ¬ComesBack ⟨p, mem'⟩) ∧
      ∀ (connection : Connection) (output : Array Char), connection.transfer = ⟨p, mem'⟩ →
        ((connection.run (Service.readBytes byteLimit #[]) output).1.2 = none ↔ ComesBack ⟨p, mem'⟩) := by
  have hstaged : (⟨p, mem'⟩ : Transfer).program.staged = none := staged_continueProgram hgiven hp
  have hends : ¬ComesBack ⟨p, mem'⟩ → afterSteps? afterByte? byteLimit ⟨p, mem'⟩ = none := fun h =>
    afterSteps?_of_not_comesBack h hstaged
  refine ⟨⟨?_, fun h => ⟨byteLimit, hends h⟩⟩, fun connection output hconnection => ?_⟩
  · rintro ⟨n, hnone⟩ hback
    have hsome := hback.isSome hstaged n
    rw [hnone] at hsome
    cases hsome
  · rw [run_readBytes, hconnection]
    refine ⟨fun hsome => ?_, fun hback => hback.isSome hstaged byteLimit⟩
    by_contra h
    rw [hends h] at hsome
    cases hsome

/-- A console that is about to begin a list at address 0. -/
def ready : Channels Console Char := attached.modifyProgram address fun _ => started address 0

/-- The console has been given a command with the four bytes at 20. -/
def given (flags : CommandFlags) : ChannelProgram :=
  { started address 0 with
    next := 8
    dataAddress := 0x20
    count := 4
    flags := flags
    command := some 0x01#8
    phase := .active }

/-- Four bytes that no others are chained to are printed. -/
theorem output_ends_list : (ready.continueProgram 0 list address false).1 = .ok () ∧
    (ready.continueProgram 0 list address false).2.program? address = some (given .commandChain) ∧
      ¬ComesBack ⟨given .commandChain, list⟩ := by
  have hgiven : (ready.continueProgram 0 list address false).1 = .ok () := rfl
  have hp : (ready.continueProgram 0 list address false).2.program? address = some (given .commandChain) := by
    decide +kernel
  exact ⟨hgiven, hp, (output_ends_iff hgiven hp list).1.mp ⟨5, by decide +kernel⟩⟩

/-- A list that writes four bytes, and whose data chain goes back to the beginning. -/
def circularList : Memory :=
  ⟨#[0x01000020, 0x80000004, 0x08000000, 0x00000000, 0x00000000, 0x00000000, 0x00000000, 0x00000000, 0x41424344],
    by decide⟩

/-- The console can take bytes of the list without end. -/
theorem output_never_ends : (attached.startIo 0 circularList address 0).1 = .accepted ∧
    (attached.startIo 0 circularList address 0).2.1.program? address = some (given .dataChain) ∧
      ∀ n, (afterSteps? afterByte? n ⟨given .dataChain, circularList⟩).isSome := by
  have hback : ComesBack ⟨given .dataChain, circularList⟩ :=
    ⟨⟨rfl, by decide⟩, by decide +kernel, 0, 1, Nat.zero_lt_one, rfl, by decide +kernel⟩
  exact ⟨by decide +kernel, by decide +kernel, hback.isSome rfl⟩

end Console
end Concept32
