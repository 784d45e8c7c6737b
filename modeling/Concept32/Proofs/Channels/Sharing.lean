import Concept32.Proofs.Channels.Neighbours
import Concept32.Proofs.Channels.Operations
import Concept32.Proofs.Channels.Tracking

/-!
# Devices that share a word

Devices put bytes into memory through words that their programs keep, while other devices and the processor store
beside them. Nothing is lost as long as nobody stores into a word that another device is still to write back.
-/

namespace Concept32

/-- Devices that only put data into memory. -/
def Peripheral.TakesIn (δ : Type) {ω : Type} [Peripheral δ ω] : Prop :=
  ∀ (d : δ) (now : Nat), (Peripheral.service d now).TakesIn

/-! ### Stores of the processor -/

namespace Memory
variable {m : Memory} {a : Word} {b : Byte} {h : Half} {n : Nat}

def byteStores (m : Memory) (a : Word) (b : Byte) : List ByteStore :=
  if a.toNat / 4 < m.words.size then [(a.toNat, b)] else []

def halfStores (m : Memory) (a : Word) (h : Half) : List ByteStore :=
  if a.toNat % 2 = 0 ∧ a.toNat / 4 < m.words.size then
    [(a.toNat, h.extractLsb' 8 8), (a.toNat + 1, h.extractLsb' 0 8)]
  else []

theorem byteAt_after_writeByte : (m.after (writeByte a b)).byteAt n = overwritten m.byteAt (m.byteStores a b) n := by
  rw [writeByte, after_change, byteStores]
  by_cases hpresent : a.toNat / 4 < m.words.size
  · rw [if_pos ⟨Nat.mod_one _, hpresent⟩, if_pos hpresent, byteAt_update]
    show _ = Function.update m.byteAt a.toNat b n
    by_cases hn : n = a.toNat
    · rw [hn, if_pos ⟨rfl, hpresent⟩, Function.update_self, byteOf_withByte_self (Nat.mod_lt _ (by decide))]
    · rw [Function.update_of_ne hn]
      split
      · next hword =>
        rw [byteOf_withByte_of_ne (Nat.mod_lt _ (by decide)) (Nat.mod_lt _ (by decide)) (by omega), byteAt, hword.1]
        rfl
      · rfl
  · rw [if_neg fun h => hpresent h.2, if_neg hpresent]
    rfl

theorem byteAt_after_writeHalf : (m.after (writeHalf a h)).byteAt n = overwritten m.byteAt (m.halfStores a h) n := by
  rw [writeHalf, after_change, halfStores]
  by_cases hin : a.toNat % 2 = 0 ∧ a.toNat / 4 < m.words.size
  · obtain ⟨heven, hpresent⟩ := hin
    have hplace : a.toNat % 4 ≤ 2 := by omega
    obtain ⟨hhigh, hlow⟩ := byteOf_withHalf_self (w := m.wordAt (a.toNat / 4)) (h := h) hplace
    rw [if_pos ⟨heven, hpresent⟩, if_pos ⟨heven, hpresent⟩, byteAt_update]
    show _ = Function.update (Function.update m.byteAt a.toNat _) (a.toNat + 1) _ n
    by_cases hsecond : n = a.toNat + 1
    · have hword : (a.toNat + 1) / 4 = a.toNat / 4 := by omega
      have hnext : (a.toNat + 1) % 4 = a.toNat % 4 + 1 := by omega
      rw [hsecond, if_pos ⟨hword, hpresent⟩, Function.update_self, hnext, hlow]
    rw [Function.update_of_ne hsecond]
    by_cases hfirst : n = a.toNat
    · rw [hfirst, if_pos ⟨rfl, hpresent⟩, Function.update_self, hhigh]
    rw [Function.update_of_ne hfirst]
    split
    · next hword =>
      rw [byteOf_withHalf_of_ne (Nat.mod_lt _ (by decide)) hplace (by omega) (by omega), byteAt, hword.1]
      rfl
    · rfl
  · rw [if_neg hin, if_neg hin]
    rfl

end Memory

/-! ### Services -/

namespace Channels
open ChannelProgram
variable {δ ω : Type} {c : Channels δ ω} {mem mem' : Memory} {s : WithMemory δ ω} {a d : DeviceAddress} {now : Nat}
  {bytes : Nat → Byte} {extent : Nat} {stores : List ByteStore} {p : ChannelProgram}

/-- The number of the word in memory that a device is to write back. -/
def holds? (c : Channels δ ω) (d : DeviceAddress) : Option Nat := (c.program? d).bind ChannelProgram.holds?

/-- Memory has every byte, but for the words that devices are to write back, which have their bytes themselves. -/
structure Tracks (bytes : Nat → Byte) (extent : Nat) (s : WithMemory δ ω) : Prop where
  size : s.2.words.size = extent
  memory : ∀ n, (∀ d, s.1.holds? d ≠ some (n / 4)) → s.2.byteAt n = bytes n
  word : ∀ d p, s.1.program? d = some p → ∀ word, p.unwritten? = some word → word.Accurate bytes extent
  settled : ∀ d p, s.1.program? d = some p → p.Settled

theorem accurate_overwritten {word : StagedWord} (h : word.Accurate bytes extent)
    (hbeside : ∀ e ∈ stores, word.address.toNat / 4 ≠ e.1 / 4) : word.Accurate (overwritten bytes stores) extent where
  aligned := h.aligned
  present := h.present
  value n hn := by
    rw [h.value n hn, overwritten_of_untouched]
    intro e he heq
    exact hbeside e he (by rw [heq, hn])

def HeldBeside (c : Channels δ ω) (a : DeviceAddress) (i : Nat) : Prop := ∃ d, d ≠ a ∧ c.holds? d = some i

theorem Tracks.transfer (h : Tracks bytes extent (c, mem)) (hp : c.program? a = some p) :
    Transfer.Tracks bytes extent (c.HeldBeside a) ⟨p, mem⟩ where
  size := h.size
  memory n hbeside hown := h.memory n fun d hd => by
    by_cases hda : d = a
    · rw [hda, holds?, hp] at hd
      exact hown hd
    · exact hbeside ⟨d, hda, hd⟩
  word := h.word a p hp

variable [Peripheral δ ω]

def serviceStores (c : Channels δ ω) (now : Nat) (mem : Memory) (a : DeviceAddress) : List ByteStore :=
  match c.get? a with
  | none => []
  | some s =>
    Connection.stores (Peripheral.service s.device now) ⟨a, ⟨s.program, mem⟩, c.channel a.channel, c.raised⟩

theorem tracks_serviceDevice (hin : Peripheral.TakesIn δ) (h : Tracks bytes extent (c, mem))
    (hfree : ∀ e ∈ c.serviceStores now mem a, ∀ d, d ≠ a → c.holds? d ≠ some (e.1 / 4)) :
    Tracks (overwritten bytes (c.serviceStores now mem a)) extent (c.serviceDevice now mem a) := by
  unfold serviceStores at hfree ⊢
  cases hs : c.get? a with
  | none =>
    rw [serviceDevice, hs]
    exact h
  | some s =>
    rw [hs] at hfree
    dsimp only at hfree ⊢
    have hp : c.program? a = some s.program := by rw [program?, hs]; rfl
    obtain ⟨t, ht, hprogram, hmemory⟩ := serviceDevice_self now mem hs
    obtain ⟨htracks, hsettled⟩ := Connection.tracks_run (Peripheral.service s.device now)
      (c := ⟨a, ⟨s.program, mem⟩, c.channel a.channel, c.raised⟩) c.output (hin s.device now) (h.transfer hp)
      (h.settled a s.program hp) fun e he hbeside => Exists.elim hbeside fun d hd => hfree e he d hd.1 hd.2
    rw [← ht] at htracks hsettled
    have hothers : ∀ d, d ≠ a → (c.serviceDevice now mem a).1.program? d = c.program? d := fun d hd =>
      (spares_serviceDevice now mem hd.symm).program?
    refine ⟨?_, fun n hn => ?_, fun d p hp' word hword => ?_, fun d p hp' => ?_⟩
    · rw [hmemory]
      exact htracks.size
    -- A word that no device holds is held neither beside this one nor by it.
    · rw [hmemory]
      refine htracks.memory n ?_ ?_
      · rintro ⟨d, hd, hheld⟩
        refine hn d ?_
        rw [holds?, hothers d hd]
        exact hheld
      · have hself := hn a
        rw [holds?, hprogram] at hself
        exact hself
    · by_cases hd : d = a
      · rw [hd, hprogram] at hp'
        cases hp'
        exact htracks.word word hword
      · rw [hothers d hd] at hp'
        refine accurate_overwritten (h.word d p hp' word hword) fun e he heq => hfree e he d hd ?_
        rw [holds?, hp', Option.bind_some, ChannelProgram.holds?, hword, ← heq]
        rfl
    · by_cases hd : d = a
      · rw [hd, hprogram] at hp'
        cases hp'
        exact hsettled
      · rw [hothers d hd] at hp'
        exact h.settled d p hp'

omit [Peripheral δ ω] in
theorem tracks_store (h : Tracks bytes extent (c, mem)) (hsize : mem'.words.size = mem.words.size)
    (hstores : ∀ n, mem'.byteAt n = overwritten mem.byteAt stores n)
    (hfree : ∀ e ∈ stores, ∀ d, c.holds? d ≠ some (e.1 / 4)) : Tracks (overwritten bytes stores) extent (c, mem') where
  size := hsize.trans h.size
  memory n hn := (hstores n).trans (overwritten_congr (h.memory n hn))
  word d p hp word hword := accurate_overwritten (h.word d p hp word hword) fun e he heq => hfree e he d (by
    show c.holds? d = _
    rw [holds?, show c.program? d = some p from hp, Option.bind_some, ChannelProgram.holds?, hword, ← heq]
    rfl)
  settled := h.settled

end Channels

/-! ### Turns -/

/-- A device is serviced, or the processor stores. -/
inductive Turn where
  | service (now : Nat) (a : DeviceAddress)
  | storeByte (a : Word) (b : Byte)
  | storeHalf (a : Word) (h : Half)

namespace Turn
open Channels
variable {δ ω : Type} [Peripheral δ ω] {s : WithMemory δ ω} {turn : Turn} {turns : List Turn} {bytes : Nat → Byte}
  {extent : Nat}

def take (s : WithMemory δ ω) : Turn → WithMemory δ ω
  | service now a => s.1.serviceDevice now s.2 a
  | storeByte a b => (s.1, s.2.after (Memory.writeByte a b))
  | storeHalf a h => (s.1, s.2.after (Memory.writeHalf a h))

def takeAll (s : WithMemory δ ω) (turns : List Turn) : WithMemory δ ω := turns.foldl take s

def party : Turn → Option DeviceAddress
  | service _ a => some a
  | _ => none

def stores (s : WithMemory δ ω) : Turn → List ByteStore
  | service now a => s.1.serviceStores now s.2 a
  | storeByte a b => s.2.byteStores a b
  | storeHalf a h => s.2.halfStores a h

/-- What is stored in turns, with the party that stores it. -/
def allStores (s : WithMemory δ ω) : List Turn → List (Option DeviceAddress × ByteStore)
  | [] => []
  | turn :: rest => (turn.stores s).map (turn.party, ·) ++ allStores (turn.take s) rest

/-- Nothing is stored in a word that another device is to write back. -/
def Apart (s : WithMemory δ ω) (turn : Turn) : Prop :=
  ∀ e ∈ turn.stores s, ∀ d ∈ s.1.addresses, some d ≠ turn.party → s.1.holds? d ≠ some (e.1 / 4)

def AlwaysApart (s : WithMemory δ ω) : List Turn → Prop
  | [] => True
  | turn :: rest => turn.Apart s ∧ AlwaysApart (turn.take s) rest

instance : Decidable (turn.Apart s) :=
  inferInstanceAs (Decidable (∀ e ∈ turn.stores s, ∀ d ∈ s.1.addresses, some d ≠ turn.party →
    s.1.holds? d ≠ some (e.1 / 4)))

instance decidableAlwaysApart (s : WithMemory δ ω) : (turns : List Turn) → Decidable (AlwaysApart s turns)
  | [] => inferInstanceAs (Decidable True)
  | turn :: rest =>
    have : Decidable (AlwaysApart (turn.take s) rest) := decidableAlwaysApart (turn.take s) rest
    inferInstanceAs (Decidable (turn.Apart s ∧ AlwaysApart (turn.take s) rest))

theorem tracks_take (hin : Peripheral.TakesIn δ) (h : Tracks bytes extent s) (hapart : turn.Apart s) :
    Tracks (overwritten bytes (turn.stores s)) extent (turn.take s) := by
  obtain ⟨c, mem⟩ := s
  have hfree : ∀ e ∈ turn.stores (c, mem), ∀ d, some d ≠ turn.party → c.holds? d ≠ some (e.1 / 4) := by
    intro e he d hd hheld
    refine hapart e he d ?_ hd hheld
    obtain ⟨p, hp, -⟩ := Option.bind_eq_some_iff.mp hheld
    exact mem_addresses_of_program? hp
  cases turn with
  | service now a => exact tracks_serviceDevice hin h fun e he d hd => hfree e he d fun heq => hd (Option.some.inj heq)
  | storeByte a b =>
    exact tracks_store h Memory.size_after_change (fun _ => Memory.byteAt_after_writeByte)
      fun e he d => hfree e he d fun h => by cases h
  | storeHalf a b =>
    exact tracks_store h Memory.size_after_change (fun _ => Memory.byteAt_after_writeHalf)
      fun e he d => hfree e he d fun h => by cases h

theorem tracks_takeAll (hin : Peripheral.TakesIn δ) (h : Tracks bytes extent s) (hapart : AlwaysApart s turns) :
    Tracks (overwritten bytes ((allStores s turns).map Prod.snd)) extent (takeAll s turns) := by
  induction turns generalizing s bytes with
  | nil => exact h
  | cons turn rest ih =>
    have hrest := ih (tracks_take hin h hapart.1) hapart.2
    rw [allStores, List.map_append, List.map_map, overwritten_append]
    have hsame : (turn.stores s).map (Prod.snd ∘ (turn.party, ·)) = turn.stores s := List.map_id' _
    rw [hsame]
    exact hrest

/-- What is stored at an address by one party alone is what that party has stored there. -/
theorem overwritten_party {log : List (Option DeviceAddress × ByteStore)} {party : Option DeviceAddress} {n : Nat}
    (h : ∀ e ∈ log, e.2.1 = n → e.1 = party) :
    overwritten bytes (log.map Prod.snd) n = overwritten bytes ((log.filter (·.1 = party)).map Prod.snd) n := by
  induction log generalizing bytes with
  | nil => rfl
  | cons e rest ih =>
    have hrest : ∀ bytes, overwritten bytes (rest.map Prod.snd) n =
        overwritten bytes ((rest.filter (·.1 = party)).map Prod.snd) n := fun bytes =>
      ih fun e' he' => h e' (List.mem_cons_of_mem _ he')
    rw [List.filter_cons]
    by_cases hparty : e.1 = party
    · rw [if_pos (decide_eq_true hparty)]
      exact hrest _
    · rw [if_neg (by simpa using hparty)]
      have hother : e.2.1 ≠ n := fun heq => hparty (h e List.mem_cons_self heq)
      refine Eq.trans ?_ (hrest bytes)
      exact overwritten_congr (Function.update_of_ne (Ne.symm hother) _ _)

omit [Peripheral δ ω] in
theorem tracks_of_unstaged (h : ∀ d p, s.1.program? d = some p → p.staged = none) :
    Tracks s.2.byteAt s.2.words.size s where
  size := rfl
  memory _ _ := rfl
  word d p hp word hword := by
    rw [ChannelProgram.unwritten?, h d p hp] at hword
    cases hword
  settled d p hp := ChannelProgram.settled_of_none (h d p hp)

omit [Peripheral δ ω] in
/-- A device that ends its command puts back the whole word, whatever has been stored there meanwhile. -/
theorem endCommand_puts_back {p : ChannelProgram} {mem : Memory} {status : ChannelStatus}
    (haccurate : ∀ word, p.unwritten? = some word → word.Accurate bytes extent) (hsize : mem.words.size = extent) :
    ((Transfer.endCommand status).run ⟨p, mem⟩).2.program.staged = none ∧
      ∀ n, p.holds? = some (n / 4) → ((Transfer.endCommand status).run ⟨p, mem⟩).2.memory.byteAt n = bytes n := by
  -- Of all words only the program's own need be tracked here.
  have htracks : Transfer.Tracks bytes extent (p.holds? ≠ some ·) ⟨p, mem⟩ :=
    ⟨hsize, fun n hn hother => absurd (Decidable.not_not.mp hn) hother, haccurate⟩
  obtain ⟨hended, hnone⟩ := Transfer.tracks_endCommand (s := status) htracks
  refine ⟨hnone, fun n hn => hended.memory n (not_not_intro hn) ?_⟩
  rw [ChannelProgram.holds?, ChannelProgram.unwritten?, hnone]
  exact fun h => by cases h

/-- As long as the parties keep apart, and when every device has written its word back, each byte is the last that was
stored at its address, and so the last of its party if no other stores there. A device that ends its command has nothing
left to write back, and leaves the bytes of the word that it held as they were stored up to now: what another party
stores there meanwhile is lost. -/
theorem byteAt_takeAll (hin : Peripheral.TakesIn δ) (hstart : ∀ d p, s.1.program? d = some p → p.staged = none)
    (hapart : AlwaysApart s turns) :
    ((∀ d, (takeAll s turns).1.holds? d = none) → ∀ n,
      (takeAll s turns).2.byteAt n = overwritten s.2.byteAt ((allStores s turns).map Prod.snd) n ∧
      ∀ party, (∀ e ∈ allStores s turns, e.2.1 = n → e.1 = party) → (takeAll s turns).2.byteAt n =
        overwritten s.2.byteAt (((allStores s turns).filter (·.1 = party)).map Prod.snd) n) ∧
    ∀ d p, (takeAll s turns).1.program? d = some p → ∀ mem : Memory, mem.words.size = s.2.words.size → ∀ status,
      ((Transfer.endCommand status).run ⟨p, mem⟩).2.program.staged = none ∧
      ∀ n, p.holds? = some (n / 4) → ((Transfer.endCommand status).run ⟨p, mem⟩).2.memory.byteAt n =
        overwritten s.2.byteAt ((allStores s turns).map Prod.snd) n := by
  have htracks := tracks_takeAll hin (tracks_of_unstaged hstart) hapart
  refine ⟨fun hnone n => ?_, fun d p hp mem hsize status => endCommand_puts_back (htracks.word d p hp) hsize⟩
  have hbyte : (takeAll s turns).2.byteAt n = overwritten s.2.byteAt ((allStores s turns).map Prod.snd) n :=
    htracks.memory n fun d hd => by cases (hnone d).symm.trans hd
  exact ⟨hbyte, fun party hparty => hbyte.trans (overwritten_party hparty)⟩

end Turn

/-! ### Two devices in one word -/

/-- A device that puts in one byte at each service, and ends its command when none is left. -/
structure Trickle where
  bytes : List Byte
  deriving DecidableEq

namespace Trickle
open Channels Turn

def service (d : Trickle) : Service Char (Trickle × Option Nat) :=
  match d.bytes with
  | [] => .endCommand .deviceEnd (.done (d, none))
  | b :: rest => .writeByte b fun _ => .done (⟨rest⟩, some 1)

instance : Peripheral Trickle Char where
  name _ := "trickle"
  reset d _ _ := .only d ()
  startCommand d _ _ := .only d (.accepted 1)
  service d _ := d.service

theorem takesIn : Peripheral.TakesIn Trickle := by
  intro d now
  show d.service.TakesIn
  unfold service
  split
  · trivial
  · exact fun _ => trivial

def left : DeviceAddress := ⟨0x1000#15⟩

def right : DeviceAddress := ⟨0x1001#15⟩

/-- Two lists, for the left and for the right half of the word at 16, and another word. -/
def halves : Memory := ⟨#[0x02000010, 2, 0x02000012, 2, 0, 0], by decide⟩

def begun : WithMemory Trickle Char :=
  let c := (Channels.empty.attach 0 left ⟨[0x11, 0x22]⟩).attach 0 right ⟨[0x33, 0x44]⟩
  let (_, c, mem) := c.startIo 0 halves left 0
  (c.startIo 0 mem right 8).2

def alternating : List Turn :=
  [.service 1 left, .service 1 right, .service 1 left, .service 1 right, .service 1 left, .service 1 right]

/-- The processor stores a byte before the left device has written its word back. -/
def between : List Turn := [.service 1 left, .storeByte 19 0x55, .service 1 left, .service 1 left]

/-- All bytes are stored at addresses of their own and both commands end. The bytes of the left device are lost, and so
is the byte of the processor. -/
theorem neighbours_lost :
    allStores begun alternating =
      [(some left, 16, 0x11), (some right, 18, 0x33), (some left, 17, 0x22), (some right, 19, 0x44)] ∧
    (∀ d ∈ [left, right], ((takeAll begun alternating).1.program? d).any fun p => p.status.contains .channelEnd) ∧
    (takeAll begun alternating).2.words[4]? = some 0x00003344 ∧
    allStores begun between = [(some left, 16, 0x11), (none, 19, 0x55), (some left, 17, 0x22)] ∧
    (takeAll begun between).2.words[4]? = some 0x11220000 := by
  decide +kernel

/-- One device after the other, and the processor beside them. -/
def orderly : List Turn :=
  [.service 1 left, .storeHalf 20 0x5566, .service 1 left, .service 1 left, .service 1 right, .service 1 right,
    .service 1 right]

theorem byteAt_orderly :
    AlwaysApart begun orderly ∧ ∀ n, (takeAll begun orderly).2.byteAt n =
      overwritten begun.2.byteAt [(16, 0x11), (20, 0x55), (21, 0x66), (17, 0x22), (18, 0x33), (19, 0x44)] n := by
  have hapart : AlwaysApart begun orderly := by decide +kernel
  have hstart : ∀ d p, begun.1.program? d = some p → p.staged = none := by
    have hall : ∀ d ∈ begun.1.addresses, ∀ p ∈ begun.1.program? d, p.staged = none := by decide +kernel
    exact fun d p hp => hall d (mem_addresses_of_program? hp) p hp
  have hnone : ∀ d, (takeAll begun orderly).1.holds? d = none := by
    have hall : ∀ d ∈ (takeAll begun orderly).1.addresses, (takeAll begun orderly).1.holds? d = none := by
      decide +kernel
    intro d
    by_contra hheld
    obtain ⟨i, hi⟩ := Option.ne_none_iff_exists'.mp hheld
    obtain ⟨p, hp, -⟩ := Option.bind_eq_some_iff.mp hi
    exact hheld (hall d (mem_addresses_of_program? hp))
  have hstores : (allStores begun orderly).map Prod.snd =
      [(16, 0x11), (20, 0x55), (21, 0x66), (17, 0x22), (18, 0x33), (19, 0x44)] := by
    decide +kernel
  refine ⟨hapart, fun n => ?_⟩
  rw [← hstores]
  exact ((byteAt_takeAll takesIn hstart hapart).1 hnone n).1

end Trickle
end Concept32
