import Concept32.Proofs.Addressing
import Concept32.Proofs.Hardware.Events
import Concept32.Proofs.Hardware.MultiwordStores
import Concept32.Proofs.Instructions.Places

/-!
# Calls and returns

A call pushes a frame of two words below base register 2: the word by which the program goes on, which has the condition
codes in it, and base register 1. Then base registers 1 and 2 both point to the frame. A return finds the frame through
base register 1 and takes base register 2 to have been just above it. So it restores both registers only because every
frame lies directly below that of the call before, and no call stores into the frame of another.
-/

namespace Concept32

/-- What a program has at a call and goes on with after the return: base registers 1 and 2, the condition codes and the
address of the instruction after the call. -/
@[ext] structure Linkage where
  caller : Word
  top : Word
  codes : ConditionCodes
  resume : Word
  deriving DecidableEq

namespace Linkage
variable {l l' : Linkage} {m m' : Memory} {start : Word × Word} {pending rest : List Linkage} {i j : Nat}

/-! ### Frames -/

/-- The logical address of the frame that the call pushes. -/
def frame (l : Linkage) : Word := l.top - Exec.frameBytes

/-- The physical address of a byte of the frame in a program without a map, where the low 24 bits of an address count. -/
def place (l : Linkage) (k : Nat) : Word := (l.frame + BitVec.ofNat 32 k) &&& Psd.addressField

/-- A physical byte address is one of the frame. -/
def HasByte (l : Linkage) (n : Nat) : Prop := ∃ k < 8, n = (l.place k).toNat

/-- Two frames have no byte in common. -/
def Apart (l l' : Linkage) : Prop := ∀ n, l.HasByte n → ¬l'.HasByte n

theorem toNat_place {k : Nat} : (l.place k).toNat = (l.frame.toNat + k) % 0x1000000 := by
  have hcut : (l.place k).toNat = (l.frame + BitVec.ofNat 32 k).toNat % 0x1000000 := TranslationUnit.toNat_and_address _
  rw [hcut, BitVec.toNat_add, BitVec.toNat_ofNat]
  omega

/-- Frames at different distances below an address are apart, unless the distance is more than the address space. -/
theorem apart_of_distance {a : Word} (h : l.frame + BitVec.ofNat 32 (8 * (i + 1)) = a)
    (h' : l'.frame + BitVec.ofNat 32 (8 * (j + 1)) = a) (hi : 8 * (i + 1) ≤ 0x1000000) (hj : 8 * (j + 1) ≤ 0x1000000)
    (hne : i ≠ j) : l.Apart l' := by
  rintro n ⟨k, hk, hn⟩ ⟨k', hk', hn'⟩
  have hsame := congrArg BitVec.toNat (h.trans h'.symm)
  rw [BitVec.toNat_add, BitVec.toNat_add, BitVec.toNat_ofNat, BitVec.toNat_ofNat] at hsame
  rw [toNat_place] at hn hn'
  omega

/-- Words of frames that are apart are different words of memory. -/
theorem Apart.word_ne (h : l.Apart l') (haligned : l.frame.toNat % 4 = 0) (hi : i = 0 ∨ i = 4) (hj : j = 0 ∨ j = 4) :
    (l'.place j).toNat / 4 ≠ (l.place i).toNat / 4 := by
  intro hword
  have hplace := toNat_place (l := l) (k := i)
  have hplace' := toNat_place (l := l') (k := j)
  -- The first byte of the one word lies in the other.
  have hbyte := toNat_place (l := l) (k := i + (l'.place j).toNat % 4)
  exact h _ ⟨i + (l'.place j).toNat % 4, by omega, by omega⟩ ⟨j, by omega, rfl⟩

/-! ### What memory holds of a linkage -/

/-- Memory holds the frame: a word with the condition codes and the address, and base register 1. -/
structure Held (l : Linkage) (m : Memory) : Prop where
  word : ∃ word, m.readWord (l.place 0) = .ok word ∧ Psd.codes ⟨word, 0⟩ = l.codes ∧
    word &&& Psd.addressField = l.resume
  caller : m.readWord (l.place 4) = .ok l.caller

/-- The frame reads as it did. -/
structure Kept (l : Linkage) (m m' : Memory) : Prop where
  word : m'.readWord (l.place 0) = m.readWord (l.place 0)
  caller : m'.readWord (l.place 4) = m.readWord (l.place 4)

theorem Held.of_kept (h : l.Held m) (hkept : l.Kept m m') : l.Held m' := by
  obtain ⟨word, hread, hword⟩ := h.word
  exact ⟨⟨word, hkept.word.trans hread, hword⟩, hkept.caller.trans h.caller⟩

theorem Held.aligned (h : l.Held m) : l.frame.toNat % 4 = 0 := by
  obtain ⟨_, hread, -⟩ := h.word
  have haligned := (Memory.readWord_eq_ok.mp hread).1
  rw [toNat_place] at haligned
  omega

/-- Memory with a frame pushed. -/
def pushed (l : Linkage) (word : Word) (m : Memory) : Memory := (m.stored (l.place 0) word).stored (l.place 4) l.caller

theorem held_pushed {word : Word} (haligned : l.frame.toNat % 4 = 0) (hfirst : (l.place 0).toNat < m.sizeBytes)
    (hsecond : (l.place 4).toNat < m.sizeBytes) (hcodes : Psd.codes ⟨word, 0⟩ = l.codes)
    (hresume : word &&& Psd.addressField = l.resume) : l.Held (l.pushed word m) := by
  have hplace := toNat_place (l := l) (k := 0)
  have hplace' := toNat_place (l := l) (k := 4)
  have hsize : m.sizeBytes = 4 * m.words.size := rfl
  refine ⟨⟨word, ?_, hcodes, hresume⟩, ?_⟩
  · rw [pushed, Memory.readWord_stored_of_ne (by omega)]
    exact Memory.readWord_stored (by omega) (by omega)
  · exact Memory.readWord_stored (by omega) (by rw [Memory.sizeBytes_stored]; omega)

theorem Apart.kept {word : Word} (h : l.Apart l') (haligned : l.frame.toNat % 4 = 0) : l'.Kept m (l.pushed word m) where
  word := by
    rw [pushed, Memory.readWord_stored_of_ne (h.word_ne haligned (.inr rfl) (.inl rfl)),
      Memory.readWord_stored_of_ne (h.word_ne haligned (.inl rfl) (.inl rfl))]
  caller := by
    rw [pushed, Memory.readWord_stored_of_ne (h.word_ne haligned (.inr rfl) (.inr rfl)),
      Memory.readWord_stored_of_ne (h.word_ne haligned (.inl rfl) (.inr rfl))]

/-! ### Calls that have not returned -/

/-- Base registers 1 and 2 while calls have not returned, the latest first: both point to the frame of the latest, and
without any they are as at the start. -/
def bases (start : Word × Word) : List Linkage → Word × Word
  | [] => start
  | l :: _ => (l.frame, l.frame)

/-- Every call has been made with the base registers that the calls before it had left. -/
def Stacked (start : Word × Word) : List Linkage → Prop
  | [] => True
  | l :: rest => (l.caller, l.top) = bases start rest ∧ Stacked start rest

theorem Stacked.of_suffix (h : Stacked start pending) (hsuffix : rest <:+ pending) : Stacked start rest := by
  induction pending with
  | nil =>
    obtain rfl := List.suffix_nil.mp hsuffix
    exact h
  | cons l pending ih =>
    rcases List.suffix_cons_iff.mp hsuffix with rfl | hsuffix
    · exact h
    · exact ih h.2 hsuffix

/-- The frames lie below base register 2 as it was at the start, one directly below the other. -/
theorem frame_add_of_stacked (h : Stacked start (l :: rest)) :
    l.frame + BitVec.ofNat 32 (8 * (rest.length + 1)) = start.2 := by
  induction rest generalizing l with
  | nil =>
    have htop : l.top = start.2 := congrArg Prod.snd h.1
    exact (BitVec.sub_add_cancel l.top 8#32).trans htop
  | cons l' rest ih =>
    have htop : l.top = l'.frame := congrArg Prod.snd h.1
    have hframe : l.frame + 8#32 = l'.frame := (BitVec.sub_add_cancel l.top 8#32).trans htop
    have hdistance : 8 * ((l' :: rest).length + 1) = 8 + 8 * (rest.length + 1) := by rw [List.length_cons]; omega
    rw [hdistance, BitVec.ofNat_add, ← BitVec.add_assoc, hframe]
    exact ih h.2

/-- Frames at different depths are apart. -/
theorem Stacked.apart {pending' rest' : List Linkage} (h : Stacked start pending) (hroom : 8 * pending.length ≤ 0x1000000)
    (hsuffix : l :: rest <:+ pending) (h' : Stacked start pending') (hroom' : 8 * pending'.length ≤ 0x1000000)
    (hsuffix' : l' :: rest' <:+ pending') (hdepth : rest.length ≠ rest'.length) : l.Apart l' := by
  have hlength := hsuffix.length_le
  have hlength' := hsuffix'.length_le
  rw [List.length_cons] at hlength hlength'
  exact apart_of_distance (frame_add_of_stacked (h.of_suffix hsuffix)) (frame_add_of_stacked (h'.of_suffix hsuffix'))
    (by omega) (by omega) hdepth

end Linkage

/-! ### Status doublewords -/

namespace Psd
variable {p : Psd} {a : Word} {cc : ConditionCodes}

/-- The program has base registers and no map. -/
def BasedUnmapped (p : Psd) : Prop := p.based = true ∧ p.mapped = false

theorem codes_withAddress : (p.withAddress a).codes = p.codes := by
  have hfield : ∀ i < 4, addressField.getLsbD (27 + i) = false := by decide
  refine congrArg ConditionCodes.mk (BitVec.eq_of_getLsbD_eq fun i hi => ?_)
  rw [withAddress, BitVec.getLsbD_extractLsb', BitVec.getLsbD_extractLsb', getLsbD_replaceBits, hfield i hi]
  rfl

theorem based_withCodes : (p.withCodes cc).based = p.based := hasAny_replaceBits (by decide)

theorem addressMask_of_based (h : p.based = true) : p.addressMask = addressField := if_pos h

end Psd

/-- CALL and CALLM. -/
inductive Operand.Calls (o : Operand) : Opcode → Prop
  | register (haugment : o.augment = 8) : o.Calls .reg
  | memory (hf : o.fBit = true) (hregister : o.register.val = 1) : o.Calls .lwbr

namespace Core
variable {s t : Core} {a : Word}

/-- Base registers 1 and 2. -/
def bases (s : Core) : Word × Word := (s.cpu.base.get Exec.frameBase, s.cpu.base.get Exec.stackBase)

/-- What a program has that is to go on at an address. -/
def linkage (s : Core) (resume : Word) : Linkage := ⟨s.bases.1, s.bases.2, s.cpu.psd.codes, resume⟩

/-- A frame has been pushed, and base registers 1 and 2 point to it. -/
structure Pushes (link : Linkage) (s s' : Core) : Prop where
  made : (link.caller, link.top) = s.bases
  bases : s'.bases = (link.frame, link.frame)
  aligned : link.frame.toNat % 4 = 0
  held : link.Held s'.memory
  memory : ∃ word, s'.memory = link.pushed word s.memory

theorem bases_of_same (h : Same s t) : t.bases = s.bases := by
  obtain ⟨_, _, rfl⟩ := h
  rfl

theorem linkage_of_same (h : Same s t) : t.linkage a = s.linkage a := by
  obtain ⟨_, _, rfl⟩ := h
  rfl

theorem memory_of_same (h : Same s t) : t.memory = s.memory := by
  obtain ⟨_, _, rfl⟩ := h
  rfl

/-! ### Frames in memory -/

/-- The frames of the calls that have not returned stand one below the other, and memory holds them. -/
structure Standing (start : Word × Word) (pending : List Linkage) (s : Core) : Prop where
  bases : s.bases = Linkage.bases start pending
  stacked : Linkage.Stacked start pending
  room : 8 * pending.length ≤ 0x1000000
  held : ∀ link ∈ pending, link.Held s.memory

namespace Standing
variable {start : Word × Word} {pending : List Linkage} {link : Linkage} {s' : Core}

theorem push (h : Standing start pending s) (hroom : 8 * (pending.length + 1) ≤ 0x1000000)
    (hpushes : Pushes link s s') : Standing start (link :: pending) s' := by
  have hstacked : Linkage.Stacked start (link :: pending) := ⟨hpushes.made.trans h.bases, h.stacked⟩
  refine ⟨hpushes.bases, hstacked, hroom, List.forall_mem_cons.mpr ⟨hpushes.held, fun link' hlink' => ?_⟩⟩
  -- The new frame lies below all others.
  obtain ⟨before, rest, rfl⟩ := List.append_of_mem hlink'
  have hrest : link' :: rest <:+ before ++ link' :: rest := ⟨before, rfl⟩
  have hlength := hrest.length_le
  rw [List.length_cons] at hlength
  have hapart : link.Apart link' :=
    hstacked.apart hroom (List.suffix_refl _) h.stacked h.room hrest (Nat.ne_of_gt hlength)
  obtain ⟨word, hmemory⟩ := hpushes.memory
  rw [hmemory]
  exact (h.held link' hlink').of_kept (hapart.kept hpushes.aligned)

theorem pop (h : Standing start (link :: pending) s) (hlinkage : s'.linkage a = link) (hmemory : s'.memory = s.memory) :
    Standing start pending s' := by
  have hroom := h.room
  rw [List.length_cons] at hroom
  refine ⟨?_, h.stacked.2, by omega, fun link' hlink' => ?_⟩
  · rw [← h.stacked.1, ← hlinkage]
    rfl
  · rw [hmemory]
    exact h.held link' (List.mem_cons_of_mem link hlink')

end Standing
end Core

namespace Exec
open Concept32.Core EStateM
variable {s u : Core} {o : Operand} {opcode : Opcode} {a p q w target : Word} {access : Access} {flow : Flow}
  {link : Linkage}

/-! ### Words in a program without a map -/

theorem readWord_of_unmapped (hmapped : s.cpu.psd.mapped = false)
    (h : s.memory.readWord (a &&& Psd.addressField) = .ok w) : readWord a access s = .ok w s := by
  obtain ⟨haligned, hlt, -⟩ := Memory.readWord_eq_ok.mp h
  have hcut : (a &&& Psd.addressField).toNat = a.toNat % 0x1000000 := TranslationUnit.toNat_and_address a
  have htranslated : s.translated access a = .ok (a &&& Psd.addressField) :=
    TranslationUnit.translate_eq_ok.mpr ⟨by rw [Memory.sizeBytes]; omega, by rw [hmapped]; rfl⟩
  rw [readWord, bind_of_ok (requireAligned_of_aligned (by omega)), bind_of_ok (translate_eq_ok.mpr ⟨htranslated, rfl⟩)]
  exact fromMemory_eq_ok.mpr ⟨h, rfl⟩

theorem storePlace_of_unmapped (hmapped : s.cpu.psd.mapped = false) : s.storePlace a = .ok p ↔
    a.toNat % 4 = 0 ∧ p = a &&& Psd.addressField ∧ p.toNat < s.memory.sizeBytes := by
  rw [storePlace_eq_ok, TranslationUnit.translate_eq_ok, hmapped]
  constructor
  · rintro ⟨haligned, hlt, hplace⟩
    cases hplace
    exact ⟨haligned, rfl, hlt⟩
  · rintro ⟨haligned, rfl, hlt⟩
    exact ⟨haligned, hlt, rfl⟩

/-! ### A call -/

/-- The word by which the program goes on. -/
def linkWord (s : Core) (o : Operand) : Word := (s.cpu.psd.withAddress o.next).word1

/-- What the program is to have again when a call returns. -/
def callLinkage (s : Core) (o : Operand) : Linkage := s.linkage (s.cpu.psd.withAddress o.next).address

theorem call_eq : call o target s = (do
    writeWord (callLinkage s o).frame (linkWord s o)
    writeWord ((callLinkage s o).frame + 4) (callLinkage s o).caller
    setBase stackBase (callLinkage s o).frame
    setBase frameBase (callLinkage s o).frame
    return .jump (target &&& ~~~1#32) : Exec Flow) s := rfl

/-- A call that finds room for both words of its frame is carried out. -/
theorem call_of_places (target : Word) (hfirst : s.storePlace (callLinkage s o).frame = .ok p)
    (hsecond : s.storePlace ((callLinkage s o).frame + 4) = .ok q) :
    ∃ base, call o target s = .ok (.jump (target &&& ~~~1#32))
      ⟨{ s.cpu with base := base }, (s.memory.stored p (linkWord s o)).stored q (callLinkage s o).caller⟩ ∧
      base.get frameBase = (callLinkage s o).frame ∧ base.get stackBase = (callLinkage s o).frame := by
  have hsecond' : storePlace ⟨s.cpu, s.memory.stored p (linkWord s o)⟩ ((callLinkage s o).frame + 4) = .ok q := by
    rw [storePlace_stored]
    exact hsecond
  refine ⟨(s.cpu.base.set stackBase.val (callLinkage s o).frame stackBase.isLt).set frameBase.val
    (callLinkage s o).frame frameBase.isLt, ?_, get_set_self, (get_set_of_ne (by decide)).trans get_set_self⟩
  rw [call_eq, bind_of_ok (writeWord_of_place hfirst), bind_of_ok (writeWord_of_place hsecond')]
  rfl

/-- A call that is carried out has found room for its frame. -/
theorem places_of_call (h : call o target s = .ok flow u) :
    ∃ p q, s.storePlace (callLinkage s o).frame = .ok p ∧ s.storePlace ((callLinkage s o).frame + 4) = .ok q := by
  rw [call_eq] at h
  cases hfirst : s.storePlace (callLinkage s o).frame with
  | error t =>
    obtain ⟨v, hwrite, -⟩ := writeWord_of_refused (w := linkWord s o) hfirst
    cases (bind_of_error hwrite).symm.trans h
  | ok p =>
    rw [bind_of_ok (writeWord_of_place hfirst)] at h
    cases hsecond : s.storePlace ((callLinkage s o).frame + 4) with
    | error t =>
      rw [← storePlace_stored p (linkWord s o)] at hsecond
      obtain ⟨v, hwrite, -⟩ := writeWord_of_refused (w := (callLinkage s o).caller) hsecond
      cases (bind_of_error hwrite).symm.trans h
    | ok q => exact ⟨p, q, rfl, rfl⟩

theorem pushes_of_call (hmapped : s.cpu.psd.mapped = false) (h : call o target s = .ok flow u) :
    Pushes (callLinkage s o) s u ∧ ∃ a, flow = .jump a := by
  obtain ⟨p, q, hfirst, hsecond⟩ := places_of_call h
  obtain ⟨base, hdone, hframe, hstack⟩ := call_of_places target hfirst hsecond
  obtain ⟨haligned, rfl, hfirstIn⟩ := (storePlace_of_unmapped hmapped).mp hfirst
  obtain ⟨-, rfl, hsecondIn⟩ := (storePlace_of_unmapped hmapped).mp hsecond
  cases hdone.symm.trans h
  have hplace : (callLinkage s o).place 0 = (callLinkage s o).frame &&& Psd.addressField := by
    rw [Linkage.place, BitVec.add_zero]
  rw [← hplace] at hfirstIn ⊢
  refine ⟨⟨rfl, Prod.ext hframe hstack, haligned, ?_, _, rfl⟩, _, rfl⟩
  exact Linkage.held_pushed haligned hfirstIn hsecondIn Psd.codes_withAddress rfl

/-- With base register 2 word aligned and room for the frame in memory a call is carried out. -/
theorem call_of_room (target : Word) (hmapped : s.cpu.psd.mapped = false) (haligned : s.bases.2.toNat % 4 = 0)
    (hfits : ∀ n, (callLinkage s o).HasByte n → n < s.memory.sizeBytes) : ∃ flow u, call o target s = .ok flow u := by
  have hframe : (callLinkage s o).frame.toNat % 4 = 0 := by
    have hdifference : (callLinkage s o).frame = s.bases.2 - 8#32 := rfl
    rw [hdifference, BitVec.toNat_sub, show (8#32).toNat = 8 from rfl]
    omega
  have hfirst : s.storePlace (callLinkage s o).frame = .ok ((callLinkage s o).place 0) :=
    (storePlace_of_unmapped hmapped).mpr ⟨hframe, by rw [Linkage.place, BitVec.add_zero], hfits _ ⟨0, by decide, rfl⟩⟩
  have hnext : ((callLinkage s o).frame + 4).toNat % 4 = 0 := by
    rw [BitVec.toNat_add, show (4 : Word).toNat = 4 from rfl]
    omega
  have hsecond : s.storePlace ((callLinkage s o).frame + 4) = .ok ((callLinkage s o).place 4) :=
    (storePlace_of_unmapped hmapped).mpr ⟨hnext, rfl, hfits _ ⟨4, by decide, rfl⟩⟩
  obtain ⟨base, hdone, -⟩ := call_of_places target hfirst hsecond
  exact ⟨_, _, hdone⟩

theorem perform_of_calls (hcalls : o.Calls opcode) (hbased : s.cpu.psd.based = true) :
    ∃ target, perform opcode o s = call o target s := by
  cases hcalls with
  | register haugment =>
    refine ⟨s.cpu.base.get o.source, ?_⟩
    rw [perform, registerGroup, bind_of_ok (show based s = .ok s.cpu.psd.based s from rfl), hbased, haugment]
    rfl
  | memory hf hregister =>
    refine ⟨o.address, ?_⟩
    rw [perform, baseGroup, hf, hregister]
    rfl

/-! ### A return -/

/-- A return through a frame that memory holds is carried out, and the program has what it had at the call. -/
theorem return_of_held (hmode : s.cpu.psd.BasedUnmapped) (hheld : link.Held s.memory) (hbase : s.bases.1 = link.frame) :
    ∃ u word, returnFromCall s = .ok (.jump word) u ∧ u.linkage (u.cpu.psd.withAddress word).address = link ∧
      u.memory = s.memory := by
  obtain ⟨word, hfirst, hcodes, hresume⟩ := hheld.word
  have hframe : s.cpu.base.get frameBase = link.frame := hbase
  have hword : readWord link.frame .read s = .ok word s := by
    rw [Linkage.place, BitVec.add_zero] at hfirst
    exact readWord_of_unmapped hmode.2 hfirst
  have hcaller : readWord (link.frame + 4) .read s = .ok link.caller s := readWord_of_unmapped hmode.2 hheld.caller
  refine ⟨⟨{ s.cpu with
    base := (s.cpu.base.set frameBase.val link.caller frameBase.isLt).set stackBase.val (link.frame + frameBytes)
      stackBase.isLt
    psd := s.cpu.psd.withCodes (Psd.codes ⟨word, 0⟩) }, s.memory⟩, word, ?_, ?_, rfl⟩
  · rw [returnFromCall, bind_of_ok (show base frameBase s = .ok link.frame s from congrArg (Result.ok · s) hframe),
      bind_of_ok hword, bind_of_ok hcaller]
    rfl
  · refine Linkage.ext ((get_set_of_ne (by decide)).trans get_set_self) ?_ (Psd.codes_withCodes.trans hcodes) ?_
    · exact get_set_self.trans (BitVec.sub_add_cancel link.top frameBytes)
    · have hbased : (s.cpu.psd.withCodes (Psd.codes ⟨word, 0⟩)).based = true := Psd.based_withCodes.trans hmode.1
      show ((s.cpu.psd.withCodes (Psd.codes ⟨word, 0⟩)).withAddress word).address = link.resume
      rw [Psd.address_withAddress, Psd.addressMask_of_based hbased, hresume]

theorem perform_of_return (haugment : o.augment = 0xE) (hbased : s.cpu.psd.based = true) :
    perform .reg o s = returnFromCall s := by
  rw [perform, registerGroup, bind_of_ok (show based s = .ok s.cpu.psd.based s from rfl), hbased, haugment]
  rfl

end Exec

namespace Hardware
open Concept32.Core Concept32.Exec EStateM
variable {δ ω : Type} {s s' s₀ : Hardware δ ω} {core t : Core} {next : Word} {opcode : Opcode} {o : Operand} {flow : Flow}
  {now duration : Nat} {link : Linkage} {pending rest : List Linkage}

/-! ### Calls and returns at the program counter -/

/-- The instruction at the program counter is an operation whose operand has been found, and the next one follows at an
address. -/
inductive Meets (s : Hardware δ ω) (next : Word) (opcode : Opcode) (o : Operand) (core : Core) : Prop
  | mk {i : Instruction} {core₀ : Core} (hfetch : fetch s.begun = .ok (i, next) core₀)
      (hprepare : prepare i next core₀ = .ok (opcode, o) core)

/-- What the program is to have again after a call, which the next instruction follows at an address. -/
def linkage (s : Hardware δ ω) (next : Word) : Linkage := s.core.linkage (s.core.cpu.psd.withAddress next).address

theorem Meets.same (h : s.Meets next opcode o core) : Same s.core core := by
  obtain ⟨hfetch, hprepare⟩ := h
  obtain ⟨_, _, rfl⟩ := reads_fetch.ok hfetch
  obtain ⟨_, _, rfl⟩ := reads_prepare.ok hprepare
  exact ⟨_, _, rfl⟩

theorem Meets.callLinkage_eq (h : s.Meets next opcode o core) : callLinkage core o = s.linkage next := by
  have hnext : o.next = next := by
    obtain ⟨-, hprepare⟩ := h
    exact (prepared_of_prepare hprepare).next
  rw [callLinkage, linkage_of_same h.same, psd_of_same h.same, hnext, linkage]

variable [Peripheral δ ω]

theorem Meets.executes (h : s.Meets next opcode o core) (now : Nat) (hio : opcode ≠ .io)
    (hperform : Concept32.Exec.perform opcode o core = .ok flow t) : ∃ duration history, executeInstruction now s =
      .ok duration ⟨⟨{ proceed flow next t.cpu with history := history }, t.memory⟩, s.channels⟩ := by
  obtain ⟨hfetch, hprepare⟩ := h
  exact executeInstruction_of_completed hfetch (dispatch_of_perform (s := ⟨_, s.channels⟩) hprepare hio hperform)

/-- The instruction at the program counter is a call, and it is carried out. -/
inductive MakesCall (now : Nat) (s : Hardware δ ω) : Linkage → Hardware δ ω → Prop
  | mk {next : Word} {opcode : Opcode} {o : Operand} {core t : Core} {flow : Flow} {duration : Nat} {s' : Hardware δ ω}
      (hmeets : s.Meets next opcode o core) (hcalls : o.Calls opcode)
      (hperform : Concept32.Exec.perform opcode o core = .ok flow t)
      (hexecute : executeInstruction now s = .ok duration s') : MakesCall now s (s.linkage next) s'

omit [Peripheral δ ω] in
theorem ne_io_of_calls (h : o.Calls opcode) : opcode ≠ .io := by
  cases h with
  | register => exact Opcode.noConfusion
  | memory => exact Opcode.noConfusion

theorem pushes_of_calls (hmode : s.core.cpu.psd.BasedUnmapped) (h : s.MakesCall now link s') :
    Pushes link s.core s'.core := by
  obtain ⟨hmeets, hcalls, hperform, hexecute⟩ := h
  rw [← psd_of_same hmeets.same] at hmode
  obtain ⟨target, hrun⟩ := perform_of_calls hcalls hmode.1
  obtain ⟨hpushes, a, rfl⟩ := pushes_of_call hmode.2 (hrun.symm.trans hperform)
  obtain ⟨_, history, hdone⟩ := hmeets.executes now (ne_io_of_calls hcalls) hperform
  cases hdone.symm.trans hexecute
  rw [hmeets.callLinkage_eq] at hpushes
  obtain ⟨hmade, hbases, haligned, hheld, hmemory⟩ := hpushes
  rw [bases_of_same hmeets.same] at hmade
  rw [memory_of_same hmeets.same] at hmemory
  exact ⟨hmade, hbases, haligned, hheld, hmemory⟩

/-- A call with base register 2 word aligned and room for the frame in memory is carried out. -/
theorem calls_of_room (now : Nat) (hmode : s.core.cpu.psd.BasedUnmapped) (hmeets : s.Meets next opcode o core)
    (hcalls : o.Calls opcode) (haligned : s.core.bases.2.toNat % 4 = 0)
    (hfits : ∀ n, (s.linkage next).HasByte n → n < s.core.memory.sizeBytes) :
    ∃ s', s.MakesCall now (s.linkage next) s' := by
  rw [← psd_of_same hmeets.same] at hmode
  rw [← bases_of_same hmeets.same] at haligned
  rw [← hmeets.callLinkage_eq, ← memory_of_same hmeets.same] at hfits
  obtain ⟨target, hrun⟩ := perform_of_calls hcalls hmode.1
  obtain ⟨flow, t, hcall⟩ := call_of_room target hmode.2 haligned hfits
  have hperform := hrun.trans hcall
  obtain ⟨duration, history, hdone⟩ := hmeets.executes now (ne_io_of_calls hcalls) hperform
  exact ⟨_, .mk hmeets hcalls hperform hdone⟩

/-- The instruction at the program counter is a return. -/
def AtReturn (s : Hardware δ ω) : Prop := ∃ next o core, s.Meets next .reg o core ∧ o.augment = 0xE

/-- A return through the frame of a call is carried out, and the program has again what it had at the call. -/
theorem returns_of_held (now : Nat) (hmode : s.core.cpu.psd.BasedUnmapped) (hreturn : s.AtReturn)
    (hheld : link.Held s.core.memory) (hbase : s.core.bases.1 = link.frame) :
    ∃ duration s', executeInstruction now s = .ok duration s' ∧ s'.core.linkage s'.core.cpu.psd.address = link ∧
      s'.core.memory = s.core.memory := by
  obtain ⟨next, o, core, hmeets, haugment⟩ := hreturn
  have hmemory := memory_of_same hmeets.same
  rw [← psd_of_same hmeets.same] at hmode
  rw [← hmemory] at hheld
  rw [← bases_of_same hmeets.same] at hbase
  obtain ⟨u, word, hrun, hlinkage, hkept⟩ := return_of_held hmode hheld hbase
  obtain ⟨duration, history, hdone⟩ := hmeets.executes now Opcode.noConfusion
    ((perform_of_return haugment hmode.1).trans hrun)
  refine ⟨duration, _, hdone, ?_, hkept.trans hmemory⟩
  rw [← hlinkage]
  exact Linkage.ext rfl rfl Psd.codes_withAddress rfl

/-! ### Runs -/

/-- A run from a state on, with what the calls that have not returned are to restore, the latest first. Between calls and
returns anything may happen that leaves base registers 1 and 2 and the frames as they are. The frames fill no more than
the address space, so they do not wrap around onto one another. -/
inductive Linked (s₀ : Hardware δ ω) : List Linkage → Hardware δ ω → Prop
  | start : Linked s₀ [] s₀
  | other {pending : List Linkage} {s s' : Hardware δ ω} (hrun : Linked s₀ pending s)
      (hbases : s'.core.bases = s.core.bases) (hkept : ∀ link ∈ pending, link.Kept s.core.memory s'.core.memory) :
    Linked s₀ pending s'
  | called {now : Nat} {link : Linkage} {pending : List Linkage} {s s' : Hardware δ ω} (hrun : Linked s₀ pending s)
      (hmode : s.core.cpu.psd.BasedUnmapped) (hroom : 8 * (pending.length + 1) ≤ 0x1000000)
      (hcalls : s.MakesCall now link s') : Linked s₀ (link :: pending) s'
  | returned {now duration : Nat} {link : Linkage} {pending : List Linkage} {s s' : Hardware δ ω}
      (hrun : Linked s₀ (link :: pending) s) (hmode : s.core.cpu.psd.BasedUnmapped) (hreturn : s.AtReturn)
      (hexecute : executeInstruction now s = .ok duration s') : Linked s₀ pending s'

theorem standing_of_linked (h : Linked s₀ pending s) : Standing s₀.core.bases pending s.core := by
  induction h with
  | start => exact ⟨rfl, trivial, Nat.zero_le _, fun _ h => absurd h List.not_mem_nil⟩
  | other _ hbases hkept ih =>
    exact ⟨hbases.trans ih.bases, ih.stacked, ih.room, fun link hlink => (ih.held link hlink).of_kept (hkept link hlink)⟩
  | called _ hmode hroom hcalls ih => exact ih.push hroom (pushes_of_calls hmode hcalls)
  | @returned now duration link pending s s' _ hmode hreturn hexecute ih =>
    obtain ⟨_, t, hreturned, hlinkage, hmemory⟩ := returns_of_held now hmode hreturn (ih.held link List.mem_cons_self)
      (congrArg Prod.fst ih.bases)
    cases hreturned.symm.trans hexecute
    exact ih.pop hlinkage hmemory

/-- While calls and returns are nested, a call with base register 2 word aligned and room for its frame is carried out,
and so is a return from the latest call that has not returned, which restores base registers 1 and 2 and the condition
codes and goes on at the instruction after the call. Frames at different depths have no byte in common. -/
theorem calls_nest (h : Linked s₀ pending s) :
    (∀ (now : Nat) (next : Word) (opcode : Opcode) (o : Operand) (core : Core), s.core.cpu.psd.BasedUnmapped →
      s.Meets next opcode o core → o.Calls opcode → s.core.bases.2.toNat % 4 = 0 →
      (∀ n, (s.linkage next).HasByte n → n < s.core.memory.sizeBytes) → ∃ s', s.MakesCall now (s.linkage next) s') ∧
    (∀ (now : Nat) (link : Linkage) (rest : List Linkage), pending = link :: rest → s.core.cpu.psd.BasedUnmapped →
      s.AtReturn → ∃ duration s', executeInstruction now s = .ok duration s' ∧
        s'.core.linkage s'.core.cpu.psd.address = link) ∧
    ∀ (link : Linkage) (rest : List Linkage), link :: rest <:+ pending →
      ∀ (pending' : List Linkage) (s' : Hardware δ ω) (link' : Linkage) (rest' : List Linkage), Linked s₀ pending' s' →
        link' :: rest' <:+ pending' → rest'.length ≠ rest.length → link.Apart link' := by
  have hstanding := standing_of_linked h
  refine ⟨fun now next opcode o core hmode hmeets hcalls => calls_of_room now hmode hmeets hcalls, ?_, ?_⟩
  · rintro now link rest rfl hmode hreturn
    obtain ⟨duration, s', hexecute, hlinkage, -⟩ := returns_of_held now hmode hreturn
      (hstanding.held link List.mem_cons_self) (congrArg Prod.fst hstanding.bases)
    exact ⟨duration, s', hexecute, hlinkage⟩
  · intro link rest hsuffix pending' s' link' rest' h' hsuffix' hdepth
    have hstanding' := standing_of_linked h'
    exact hstanding.stacked.apart hstanding.room hsuffix hstanding'.stacked hstanding'.room hsuffix' hdepth.symm

/-- A program at zero calls the subroutine at 8, which changes the condition codes and calls the one at `0x14`. Base
register 2 points to the end of memory. -/
def twoCalls : Hardware StandardDevice Char where
  core :=
    { cpu := { Cpu.initial .c3287 0 with
        psd := ⟨0xC2000000#32, 0⟩
        base := #v[0, 0, 0x30#32, 8#32, 0x14#32, 0, 0, 0] }
      memory := ⟨#[0x28380002#32, 0, 0xC8800000#32, 0x28480002#32, 0x280E0002#32, 0x280E0002#32, 0, 0, 0, 0, 0, 0],
        by simp⟩ }
  channels := .empty

/-- The machine after a number of instructions. -/
def calling : Nat → Hardware StandardDevice Char
  | 0 => twoCalls
  | n + 1 => after (executeInstruction 0) (calling n)

/-- In the second subroutine two calls have not returned. -/
theorem linked_calling : Linked twoCalls [(calling 2).linkage 0x10, twoCalls.linkage 4] (calling 3) := by
  have hfirst : twoCalls.MakesCall 0 (twoCalls.linkage 4) (calling 1) := .mk (.mk rfl rfl) (.register rfl) rfl rfl
  have hstart : Linked twoCalls [] twoCalls := .start
  have hrun := hstart.called ⟨rfl, rfl⟩ (by decide) hfirst
  have hsecond : (calling 2).MakesCall 0 ((calling 2).linkage 0x10) (calling 3) :=
    .mk (.mk rfl rfl) (.register rfl) rfl rfl
  have hrun' : Linked twoCalls [twoCalls.linkage 4] (calling 2) :=
    hrun.other rfl (List.forall_mem_singleton.mpr ⟨rfl, rfl⟩)
  exact hrun'.called ⟨rfl, rfl⟩ (by decide) hsecond

/-- Both subroutines return, and the program goes on at 4 with the condition codes of the first call. -/
theorem calls_nest_twice : Linked twoCalls [(calling 2).linkage 0x10, twoCalls.linkage 4] (calling 3) ∧
    ((calling 2).linkage 0x10).Apart (twoCalls.linkage 4) ∧
    (∃ duration, executeInstruction 0 (calling 3) = .ok duration (calling 4)) ∧
    ∃ duration s', executeInstruction 0 (calling 4) = .ok duration s' ∧ s'.core.bases = (0, 0x30#32) ∧
      s'.core.cpu.psd.codes = ⟨8#4⟩ ∧ s'.core.cpu.psd.address = 4#32 := by
  have hreturn : (calling 3).AtReturn := ⟨_, _, _, .mk rfl rfl, rfl⟩
  have hreturn' : (calling 4).AtReturn := ⟨_, _, _, .mk rfl rfl, rfl⟩
  obtain ⟨-, hreturns, hapart⟩ := calls_nest linked_calling
  obtain ⟨duration, s, hexecute, -⟩ := hreturns 0 _ _ rfl ⟨rfl, rfl⟩ hreturn
  have hnext : s = calling 4 := by
    rw [calling, after, hexecute]
  subst hnext
  have hinner : Linked twoCalls [twoCalls.linkage 4] (calling 4) := linked_calling.returned ⟨rfl, rfl⟩ hreturn hexecute
  obtain ⟨duration', s', hexecute', hlinkage⟩ := (calls_nest hinner).2.1 0 _ _ rfl ⟨rfl, rfl⟩ hreturn'
  refine ⟨linked_calling, hapart _ _ (List.suffix_refl _) _ _ _ _ linked_calling (List.suffix_cons _ _) (by decide),
    ⟨duration, hexecute⟩, duration', s', hexecute', ?_⟩
  have hlink : twoCalls.linkage 4 = ⟨0, 0x30#32, ⟨8#4⟩, 4#32⟩ := by decide +kernel
  rw [hlink] at hlinkage
  exact ⟨Prod.ext (congrArg Linkage.caller hlinkage) (congrArg Linkage.top hlinkage), congrArg Linkage.codes hlinkage,
    congrArg Linkage.resume hlinkage⟩

end Hardware
end Concept32
