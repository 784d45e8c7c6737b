import Concept32.Proofs.Addressing
import Concept32.Proofs.Recurrence

/-!
# Chains of indirect words

Where a reference leads when indirect words are followed for as long as there are any, and how many there are. What an
instruction follows within its limit leads to the same place; a chain that is longer, or that comes back to where it
was, is stopped.
-/

namespace Concept32

/-- What something may come to that follows indirect words, with the number that it follows. -/
abbrev Counted (α : Type) := Nat → Except Trap α → Prop

namespace Counted
variable {α β : Type}

/-- It comes to this without an indirect word. -/
inductive Plain (result : Except Trap α) : Counted α
  | mk : Plain result 0 result

/-- What comes of it is gone on with, unless it fails; the indirect words are counted together. -/
inductive Then (R : Counted α) (R' : α → Counted β) : Counted β
  | fails {n : Nat} {t : Trap} (h : R n (.error t)) : Then R R' n (.error t)
  | goesOn {m n : Nat} {a : α} {result : Except Trap β} (h : R m (.ok a)) (h' : R' a n result) :
    Then R R' (m + n) result

/-- It comes to one thing only. -/
def Unique (R : Counted α) : Prop :=
  ∀ m n result result', R m result → R n result' → m = n ∧ result = result'

theorem Unique.plain {result : Except Trap α} : (Plain result).Unique := by
  rintro _ _ _ _ ⟨⟩ ⟨⟩
  exact ⟨rfl, rfl⟩

theorem Unique.andThen {R : Counted α} {R' : α → Counted β} (h : R.Unique) (h' : ∀ a, (R' a).Unique) :
    (R.Then R').Unique := by
  rintro _ _ _ _ (hfails | ⟨hok, hrest⟩) (hfails' | ⟨hok', hrest'⟩)
  · obtain ⟨rfl, hsame⟩ := h _ _ _ _ hfails hfails'
    cases hsame
    exact ⟨rfl, rfl⟩
  · cases (h _ _ _ _ hfails hok').2
  · cases (h _ _ _ _ hok hfails').2
  · obtain ⟨rfl, hsame⟩ := h _ _ _ _ hok hok'
    cases hsame
    obtain ⟨rfl, rfl⟩ := h' _ _ _ _ _ hrest hrest'
    exact ⟨rfl, rfl⟩

end Counted

/-! ### References -/

namespace Reference

/-- The reference by which an instruction without base registers begins. -/
def ofInstruction (i : Instruction) (isIndexed : Bool) : Reference :=
  ⟨i.address, if isIndexed then i.indexRegister else Exec.noIndex, i.indirect, i.fBit, none⟩

/-- Where a reference leads, when references have addresses and indirect words: to an address, which is that of the
reference in the last word, or to the trap that a word raises. -/
inductive Leads (address : Reference → Word) (word : Reference → Except Trap Word) : Reference → Counted (Word × Reference)
  | ends {r : Reference} (hdirect : r.indirect = false) : Leads address word r 0 (.ok (address r, r))
  | breaks {r : Reference} {t : Trap} (hindirect : r.indirect = true) (hword : word r = .error t) :
    Leads address word r 1 (.error t)
  | goesOn {r : Reference} {w : Word} {n : Nat} {result : Except Trap (Word × Reference)} (hindirect : r.indirect = true)
      (hword : word r = .ok w) (hrest : Leads address word (.ofWord w) n result) : Leads address word r (n + 1) result

variable {address : Reference → Word} {word : Reference → Except Trap Word} {r : Reference} {n : Nat}
  {result : Except Trap (Word × Reference)}

end Reference

/-! ### What is read without a note of it -/

namespace Core
variable {s s' s'' : Core} {m n : Nat}

/-- What lies at a logical address, or the trap that the access raises. -/
def found {β : Type} (s : Core) (access : Access) (alignment : Nat) (read : Word → Memory → Except MemoryError β)
    (a : Word) : Except Trap β :=
  if a.toNat % alignment = 0 then
    match s.cpu.map.translate a access s.cpu.psd.mapped s.cpu.psd.privileged s.memory.sizeBytes with
    | .ok physical => (read physical s.memory).mapError .ofMemoryError
    | .error fault => .error fault.trap
  else .error .addressSpecification

def wordFound (s : Core) (access : Access) : Word → Except Trap Word :=
  s.found access 4 fun physical memory => memory.readWord physical

def halfFound (s : Core) : Word → Except Trap Half :=
  s.found .read 2 fun physical memory => memory.readHalf physical

/-- The address of a reference: its index register is added, and the sum is cut to what the mode reaches. -/
def addressOf (s : Core) (r : Reference) : Word :=
  (if r.index.val = 0 then r.address else r.address + s.cpu.gpr.get (r.index.castAdd 4)) &&&
    s.cpu.psd.addressMask

/-- The indirect word of a reference. -/
def indirectWord (s : Core) (r : Reference) : Except Trap Word := s.wordFound .read (wordBoundary (s.addressOf r))

/-- Where a reference leads. -/
def Leads (s : Core) : Reference → Counted (Word × Reference) := Reference.Leads s.addressOf s.indirectWord

/-- The operand whose address base registers give. -/
def basedOperand (s : Core) (i : Instruction) (isIndexed : Bool) (next : Word) : Operand :=
  let index := if isIndexed && i.basedIndexRegister.val ≠ 0 then s.cpu.gpr.get i.basedIndexRegister else 0
  let origin := if i.baseRegister.val ≠ 0 then s.cpu.base.get i.baseRegister else 0
  let address := (i.displacement + index + origin) &&& s.cpu.psd.addressMask
  ⟨i, address, i.fBit, .decode i.fBit address, none, next⟩

/-- The operand in memory of an instruction. Without base registers the last reference has its F bit, and the last
indirect word its condition codes. -/
def Resolves (s : Core) (i : Instruction) (isIndexed : Bool) (next : Word) : Counted Operand :=
  if s.cpu.psd.based then .Plain (.ok (s.basedOperand i isIndexed next))
  else (s.Leads (.ofInstruction i isIndexed)).Then fun (address, last) =>
    .Plain (.ok ⟨i, address, last.fBit, .decode last.fBit address, last.codes, next⟩)

/-- The operand of an instruction of a format. -/
def Locates (s : Core) (i : Instruction) (format : Format) (next : Word) : Counted Operand :=
  match format with
  | .halfword | .immediate => .Plain (.ok (.withoutAddress i next))
  | .memory => s.Resolves i true next
  | .memoryNoIndex => s.Resolves i false next

/-- Nothing has changed, but so many more indirect words have been noted, and perhaps where an access failed. -/
def Noted (n : Nat) (s s' : Core) : Prop :=
  ∃ address, s' = ⟨{ s.cpu with faultAddress := address, indirections := s.cpu.indirections + n }, s.memory⟩

theorem Noted.refl : Noted 0 s s := ⟨s.cpu.faultAddress, rfl⟩

theorem Noted.trans (h : Noted m s s') (h' : Noted n s' s'') : Noted (m + n) s s'' := by
  obtain ⟨_, rfl⟩ := h
  obtain ⟨address, rfl⟩ := h'
  exact ⟨address, by rw [Nat.add_assoc]⟩

theorem Noted.same (h : Noted n s s') : Same s s' := by
  obtain ⟨address, rfl⟩ := h
  exact ⟨address, _, rfl⟩

end Core

namespace Exec
open Concept32.Core EStateM Counted
variable {α β : Type} {s s' : Core} {left n : Nat} {a : Word} {r : Reference} {i : Instruction} {isIndexed : Bool}
  {format : Format} {next : Word}

/-- A step ended with what was expected, and noted so many indirect words. -/
inductive Expected (n : Nat) (s : Core) : Except Trap α → EStateM.Result Trap Core α → Prop
  | ok {a : α} {s' : Core} (h : s.Noted n s') : Expected n s (.ok a) (.ok a s')
  | error {t : Trap} {s' : Core} (h : s.Noted n s') : Expected n s (.error t) (.error t s')

/-- A step that may follow so many indirect words ended with what they lead to, or was stopped since there are more. -/
inductive Follows (R : Counted α) (left : Nat) (s : Core) : EStateM.Result Trap Core α → Prop
  | within {n : Nat} {expected : Except Trap α} {result : EStateM.Result Trap Core α} (hwithin : n ≤ left)
      (h : R n expected) (hresult : Expected n s expected result) : Follows R left s result
  | beyond {s' : Core} (hbeyond : ∀ {n expected}, R n expected → left < n) (h : s.Noted (left + 1) s') :
    Follows R left s (.error .addressSpecification s')

theorem Expected.after {m : Nat} {x : Except Trap α} {result : EStateM.Result Trap Core α} (h : s.Noted m s')
    (hresult : Expected n s' x result) : Expected (m + n) s x result := by
  cases hresult with
  | ok h' => exact .ok (h.trans h')
  | error h' => exact .error (h.trans h')

theorem Expected.of_ok {a : α} {result : EStateM.Result Trap Core α} (h : Expected n s (.ok a) result) :
    ∃ s', result = .ok a s' ∧ s.Noted n s' := by
  cases h with
  | ok hnoted => exact ⟨_, rfl, hnoted⟩

theorem Expected.of_error {t : Trap} {result : EStateM.Result Trap Core α} (h : Expected n s (.error t) result) :
    ∃ s', result = .error t s' ∧ s.Noted n s' := by
  cases h with
  | error hnoted => exact ⟨_, rfl, hnoted⟩

theorem Follows.plain {x : Except Trap α} {result : EStateM.Result Trap Core α} (h : Expected 0 s x result) :
    Follows (.Plain x) left s result :=
  .within (Nat.zero_le left) .mk h

theorem Follows.pure {x : α} : Follows (.Plain (.ok x)) left s ((Pure.pure x : Exec α) s) := .plain (.ok .refl)

theorem Follows.throw {t : Trap} : Follows (.Plain (.error t)) left s ((throw t : Exec α) s) := .plain (.error .refl)

/-- What two steps follow counts together. -/
theorem Follows.bind {R : Counted α} {R' : α → Counted β} {x : Exec α} {f : α → Exec β} (hunique : R.Unique)
    (hx : Follows R left s (x s))
    (hf : ∀ a n s', n ≤ left → s.Noted n s' → Follows (R' a) (left - n) s' (f a s')) :
    Follows (R.Then R') left s ((x >>= f) s) := by
  cases hresult : x s with
  | ok a t =>
    rw [bind_of_ok hresult]
    rw [hresult] at hx
    obtain ⟨hwithin, h, ⟨hnoted⟩⟩ | _ := hx
    have hrest := hf a _ t hwithin hnoted
    generalize f a t = result at hrest ⊢
    cases hrest with
    | within hwithin' h' hresult' => exact .within (by omega) (.goesOn h h') (hresult'.after hnoted)
    | beyond hbeyond hnoted' =>
      refine .beyond (fun hthen => ?_) ?_
      · cases hthen with
        | fails hfails => cases (hunique _ _ _ _ h hfails).2
        | goesOn hok hrest =>
          obtain ⟨rfl, hsame⟩ := hunique _ _ _ _ h hok
          cases hsame
          have hlt := hbeyond hrest
          omega
      · have hsum := hnoted.trans hnoted'
        rwa [← Nat.add_assoc, Nat.add_sub_cancel' hwithin] at hsum
  | error t u =>
    rw [bind_of_error hresult]
    rw [hresult] at hx
    cases hx with
    | within hwithin h hresult' =>
      cases hresult' with
      | error hnoted => exact .within hwithin (.fails h) (.error hnoted)
    | beyond hbeyond hnoted =>
      refine .beyond (fun hthen => ?_) hnoted
      cases hthen with
      | fails hfails => exact hbeyond hfails
      | goesOn hok _ => exact Nat.lt_add_right _ (hbeyond hok)

/-- What is within the limit is what comes of the step. -/
theorem Follows.expected {R : Counted α} {expected : Except Trap α} {result : EStateM.Result Trap Core α}
    (hresult : Follows R left s result) (hunique : R.Unique) (h : R n expected) (hwithin : n ≤ left) :
    Expected n s expected result := by
  cases hresult with
  | within _ h' hresult =>
    obtain ⟨rfl, rfl⟩ := hunique _ _ _ _ h h'
    exact hresult
  | beyond hbeyond => exact absurd (hbeyond h) (Nat.not_lt.mpr hwithin)

/-- What is beyond the limit is not followed. -/
theorem Follows.stopped {R : Counted α} {result : EStateM.Result Trap Core α} (hresult : Follows R left s result)
    (h : ∀ n expected, R n expected → left < n) :
    ∃ s', s.Noted (left + 1) s' ∧ result = .error .addressSpecification s' := by
  cases hresult with
  | within hwithin h' => exact absurd (h _ _ h') (Nat.not_lt.mpr hwithin)
  | beyond _ hnoted => exact ⟨_, hnoted, rfl⟩

/-! ### Following -/

end Exec
end Concept32
