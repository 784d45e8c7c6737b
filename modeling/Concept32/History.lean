import Concept32.Opcode
import Concept32.Psd

/-!
# The history of executed instructions

The processor remembers the last instructions that it executed, up to a number set when it is built.
-/

namespace Concept32

/-- An instruction that was executed. -/
structure HistoryEntry where
  /-- The status doubleword when the instruction was fetched. -/
  before : Psd
  instruction : Instruction
  /-- The status doubleword when the instruction had completed or trapped. -/
  after : Psd
  gpr : Vector Word 8

/-- The address, the bits and the name of the instruction, the condition codes and the registers that it
left. -/
def HistoryEntry.text (e : HistoryEntry) : String :=
  let based := e.before.based
  let bits :=
    if e.instruction.isHalfword based then hexBits e.instruction.upperHalf else e.instruction.text
  let name := (e.instruction.mnemonic based).getD "???"
  let registers := (List.finRange 8).map fun n => " R" ++ toString n.val ++ "=" ++ hexBits (e.gpr.get n)
  hex 6 e.before.address.toNat ++ " " ++ bits ++ " " ++
    String.ofList (name.toList.rightpad 6 ' ') ++ " CC=" ++ e.after.codes.text ++ String.join registers

/-- The last entries that were recorded. -/
structure History where
  /-- How many entries are remembered. -/
  capacity : Nat
  /-- The newest entry and those before it; what is beyond `capacity` is forgotten. -/
  recent : List HistoryEntry
  stored : Nat
  stored_eq : stored = recent.length

namespace History

/-- A history without entries. -/
def empty (capacity : Nat) : History := ⟨capacity, [], 0, rfl⟩

/-- The entries that are remembered, the oldest first. -/
def entries (h : History) : List HistoryEntry := (h.recent.take h.capacity).reverse

/-- The number of entries that are remembered. -/
def size (h : History) : Nat := min h.capacity h.stored

@[simp] theorem length_entries (h : History) : h.entries.length = h.size := by
  simp [entries, size, h.stored_eq]

/-- The history with one more entry, in place of the oldest if there is no room. Entries that are
forgotten are dropped when they are as many as the others. -/
def record (h : History) (e : HistoryEntry) : History :=
  if h.stored + 1 < 2 * h.capacity then
    ⟨h.capacity, e :: h.recent, h.stored + 1, by simp [h.stored_eq]⟩
  else
    let kept := (e :: h.recent).take h.capacity
    ⟨h.capacity, kept, kept.length, rfl⟩

/-- The newest entries are remembered, one more than before and at most `capacity`. -/
theorem entries_record (h : History) (e : HistoryEntry) :
    (h.record e).entries = ((e :: h.recent).take h.capacity).reverse := by
  rw [record]
  split <;> simp [entries, List.take_take]

/-- The history without entries. -/
def clear (h : History) : History := empty h.capacity

end History
end Concept32
