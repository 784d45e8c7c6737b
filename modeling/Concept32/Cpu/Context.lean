import Concept32.Cpu.Access

/-!
# Context switching

Traps, interrupts and supervisor calls exchange the status doubleword through a context block in physical
memory. Words 0 and 1 of the block receive the old doubleword and words 2 and 3 hold the new one; words 4
and 5 serve for status. A block is found through a table of addresses, in which zero means that there is
none.
-/

namespace Concept32

/-- The context block to which a table entry points. -/
def Memory.contextBlock? (m : Memory) (entry : Word) : Option Word :=
  match m.readWord entry with
  | .ok w => let block := w &&& 0x00FFFFFC#32; if block = 0 then none else some block
  | .error _ => none

/-- The context block of an interrupt level, if there is an interrupt table. -/
def Cpu.levelBlock? (c : Cpu) (m : Memory) (level : Nat) : Option Word :=
  let table := c.scratchpad.interruptTable
  if table = 0 then none else m.contextBlock? (table + BitVec.ofNat 32 (4 * level))

/-- The entry of a trap in the trap table. -/
def Cpu.trapEntry (c : Cpu) (t : Trap) : Word := c.scratchpad.trapTable + BitVec.ofNat 32 t.tableOffset

namespace Exec

/-- Load the map of the program with an index into the process list. -/
def loadMap (cpix : Word) : Exec Unit := fun ⟨cpu, memory⟩ =>
  match AddressMap.reload memory cpu.scratchpad.processList cpix cpu.map with
  | .ok _ map => .ok () ⟨{ cpu with map := map }, memory⟩
  | .error e map => .error e.trap ⟨{ cpu with map := map }, memory⟩

/-- Put a status doubleword in force. If it is mapped its map is loaded first, when that is asked for. -/
def loadPsd (p : Psd) (changeMaps : Bool) : Exec Unit := do
  if p.mapped && changeMaps then loadMap p.cpix
  match p.blocking with
  | .block => modifyCpu fun c => c.withBlocked true
  | .unblock => modifyCpu fun c => c.withBlocked false
  | .retain => pure ()
  modifyPsd fun _ => p

/-- The status doubleword at a physical address. -/
def readPsd (a : Word) : Exec Psd := do
  let word1 ← fromMemory fun m => m.readWord a
  let word2 ← fromMemory fun m => m.readWord (a + 4)
  return ⟨word1, word2⟩

/-- Leave the current program, which is to go on at `resume`, for the one in a context block. -/
def exchange (block resume : Word) : Exec Unit := do
  let old := (← psd).withAddress resume
  let blocked ← ask Cpu.interruptsBlocked
  toMemory (Memory.writeWord block old.word1)
  toMemory (Memory.writeWord (block + 4) (old.savedWord2 blocked))
  let new ← readPsd (block + 8)
  loadPsd new (!new.retainsMaps)

/-- Start running under the status doubleword at a physical address. -/
def startAt (a : Word) : Exec Unit := do
  loadPsd (← readPsd a) true
  modifyCpu fun c => { c with mode := .running }

end Exec
end Concept32
