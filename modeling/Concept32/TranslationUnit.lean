import Concept32.MapEntry
import Concept32.Trap

/-!
# The translation unit

The translation unit turns the logical addresses of a mapped program into physical ones. It has room for as
many entries as its scheme allows, and keeps each as it was in memory and as what it means. A map is loaded
as a whole from lists in memory: the master process list has, at the program's index, the number of segments
and the address of their descriptors; a descriptor has the address of an array of map entries and their
number; the entries of all segments in order are the map of pages 0, 1, 2 and so on. They are read before
any is put into the unit, and what an earlier map has beyond them is cleared.
-/

namespace Concept32

/-- The mapping hardware of a model. -/
structure TranslationUnit where
  scheme : MapScheme
  /-- The entries of the logical pages, as they were in memory. -/
  raw : Vector Word scheme.capacity
  /-- What the entries mean. -/
  table : Vector MapEntry scheme.capacity
  /-- The number of entries of the map that was loaded last. -/
  size : Nat
  size_le : size ≤ scheme.capacity

inductive MapLoadError
  /-- A list or an entry cannot be read. -/
  | memory (error : MemoryError)
  /-- The segments have more entries than the hardware holds. -/
  | tooManyEntries (wanted limit : Nat)
  deriving DecidableEq, Repr

/-- The trap that a failure to load a map raises. -/
def MapLoadError.trap : MapLoadError → Trap
  | .memory _ => .machineCheck
  | .tooManyEntries .. => .mapFault

inductive AddressFault
  /-- The page has no valid entry. -/
  | noEntry (logical : Word)
  | notResident (logical page : Word)
  /-- The page does not allow this access. -/
  | protection (logical : Word)
  | nonPresent (physical : Word)
  deriving DecidableEq, Repr

namespace AddressFault

def trap : AddressFault → Trap
  | .noEntry _ => .mapFault
  | .notResident _ page => .demandPage page
  | .protection _ => .privilegeViolation
  | .nonPresent _ => .nonPresentMemory

def message : AddressFault → String
  | .noEntry logical => "no valid map entry for logical address " ++ hex 6 logical.toNat
  | .notResident logical page =>
    "page " ++ hex 1 page.toNat ++ " (logical address " ++ hex 6 logical.toNat ++ ") is not resident"
  | .protection logical =>
    "access to logical address " ++ hex 6 logical.toNat ++ " violates page protection"
  | .nonPresent physical =>
    "physical address " ++ hex 6 physical.toNat ++ " is beyond the end of memory"

end AddressFault

namespace TranslationUnit

/-- A unit without a map. -/
def new (scheme : MapScheme) : TranslationUnit where
  scheme := scheme
  raw := Vector.replicate _ 0
  table := Vector.replicate _ .none
  size := 0
  size_le := Nat.zero_le _

def clear (u : TranslationUnit) : TranslationUnit := new u.scheme

/-- The entry of a logical page as it was in memory, if the hardware has the page. -/
def raw? (u : TranslationUnit) (page : Nat) : Option Word := u.raw[page]?

/-- What the unit knows of a logical page. -/
def entry? (u : TranslationUnit) (page : Nat) : Option MapEntry := u.table[page]?

/-- The entries of the map that was loaded last. -/
def loaded (u : TranslationUnit) : Array Word := u.raw.toArray.take u.size

/-! ### Reading the lists -/

/-- Entry `index` of the array of map entries at an address. -/
def readEntry (scheme : MapScheme) (mem : Memory) (array : Word) (index : Nat) :
    Except MemoryError Word :=
  let a := array + BitVec.ofNat 32 (index * scheme.entryBytes)
  if scheme.entryBytes = 4 then mem.readWord a else (mem.readHalf a).map fun h => h.setWidth 32

/-- The entries from `index` on of an array, `count` of them, put after those already found. -/
def readEntries (scheme : MapScheme) (mem : Memory) (array : Word) :
    Nat → Nat → Array Word → Except MapLoadError (Array Word)
  | 0, _, found => .ok found
  | count + 1, index, found =>
    match readEntry scheme mem array index with
    | .error e => .error (.memory e)
    | .ok raw => readEntries scheme mem array count (index + 1) (found.push raw)

/-- The entries of a segment, put after those already found. -/
def readSegment (scheme : MapScheme) (mem : Memory) (descriptor : Word) (found : Array Word) :
    Except MapLoadError (Array Word) := do
  let array ← (mem.readWord descriptor).mapError .memory
  let count ← (mem.readWord (descriptor + 4)).mapError .memory
  let count := (count &&& 0x0000FFFF#32).toNat
  let wanted := found.size + count
  if scheme.capacity < wanted then .error (.tooManyEntries wanted scheme.capacity)
  else readEntries scheme mem (array &&& 0x00FFFFFE#32) count 0 found

/-- The entries of the segments from `index` on of a list, put after those already found. -/
def readSegments (scheme : MapScheme) (mem : Memory) (list : Word) :
    Nat → Nat → Array Word → Except MapLoadError (Array Word)
  | 0, _, found => .ok found
  | count + 1, index, found =>
    match readSegment scheme mem (list + BitVec.ofNat 32 (index * 8)) found with
    | .error e => .error e
    | .ok found => readSegments scheme mem list count (index + 1) found

/-- All entries of the map of the program with an index into the process list. -/
def readMap (scheme : MapScheme) (mem : Memory) (processList cpix : Word) :
    Except MapLoadError (Array Word) := do
  let entry := wordBoundary (processList + cpix)
  let segments ← (mem.readWord entry).mapError .memory
  let list ← (mem.readWord (entry + 4)).mapError .memory
  readSegments scheme mem (list &&& 0x00FFFFFC#32) (segments &&& 0x0000FFFF#32).toNat 0 #[]

theorem size_readEntries {scheme : MapScheme} {mem : Memory} {array : Word} {count index : Nat}
    {found all : Array Word} (h : readEntries scheme mem array count index found = .ok all) :
    all.size = found.size + count := by
  induction count generalizing index found with
  | zero => cases h; rfl
  | succ count ih =>
    rw [readEntries] at h
    split at h
    · cases h
    · rw [ih h, Array.size_push]; omega

theorem size_readSegment_le {scheme : MapScheme} {mem : Memory} {descriptor : Word}
    {found all : Array Word} (h : readSegment scheme mem descriptor found = .ok all) :
    all.size ≤ scheme.capacity := by
  simp only [readSegment, bind, Except.bind] at h
  split at h
  · cases h
  split at h
  · cases h
  split at h
  · cases h
  · rw [size_readEntries h]; omega

theorem size_readSegments_le {scheme : MapScheme} {mem : Memory} {list : Word} {count index : Nat}
    {found all : Array Word} (hf : found.size ≤ scheme.capacity)
    (h : readSegments scheme mem list count index found = .ok all) : all.size ≤ scheme.capacity := by
  induction count generalizing index found with
  | zero => cases h; exact hf
  | succ count ih =>
    rw [readSegments] at h
    split at h
    · cases h
    · next hs => exact ih (size_readSegment_le hs) h

theorem size_readMap_le {scheme : MapScheme} {mem : Memory} {processList cpix : Word}
    {all : Array Word} (h : readMap scheme mem processList cpix = .ok all) :
    all.size ≤ scheme.capacity := by
  simp only [readMap, bind, Except.bind] at h
  split at h
  · cases h
  split at h
  · cases h
  · exact size_readSegments_le (by simp) h

/-! ### Loading -/

/-- The unit with an entry for a page. -/
def put (u : TranslationUnit) (page : Nat) (raw : Word) (entry : MapEntry) (h : page < u.scheme.capacity) :
    TranslationUnit :=
  { u with
    raw := u.raw.set page raw h
    table := u.table.set page entry h }

/-- Entries put in from a page on. -/
def write (u : TranslationUnit) (page : Nat) :
    (entries : List Word) → page + entries.length ≤ u.scheme.capacity → TranslationUnit
  | [], _ => u
  | raw :: rest, h =>
    (u.put page raw (u.scheme.decode raw) (by rw [List.length_cons] at h; omega)).write (page + 1) rest
      (by rw [List.length_cons] at h; show page + 1 + rest.length ≤ u.scheme.capacity; omega)

/-- The entries of a number of pages cleared, from a page on. -/
def erase (u : TranslationUnit) (page : Nat) : (count : Nat) → page + count ≤ u.scheme.capacity → TranslationUnit
  | 0, _ => u
  | count + 1, h =>
    (u.put page 0 .none (by omega)).erase (page + 1) count
      (by show page + 1 + count ≤ u.scheme.capacity; omega)

theorem scheme_write {u : TranslationUnit} {page : Nat} {entries : List Word}
    (h : page + entries.length ≤ u.scheme.capacity) : (u.write page entries h).scheme = u.scheme := by
  induction entries generalizing u page with
  | nil => rfl
  | cons raw rest ih => rw [write, ih]; rfl

/-- The unit with a map of these entries in place of the one before. What that had beyond them is cleared. -/
def install (u : TranslationUnit) (entries : List Word) (h : entries.length ≤ u.scheme.capacity) : TranslationUnit :=
  let sized : TranslationUnit := { u with size := entries.length, size_le := h }
  (sized.write 0 entries (by simpa using h)).erase entries.length (max u.size entries.length - entries.length)
    (by rw [scheme_write]; have := u.size_le; show _ ≤ u.scheme.capacity; omega)

/-- Load the map of the program with an index into the process list. Nothing is changed before all of its
entries have been read. -/
def load (mem : Memory) (processList cpix : Word) : EStateM MapLoadError TranslationUnit Unit := fun u =>
  match h : readMap u.scheme mem processList cpix with
  | .error e => .error e u
  | .ok entries => .ok () (u.install entries.toList (size_readMap_le h))

/-! ### From logical to physical addresses -/

/-- The physical address of a logical address in mapped mode, which may be beyond the end of memory. -/
def mappedAddress (u : TranslationUnit) (logical : Word) (access : Access) (privileged : Bool) :
    Except AddressFault Word :=
  let shift := u.scheme.pageShift
  let page := logical >>> shift
  match u.entry? page.toNat with
  | none => .error (.noEntry logical)
  | some entry =>
    if !entry.valid then .error (.noEntry logical)
    else if !entry.resident then .error (.notResident logical page)
    else if !entry.protection.permits access privileged then .error (.protection logical)
    else .ok ((entry.frame <<< shift) ||| (logical &&& ((1#32 <<< shift) - 1)))

/-- The physical address of a logical address, of which the low 24 bits count. Without mapping it is the
logical address itself. -/
def translate (u : TranslationUnit) (logical : Word) (access : Access) (mapped privileged : Bool)
    (memoryBytes : Nat) : Except AddressFault Word := do
  let logical := logical &&& 0x00FFFFFF#32
  let physical ← if mapped then u.mappedAddress logical access privileged else .ok logical
  if physical.toNat < memoryBytes then .ok physical else .error (.nonPresent physical)

end TranslationUnit
end Concept32
