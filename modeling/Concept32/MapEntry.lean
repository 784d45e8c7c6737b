import Concept32.Model
import Concept32.Word

/-!
# Map entries

A map entry says whether a logical page is valid and resident, to which physical page it goes and who
may access it how. The mapping schemes differ in the size of a page, in the number and width of their
entries and in what the bits of an entry mean.
-/

namespace Concept32

/-- A way to access memory. -/
inductive Access
  | read
  | write
  | execute
  deriving DecidableEq, Repr

/-- Who may do what on a page; privileged programs may always read. -/
structure Protection where
  userRead : Bool
  userWrite : Bool
  privilegedWrite : Bool
  deriving DecidableEq, Repr

namespace Protection

/-- Everything is allowed. -/
def full : Protection := ⟨true, true, true⟩

/-- The access is allowed to a program of this privilege. -/
def permits (p : Protection) (access : Access) (privileged : Bool) : Bool :=
  match access, privileged with
  | .read, true | .execute, true => true
  | .read, false | .execute, false => p.userRead
  | .write, true => p.privilegedWrite
  | .write, false => p.userWrite

/-- The protection that a two-bit access code means. -/
def ofCode (code : Nat) : Protection :=
  match code with
  | 0 => full
  | 1 => ⟨true, false, true⟩
  | 2 => ⟨false, false, true⟩
  | _ => ⟨true, false, false⟩

end Protection

/-- What a map entry says of a logical page. -/
structure MapEntry where
  valid : Bool
  resident : Bool
  /-- The physical page. -/
  frame : Word
  protection : Protection
  deriving DecidableEq, Repr

/-- The entry of a page of which the hardware knows nothing. -/
def MapEntry.none : MapEntry := ⟨false, false, 0, ⟨false, false, false⟩⟩

namespace MapScheme

def name : MapScheme → String
  | .concept7x => "32/7x"
  | .concept27 => "32/27"
  | .concept67 => "32/67"
  | .paged => "V6/V9"

/-- A page has two to this power bytes. -/
def pageShift : MapScheme → Nat
  | .concept7x => 15
  | _ => 13

/-- The number of entries that the hardware holds. -/
def capacity : MapScheme → Nat
  | .concept7x => 32
  | .concept27 | .concept67 => 256
  | .paged => 2048

/-- The number of bytes of an entry in memory. -/
def entryBytes : MapScheme → Nat
  | .paged => 4
  | _ => 2

/-- What the bits of an entry mean. -/
def decode (s : MapScheme) (raw : Word) : MapEntry :=
  match s with
  | .concept7x =>
    { valid := hasAny raw 0x8000#32
      resident := true
      frame := raw &&& 0x01FF#32
      protection := ⟨true, !hasAny raw 0x4000#32, true⟩ }
  | .concept27 =>
    let closed := hasAny raw 0x2000#32
    { valid := hasAny raw 0x8000#32
      resident := true
      frame := raw &&& 0x07FF#32
      protection := ⟨!closed, !closed && !hasAny raw 0x4000#32, true⟩ }
  | .concept67 =>
    { valid := hasAny raw 0x8000#32
      resident := true
      frame := raw &&& 0x07FF#32
      protection := .ofCode (raw.extractLsb' 13 2).toNat }
  | .paged =>
    { valid := hasAny raw 0x80000000#32
      resident := hasAny raw 0x40000000#32
      frame := raw &&& 0x07FF#32
      protection := .ofCode (raw.extractLsb' 26 2).toNat }

end MapScheme
end Concept32
