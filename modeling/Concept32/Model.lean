import Concept32.Text.Blank

/-!
# Processor models and memory sizes

The models of the family differ in their memory mapping hardware, in their addressing modes and in how
they fetch halfword instructions. Memory comes in nine sizes.
-/

namespace Concept32

inductive Model
  | c3227 | c3255 | c3267 | c3275 | c3287 | c3297 | v6 | v9
  deriving DecidableEq, Repr

/-- A family of memory mapping hardware. -/
inductive MapScheme
  /-- 32/55 and 32/75: 32 map registers for 32 KB each. -/
  | concept7x
  /-- 32/27: 256 map registers for 8 KB each, with write protection. -/
  | concept27
  /-- 32/67, 32/87 and 32/97: 256 map registers for 8 KB each, with an access code. -/
  | concept67
  /-- V6 and V9: 2048 map entries for 8 KB each, with an access code and a residency bit. -/
  | paged
  deriving DecidableEq, Repr

namespace Model

def all : List Model := [.c3227, .c3255, .c3267, .c3275, .c3287, .c3297, .v6, .v9]

def name : Model → String
  | .c3227 => "32/27"
  | .c3255 => "32/55"
  | .c3267 => "32/67"
  | .c3275 => "32/75"
  | .c3287 => "32/87"
  | .c3297 => "32/97"
  | .v6 => "V6"
  | .v9 => "V9"

def mapScheme : Model → MapScheme
  | .c3255 | .c3275 => .concept7x
  | .c3227 => .concept27
  | .c3267 | .c3287 | .c3297 => .concept67
  | .v6 | .v9 => .paged

/-- Fetching a left halfword instruction passes over a no-operation in the right half. -/
def elidesTrailingNop : Model → Bool
  | .c3227 | .c3255 | .c3275 => false
  | .c3267 | .c3287 | .c3297 | .v6 | .v9 => true

def hasExtendedAddressing : Model → Bool
  | .c3255 => false
  | _ => true

def hasBaseMode : Model → Bool
  | .c3227 | .c3255 | .c3275 => false
  | .c3267 | .c3287 | .c3297 | .v6 | .v9 => true

/-- The model with a name, in either case and with blanks around it. -/
def ofName? (s : String) : Option Model := all.find? fun m => m.name == canonicalName s

/-- What is said of a name that no model has. -/
def unknownMessage (s : String) : String := "unknown CPU model '" ++ s ++ "'"

end Model

inductive MemorySize
  | k128 | k256 | k512 | m1 | m2 | m3 | m4 | m8 | m16
  deriving DecidableEq, Repr

namespace MemorySize

def all : List MemorySize := [.k128, .k256, .k512, .m1, .m2, .m3, .m4, .m8, .m16]

def name : MemorySize → String
  | .k128 => "128K"
  | .k256 => "256K"
  | .k512 => "512K"
  | .m1 => "1M"
  | .m2 => "2M"
  | .m3 => "3M"
  | .m4 => "4M"
  | .m8 => "8M"
  | .m16 => "16M"

def words : MemorySize → Nat
  | .k128 => 0x8000
  | .k256 => 0x10000
  | .k512 => 0x20000
  | .m1 => 0x40000
  | .m2 => 0x80000
  | .m3 => 0xC0000
  | .m4 => 0x100000
  | .m8 => 0x200000
  | .m16 => 0x400000

def bytes (s : MemorySize) : Nat := 4 * s.words

/-- No size goes beyond what 24 bits can address. -/
theorem words_le (s : MemorySize) : s.words ≤ 0x400000 := by cases s <;> decide

/-- The size with a name, in either case and with blanks around it. -/
def ofName? (s : String) : Option MemorySize := all.find? fun m => m.name == canonicalName s

/-- What is said of a name that no size has. -/
def unknownMessage (s : String) : String :=
  "'" ++ s ++ "' is not a supported memory size (choose one of " ++
    ", ".intercalate (all.map name) ++ ")"

end MemorySize
end Concept32
