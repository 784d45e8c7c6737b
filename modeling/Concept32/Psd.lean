import Concept32.ConditionCodes
import Concept32.Text.Hex

/-!
# The program status doubleword

Word 1 holds the privilege, the condition codes, the addressing mode, the arithmetic exception enable
and the program counter. Word 2 holds the mapping mode, what loading the doubleword does to the
blocking of interrupts, and the current program index, by which the program's memory map is found.
-/

namespace Concept32

/-- What loading a program status doubleword does to the blocking of interrupts. -/
inductive Blocking
  | unblock
  | block
  | retain
  deriving DecidableEq, Repr

namespace Blocking

def all : List Blocking := [.unblock, .block, .retain]

def name : Blocking → String
  | .unblock => "Unblock"
  | .block => "Block"
  | .retain => "Retain"

end Blocking

/-- A program status doubleword. -/
structure Psd where
  word1 : Word
  word2 : Word
  deriving DecidableEq, Repr

namespace Psd

/-! ### Fields -/

/-- Word 1: privileged mode. -/
def privilegedBit : Word := 0x80000000#32

/-- Word 1: the condition codes. -/
def codesField : Word := 0x78000000#32

/-- Word 1: extended addressing. -/
def extendedBit : Word := 0x04000000#32

/-- Word 1: base register addressing. -/
def basedBit : Word := 0x02000000#32

/-- Word 1: arithmetic exceptions trap. -/
def exceptionsBit : Word := 0x01000000#32

/-- Word 1: the program counter. -/
def addressField : Word := 0x00FFFFFF#32

/-- Word 2: mapped mode. -/
def mappedBit : Word := 0x80000000#32

/-- Word 2: loading this doubleword keeps the memory map. -/
def retainMapsBit : Word := 0x40000000#32

/-- Word 2: the blocking directive. -/
def blockingField : Word := 0x0000C000#32

/-- Word 2, blocking directive: block interrupts. -/
def blockBit : Word := 0x00004000#32

/-- Word 2, blocking directive: leave the blocking as it is. -/
def retainBlockingBit : Word := 0x00008000#32

/-- Word 2: the current program index. -/
def cpixField : Word := 0x00003FF8#32

/-! ### Word 1 -/

/-- The processor after a reset: privileged, unmapped, at address zero. -/
def initial : Psd := ⟨privilegedBit, 0⟩

def privileged (p : Psd) : Bool := hasAny p.word1 privilegedBit

def codes (p : Psd) : ConditionCodes := ⟨p.word1.extractLsb' 27 4⟩

def extended (p : Psd) : Bool := hasAny p.word1 extendedBit

def based (p : Psd) : Bool := hasAny p.word1 basedBit

def exceptionsEnabled (p : Psd) : Bool := hasAny p.word1 exceptionsBit

/-- The bits of an effective address that count: 19 of them, 20 in extended mode and 24 in base
register mode. -/
def addressMask (p : Psd) : Word :=
  if p.based then 0x00FFFFFF#32 else if p.extended then 0x000FFFFF#32 else 0x0007FFFF#32

/-- The program counter, a byte address. -/
def address (p : Psd) : Word := p.word1 &&& addressField

def withPrivileged (p : Psd) (on : Bool) : Psd := { p with word1 := withBits p.word1 privilegedBit on }

def withCodes (p : Psd) (cc : ConditionCodes) : Psd :=
  { p with word1 := replaceBits p.word1 codesField (cc.nibble.setWidth 32 <<< 27) }

def withExtended (p : Psd) (on : Bool) : Psd := { p with word1 := withBits p.word1 extendedBit on }

def withBased (p : Psd) (on : Bool) : Psd := { p with word1 := withBits p.word1 basedBit on }

def withExceptions (p : Psd) (on : Bool) : Psd := { p with word1 := withBits p.word1 exceptionsBit on }

/-- `p` with another program counter, cut to what the addressing mode can reach. -/
def withAddress (p : Psd) (a : Word) : Psd :=
  { p with word1 := replaceBits p.word1 addressField (a &&& p.addressMask) }

/-! ### Word 2 -/

def mapped (p : Psd) : Bool := hasAny p.word2 mappedBit

def retainsMaps (p : Psd) : Bool := hasAny p.word2 retainMapsBit

/-- What loading this doubleword does to the blocking of interrupts; with both bits set it unblocks
them, as with neither. -/
def blocking (p : Psd) : Blocking :=
  let field := p.word2 &&& blockingField
  if field = blockBit then .block else if field = retainBlockingBit then .retain else .unblock

/-- The current program index: the offset of the program's entry in the master process list. -/
def cpix (p : Psd) : Word := p.word2 &&& cpixField

def withMapped (p : Psd) (on : Bool) : Psd := { p with word2 := withBits p.word2 mappedBit on }

def withBlocking (p : Psd) (b : Blocking) : Psd :=
  let field : Word := match b with
    | .unblock => 0
    | .block => blockBit
    | .retain => retainBlockingBit
  { p with word2 := replaceBits p.word2 blockingField field }

/-- Word 2 as it is saved when the processor leaves this program: the directive records whether
interrupts were blocked, so that loading it again restores that. -/
def savedWord2 (p : Psd) (blocked : Bool) : Word :=
  replaceBits p.word2 blockingField (if blocked then blockBit else 0)

/-- Both words in hexadecimal. -/
def text (p : Psd) : String := hexBits p.word1 ++ " " ++ hexBits p.word2

end Psd
end Concept32
