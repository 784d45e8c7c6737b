import Concept32.Word

/-!
# Field codes

A memory reference tells the size of its operand by the F bit and the two low bits of its effective
address: those two bits are a byte's place in the word if the F bit is set, and otherwise choose
between the word, its halves and the doubleword.
-/

namespace Concept32

/-- The part of memory that an effective address with its F bit means. -/
inductive FieldCode
  /-- A byte, by its place in the word. -/
  | byte (offset : Fin 4)
  | leftHalf
  | rightHalf
  | word
  | double
  deriving DecidableEq, Repr

namespace FieldCode

/-- The field that an F bit and an effective address mean. -/
def decode (fBit : Bool) (address : Word) : FieldCode :=
  let low : Fin 4 := (address.extractLsb' 0 2).toFin
  if fBit then .byte low
  else match low with
    | 0 => .word
    | 1 => .leftHalf
    | 2 => .double
    | 3 => .rightHalf

/-- The byte address of the operand, from the effective address. -/
def operandAddress (field : FieldCode) (address : Word) : Word :=
  match field with
  | .byte offset => wordBoundary address + BitVec.ofNat 32 offset.val
  | .rightHalf => wordBoundary address + 2
  | .leftHalf | .word | .double => wordBoundary address

/-- The letter that listings use for the size. -/
def letter : FieldCode → String
  | .byte _ => "B"
  | .leftHalf | .rightHalf => "H"
  | .word => "W"
  | .double => "D"

def name : FieldCode → String
  | .byte offset => "Byte(" ++ toString offset.val ++ ")"
  | .leftHalf => "LeftHalf"
  | .rightHalf => "RightHalf"
  | .word => "Word"
  | .double => "Double"

end FieldCode
end Concept32
