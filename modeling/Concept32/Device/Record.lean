import Concept32.Device.Service

/-!
# Moving records

Most devices move bytes as long as the channel program takes them or has them.
-/

namespace Concept32.Service
variable {ω : Type}

/-- Put up to `left` bytes of `data` from a position on into memory, as far as there is room; the value is
the position of the first byte that was not put. -/
def fill (data : Array Byte) : (left position : Nat) → Service ω Nat
  | 0, position => .isComplete fun _ => .done position
  | left + 1, position => .isComplete fun
    | true => .done position
    | false =>
      match data[position]? with
      | none => .done position
      | some b => .writeByte b fun
        | .ok _ => fill data left (position + 1)
        | .error _ => .done position

/-- Put bytes into memory, whether or not there is room; the value is how many could be put, after `count`
others, and what stopped the rest. -/
def writeBytes : List Byte → (count : Nat) → Service ω (Nat × Option TransferEnd)
  | [], count => .done (count, none)
  | b :: rest, count => .writeByte b fun
    | .ok _ => writeBytes rest (count + 1)
    | .error e => .done (count, some e)

/-- Take up to `limit` bytes from memory; the value is the bytes, after those taken before, and why there
were no more. -/
def readBytes : (limit : Nat) → Array Byte → Service ω (Array Byte × Option TransferEnd)
  | 0, taken => .done (taken, none)
  | limit + 1, taken => .readByte fun
    | .ok b => readBytes limit (taken.push b)
    | .error e => .done (taken, some e)

end Concept32.Service
