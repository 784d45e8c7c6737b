/-!
# Numerals

Whole numbers as they are given on a command line: digits, with or without a plus sign in front.
-/

namespace Concept32

/-- The value of a character as a digit; letters of either case follow after nine. -/
def digitValue? (radix : Nat) (c : Char) : Option Nat :=
  let value :=
    if c.isDigit then some (c.toNat - '0'.toNat)
    else if c.isLower then some (c.toNat - 'a'.toNat + 10)
    else if c.isUpper then some (c.toNat - 'A'.toNat + 10)
    else none
  value.filter fun v => v < radix

/-- The number that digits stand for; there is none without digits. -/
def ofDigits? (radix : Nat) (digits : List Char) : Option Nat :=
  if digits.isEmpty then none
  else digits.foldlM (fun n c => (digitValue? radix c).map (radix * n + ·)) 0

/-- The number, below `2 ^ width`, that a numeral stands for. -/
def ofNumeral? (radix width : Nat) (s : String) : Option Nat :=
  let digits := match s.toList with
    | '+' :: rest => rest
    | cs => cs
  (ofDigits? radix digits).filter fun n => n < 1 <<< width

/-- The bits that a hexadecimal numeral stands for, which may begin with `0x` or `0X`. -/
def ofHexNumeral? (width : Nat) (s : String) : Option (BitVec width) :=
  let numeral := match s.toList with
    | '0' :: 'x' :: rest | '0' :: 'X' :: rest => String.ofList rest
    | _ => s
  (ofNumeral? 16 width numeral).map (BitVec.ofNat width)

end Concept32
