import Concept32.Float.Binary64
import Concept32.Text.Numeral

/-!
# Decimal literals

Binary64 numbers as they are written in decimal: an optional sign, digits with an optional point among them
or at either end, and an optional exponent. Infinity and the result of an operation without one are written
as names, in either case.
-/

namespace Concept32.Binary64

inductive LiteralError
  | empty
  | malformed
  deriving DecidableEq, Repr

def LiteralError.message : LiteralError → String
  | .empty => "cannot parse float from empty string"
  | .malformed => "invalid float literal"

/-- A sign in front of a text, whether it is a minus sign, and the rest. -/
def splitSign : List Char → Bool × List Char
  | '-' :: rest => (true, rest)
  | '+' :: rest => (false, rest)
  | cs => (false, cs)

/-- The exponent that ends a literal, if there is one. -/
def exponentOf? : List Char → Option Int
  | [] => some 0
  | c :: rest =>
    if c = 'e' || c = 'E' then
      let (negative, digits) := splitSign rest
      (ofDigits? 10 digits).map fun n => if negative then -n else n
    else none

/-- The number that a literal without a sign stands for. -/
def ofUnsigned? (negative : Bool) (cs : List Char) : Option Binary64 := do
  let (whole, rest) := cs.span Char.isDigit
  let (fraction, rest) := match rest with
    | '.' :: rest => rest.span Char.isDigit
    | _ => ([], rest)
  let significand ← ofDigits? 10 (whole ++ fraction)
  let exponent ← exponentOf? rest
  return ofDecimal negative significand (exponent - fraction.length)

/-- The number that a literal stands for. -/
def ofLiteral (s : String) : Except LiteralError Binary64 :=
  if s.isEmpty then .error .empty
  else
    let (negative, cs) := splitSign s.toList
    let name := cs.map Char.toLower
    if name = "inf".toList || name = "infinity".toList then .ok (.infinity negative)
    else if name = "nan".toList then .ok .nan
    else match ofUnsigned? negative cs with
      | some x => .ok x
      | none => .error .malformed

end Concept32.Binary64
