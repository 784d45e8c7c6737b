import Concept32.Float.Binary64
import Concept32.Word

/-!
# Hexadecimal floating-point words

A floating-point word has a sign bit, an exponent of 16 in seven bits with 64 added, and a fraction of
24 bits; a doubleword has a fraction of 56 bits. A number other than zero is normalised when the first
hexadecimal digit of its fraction is not zero. A negative number is the two's complement of the
positive one, over the whole word.
-/

namespace Concept32

/-- Why a number has no hexadecimal form. -/
inductive FloatException
  /-- The number is too large, with this sign. -/
  | overflow (negative : Bool)
  /-- The number is too close to zero, on this side of it. -/
  | underflow (negative : Bool)
  deriving DecidableEq, Repr

def FloatException.message : FloatException → String
  | .overflow _ => "floating-point overflow"
  | .underflow _ => "floating-point underflow"

namespace Hexadecimal
variable {width : Nat}

/-! ### Reading -/

/-- The number with a sign, an exponent of 16 that has 64 added, and a fraction. -/
def decode (negative : Bool) (exponent : Nat) (fraction : Binary64) : Binary64 :=
  let magnitude := fraction.mul (.twoPow (4 * ((exponent : Int) - 64)))
  if negative then magnitude.neg else magnitude

/-- The number that a form in `width` bits stands for, `width - 8` of them for the fraction. The form that is
its own complement stands for `-16 ^ 63`. A fraction with more than 53 digits is rounded. -/
def ofForm (form : BitVec width) : Binary64 :=
  if form = 0 then .finite false 0 0
  else
    let negative := form.msb
    let magnitude := if negative then -form else form
    if magnitude.msb then (Binary64.twoPow 252).neg
    else
      let places := width - 8
      let fraction := (Binary64.ofInt (magnitude.extractLsb' 0 places).toNat).div (.twoPow places)
      decode negative (magnitude.extractLsb' places 7).toNat fraction

/-- The number that a word stands for. -/
def ofWord (w : Word) : Binary64 := ofForm w

/-- The number that a doubleword stands for. -/
def ofDouble (d : Double) : Binary64 := ofForm d

/-! ### Writing -/

/-- Divide a magnitude by 16 until it lies below one, counting its exponent of 16 up. -/
def scaleDown (negative : Bool) (exponent : Int) (fraction : Binary64) :
    Except FloatException (Int × Binary64) :=
  if fraction.atLeast (.twoPow 0) then
    if 63 < exponent + 1 then .error (.overflow negative)
    else scaleDown negative (exponent + 1) (fraction.div (.twoPow 4))
  else .ok (exponent, fraction)
termination_by (63 - exponent).toNat

/-- Multiply a magnitude by 16 until it no longer lies below a sixteenth, counting its exponent of 16
down. -/
def scaleUp (negative : Bool) (exponent : Int) (fraction : Binary64) :
    Except FloatException (Int × Binary64) :=
  if fraction.less (.twoPow (-4)) then
    if exponent - 1 < -64 then .error (.underflow negative)
    else scaleUp negative (exponent - 1) (fraction.mul (.twoPow 4))
  else .ok (exponent, fraction)
termination_by (64 + exponent).toNat

/-- The exponent of 16 of a magnitude, with 64 added, and its fraction, below one and not below a
sixteenth. -/
def normalise (negative : Bool) (magnitude : Binary64) : Except FloatException (Nat × Binary64) := do
  let (exponent, fraction) ← scaleDown negative 0 magnitude
  let (exponent, fraction) ← scaleUp negative exponent fraction
  if exponent + 64 < 0 then .error (.underflow negative)
  else return ((exponent + 64).toNat, fraction)

/-- The sign and the magnitude of a number other than zero. What is not a number counts as a positive
overflow. -/
def classify : Binary64 → Except FloatException (Option (Bool × Binary64))
  | .nan => .error (.overflow false)
  | .infinity negative => .error (.overflow negative)
  | .finite negative significand exponent =>
    .ok (if significand = 0 then none else some (negative, .finite false significand exponent))

/-- The form of a number in `width` bits, `width - 8` of them for the fraction; the digits beyond them are cut
off. -/
def toForm (x : Binary64) : Except FloatException (BitVec width) := do
  match ← classify x with
  | none => return 0
  | some (negative, magnitude) =>
    let (exponent, fraction) ← normalise negative magnitude
    let places := width - 8
    let digits := min ((fraction.mul (.twoPow places)).saturated width) ((1 <<< places) - 1)
    let form := (BitVec.ofNat width exponent <<< places) ||| BitVec.ofNat width digits
    return if negative then -form else form

/-- The word that stands for a number, its fraction cut to 24 bits. -/
def toWord (x : Binary64) : Except FloatException Word := toForm x

def toDouble (x : Binary64) : Except FloatException Double := toForm x

end Hexadecimal
end Concept32
