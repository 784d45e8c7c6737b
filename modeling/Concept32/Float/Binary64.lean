/-!
# Binary64 arithmetic

The floating-point instructions compute in binary numbers with a significand of 53 bits. A number is
held exactly, as a significand and a power of two; each operation finds its exact result and rounds it
once, to the nearest number of the format, a tie going to the even significand. Rounding is
`Binary64.round`; it leaves a number that already fits as it is.
-/

namespace Concept32

/-- A number of the binary64 format, an infinity, or the result of an operation without one. -/
inductive Binary64
  | nan
  | infinity (negative : Bool)
  /-- The number `significand * 2 ^ exponent` with its sign, which zero has too. -/
  | finite (negative : Bool) (significand : Nat) (exponent : Int)
  deriving DecidableEq, Repr

namespace Binary64

/-! ### Rounding -/

/-- `n / 2 ^ places` as the nearest whole number, and of two as near the even one. -/
def roundShift (n places : Nat) : Nat :=
  let quotient := n >>> places
  let rest := n - quotient <<< places
  let twice := 2 * rest
  let unit := 1 <<< places
  if unit < twice || (twice = unit && quotient % 2 = 1) then quotient + 1 else quotient

/-- The number of binary digits of `n`. -/
def bitLength (n : Nat) : Nat := if n = 0 then 0 else Nat.log2 n + 1

/-- The number of the format nearest to `significand * 2 ^ exponent`; past the largest it is an
infinity. -/
def round (negative : Bool) (significand : Nat) (exponent : Int) : Binary64 :=
  let unit : Int := max (exponent + bitLength significand - 53) (-1074)
  let number : Nat × Int :=
    if exponent < unit then (roundShift significand (unit - exponent).toNat, unit)
    else (significand, exponent)
  if 1024 < number.2 + bitLength number.1 then .infinity negative
  else .finite negative number.1 number.2

def ofInt (i : Int) : Binary64 := round (i < 0) i.natAbs 0

/-- The number nearest to `significand * 10 ^ exponent`. -/
def ofDecimal (negative : Bool) (significand : Nat) (exponent : Int) : Binary64 :=
  if significand = 0 then .finite negative 0 0
  else
    let magnitude := exponent + (Nat.toDigits 10 significand).length
    if 400 < magnitude then .infinity negative
    else if magnitude < -400 then .finite negative 0 0
    else if 0 ≤ exponent then round negative (significand * Nat.pow 10 exponent.toNat) 0
    else
      let divisor := Nat.pow 10 (-exponent).toNat
      let places := 64 + bitLength divisor
      let quotient := (significand <<< places) / divisor
      let sticky := if (significand <<< places) % divisor = 0 then 0 else 1
      round negative (2 * quotient + sticky) (-places - 1)

/-! ### Arithmetic -/

/-- The number `2 ^ k`. -/
def twoPow (k : Int) : Binary64 := .finite false 1 k

def neg : Binary64 → Binary64
  | .nan => .nan
  | .infinity s => .infinity (!s)
  | .finite s m e => .finite (!s) m e

/-- The significand with its sign. -/
def signed (negative : Bool) (m : Nat) : Int := if negative then -(m : Int) else m

/-- The sum. A sum of opposite numbers is the positive zero. -/
def add : Binary64 → Binary64 → Binary64
  | .nan, _ | _, .nan => .nan
  | .infinity s, .infinity t => if s = t then .infinity s else .nan
  | .infinity s, .finite .. => .infinity s
  | .finite .., .infinity t => .infinity t
  | .finite s m e, .finite t n f =>
    let unit := min e f
    let sum := signed s (m <<< (e - unit).toNat) + signed t (n <<< (f - unit).toNat)
    round (if sum = 0 then s && t else decide (sum < 0)) sum.natAbs unit

def sub (x y : Binary64) : Binary64 := x.add y.neg

def mul : Binary64 → Binary64 → Binary64
  | .nan, _ | _, .nan => .nan
  | .infinity s, .infinity t => .infinity (s != t)
  | .infinity s, .finite t n _ => if n = 0 then .nan else .infinity (s != t)
  | .finite s m _, .infinity t => if m = 0 then .nan else .infinity (s != t)
  | .finite s m e, .finite t n f => round (s != t) (m * n) (e + f)

/-- The quotient. Division of a number other than zero by zero gives an infinity. -/
def div : Binary64 → Binary64 → Binary64
  | .nan, _ | _, .nan => .nan
  | .infinity _, .infinity _ => .nan
  | .infinity s, .finite t _ _ => .infinity (s != t)
  | .finite s _ _, .infinity t => .finite (s != t) 0 0
  | .finite s m e, .finite t n f =>
    if n = 0 then if m = 0 then .nan else .infinity (s != t)
    else
      let places := 64 + bitLength n
      let quotient := (m <<< places) / n
      let sticky := if (m <<< places) % n = 0 then 0 else 1
      round (s != t) (2 * quotient + sticky) (e - f - places - 1)

def isNegative : Binary64 → Bool
  | .nan => false
  | .infinity s => s
  | .finite s m _ => s && m != 0

def isPositiveFinite : Binary64 → Bool
  | .finite s m _ => !s && m != 0
  | _ => false

/-- The order of two numbers; there is none with what is not a number. -/
def order? : Binary64 → Binary64 → Option Ordering
  | .nan, _ | _, .nan => none
  | .infinity s, .infinity t => some (compare t s)
  | .infinity s, .finite .. => some (if s then .lt else .gt)
  | .finite .., .infinity t => some (if t then .gt else .lt)
  | .finite s m e, .finite t n f =>
    let unit := min e f
    some (compare (signed s (m <<< (e - unit).toNat)) (signed t (n <<< (f - unit).toNat)))

def less (x y : Binary64) : Bool := x.order? y == some .lt

def atLeast (x y : Binary64) : Bool := (x.order? y).any Ordering.isGE

/-- The whole number next to a finite number in the direction of zero. -/
def truncate? : Binary64 → Option Int
  | .finite s m e => some (signed s (if 0 ≤ e then m <<< e.toNat else m >>> (-e).toNat))
  | _ => none

/-- The whole part as an unsigned number of a width, or the nearest such number; zero for what is not a
number. -/
def saturated (width : Nat) (x : Binary64) : Nat :=
  match x.truncate? with
  | some i => min i.toNat ((1 <<< width) - 1)
  | none => if x = .infinity false then (1 <<< width) - 1 else 0

/-! ### Interchange -/

/-- The number that 64 bits of the interchange format stand for. -/
def ofBits (bits : BitVec 64) : Binary64 :=
  let negative := bits.msb
  let fraction := (bits.extractLsb' 0 52).toNat
  let exponent := (bits.extractLsb' 52 11).toNat
  if exponent = 2047 then if fraction = 0 then .infinity negative else .nan
  else if exponent = 0 then .finite negative fraction (-1074)
  else .finite negative (0x10000000000000 + fraction) ((exponent : Int) - 1075)

/-- The bits of the interchange format. -/
def toBits : Binary64 → BitVec 64
  | .nan => 0x7FF8000000000000#64
  | .infinity s => if s then 0xFFF0000000000000#64 else 0x7FF0000000000000#64
  | .finite s m e =>
    let sign := if s then 0x8000000000000000 else 0
    let unit : Int := max (e + bitLength m - 53) (-1074)
    let significand := if unit ≤ e then m <<< (e - unit).toNat else m >>> (unit - e).toNat
    let magnitude :=
      if significand < 0x10000000000000 then significand
      else ((unit + 1075).toNat <<< 52) + (significand - 0x10000000000000)
    BitVec.ofNat 64 (sign + magnitude)

end Binary64
end Concept32
