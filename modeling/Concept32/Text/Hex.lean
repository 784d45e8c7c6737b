/-!
# Hexadecimal text

Numbers in listings are written in upper-case hexadecimal, padded with zeros to the width of the
field that they come from.
-/

namespace Concept32

/-- `n` in upper-case hexadecimal, with zeros in front up to `width` digits. -/
def hex (width n : Nat) : String :=
  String.ofList (((Nat.toDigits 16 n).map Char.toUpper).leftpad width '0')

/-- A bit vector in hexadecimal, as wide as its bits need. -/
def hexBits {n : Nat} (w : BitVec n) : String := hex ((n + 3) / 4) w.toNat

end Concept32
