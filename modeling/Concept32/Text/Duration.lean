/-!
# Lengths of time

Simulated time is counted in nanoseconds. A length of time is written in the largest of the units
second, millisecond, microsecond and nanosecond of which it holds at least one, with as many decimal
places as it needs.
-/

namespace Concept32

/-- The digits of `part / 10 ^ places` after the decimal point, without zeros at the end. -/
private def fractionDigits (places part : Nat) : List Char :=
  (((Nat.toDigits 10 part).leftpad places '0').reverse.dropWhile (· == '0')).reverse

/-- `amount / Nat.pow 10 places` in decimal; the point is left out of a whole number. -/
private def decimal (places amount : Nat) : String :=
  let whole := toString (amount / Nat.pow 10 places)
  match fractionDigits places (amount % Nat.pow 10 places) with
  | [] => whole
  | digits => whole ++ "." ++ String.ofList digits

/-- A length of time given in nanoseconds, as text. -/
def durationText (nanoseconds : Nat) : String :=
  if 1000000000 ≤ nanoseconds then decimal 9 nanoseconds ++ "s"
  else if 1000000 ≤ nanoseconds then decimal 6 nanoseconds ++ "ms"
  else if 1000 ≤ nanoseconds then decimal 3 nanoseconds ++ "µs"
  else toString nanoseconds ++ "ns"

end Concept32
