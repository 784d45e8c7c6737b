/-!
# Blanks around a name

Names of models and memory sizes may have blanks around them and may be written in either case. A blank
is any character with the Unicode property `White_Space`.
-/

namespace Concept32

/-- The ranges of characters with the property `White_Space`. -/
def blankRanges : List (Nat × Nat) :=
  [(0x09, 0x0D), (0x20, 0x20), (0x85, 0x85), (0xA0, 0xA0), (0x1680, 0x1680), (0x2000, 0x200A),
    (0x2028, 0x2029), (0x202F, 0x202F), (0x205F, 0x205F), (0x3000, 0x3000)]

/-- The character is a blank. -/
def isBlank (c : Char) : Bool := blankRanges.any fun r => r.1 ≤ c.toNat && c.toNat ≤ r.2

/-- The characters without the blanks at either end. -/
def trimBlanks (cs : List Char) : List Char :=
  ((cs.dropWhile isBlank).reverse.dropWhile isBlank).reverse

/-- A name as it is looked up: without blanks at its ends and with the letters `a` to `z` in upper
case. -/
def canonicalName (s : String) : String := String.ofList ((trimBlanks s.toList).map Char.toUpper)

theorem isBlank_of_isWhitespace {c : Char} (h : c.isWhitespace) : isBlank c = true := by
  simp only [Char.isWhitespace, Bool.or_eq_true, decide_eq_true_eq] at h
  rcases h with ((h | h) | h) | h <;> subst h <;> decide

end Concept32
