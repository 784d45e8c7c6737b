import Concept32.Word

/-!
# Condition codes

Four bits CC1 to CC4 that instructions leave for the branches after them. After arithmetic CC1 says
that the result overflowed, CC2 that it is positive, CC3 that it is negative and CC4 that it is zero.
-/

namespace Concept32

/-- The four condition code bits; CC1 is the most significant bit of the nibble. -/
structure ConditionCodes where
  nibble : BitVec 4
  deriving DecidableEq, Repr

namespace ConditionCodes

def none : ConditionCodes := ⟨0b0000#4⟩

/-- CC1: overflow. -/
def overflow : ConditionCodes := ⟨0b1000#4⟩

/-- CC2: greater than zero. -/
def positive : ConditionCodes := ⟨0b0100#4⟩

/-- CC3: less than zero. -/
def negative : ConditionCodes := ⟨0b0010#4⟩

/-- CC4: equal to zero. -/
def zero : ConditionCodes := ⟨0b0001#4⟩

/-- All codes of `other` are set, and `other` names at least one. -/
def contains (cc other : ConditionCodes) : Bool :=
  cc.nibble &&& other.nibble == other.nibble && other.nibble != 0#4

def intersects (cc other : ConditionCodes) : Bool := hasAny cc.nibble other.nibble

def union (cc other : ConditionCodes) : ConditionCodes := ⟨cc.nibble ||| other.nibble⟩

def cc1 (cc : ConditionCodes) : Bool := hasAny cc.nibble 0b1000#4

def cc2 (cc : ConditionCodes) : Bool := hasAny cc.nibble 0b0100#4

def cc3 (cc : ConditionCodes) : Bool := hasAny cc.nibble 0b0010#4

def cc4 (cc : ConditionCodes) : Bool := hasAny cc.nibble 0b0001#4

/-- The codes that tell how one number compares with another. -/
def ofOrdering : Ordering → ConditionCodes
  | .gt => positive
  | .lt => negative
  | .eq => zero

/-- The codes of a signed result: its sign, and CC1 if it overflowed. -/
def ofSigned (value : Int) (overflowed : Bool) : ConditionCodes :=
  let sign := ofOrdering (compare value 0)
  if overflowed then sign.union overflow else sign

/-- The codes of a bit vector read as a signed number. -/
def ofResult {n : Nat} (value : BitVec n) (overflowed : Bool) : ConditionCodes :=
  ofSigned value.toInt overflowed

/-- The codes of comparing two bit vectors as signed numbers. -/
def ofComparison {n : Nat} (left right : BitVec n) : ConditionCodes :=
  ofOrdering (compare left.toInt right.toInt)

/-- The codes after an instruction that examines one bit: the bit goes into CC1 and the codes that
were in CC1 to CC3 move down. -/
def afterBit (cc : ConditionCodes) (bit : Bool) : ConditionCodes :=
  ⟨withBits (cc.nibble >>> 1) 0b1000#4 bit⟩

/-- Four places, each the number of its code if that is set and a dash otherwise. -/
def text (cc : ConditionCodes) : String :=
  let place (set : Bool) (digit : String) : String := if set then digit else "-"
  place cc.cc1 "1" ++ place cc.cc2 "2" ++ place cc.cc3 "3" ++ place cc.cc4 "4"

end ConditionCodes
end Concept32
