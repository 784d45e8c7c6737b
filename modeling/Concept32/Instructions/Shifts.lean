import Concept32.Cpu.Operand

/-!
# Shifts

Arithmetic shifts keep the sign, logical shifts fill with zeros and circular shifts lose nothing. Only the
arithmetic ones change the condition codes; to the left they may overflow.
-/

namespace Concept32

/-- What comes in at the end of a shift. -/
inductive ShiftKind
  | arithmetic
  | logical
  | circular
  deriving DecidableEq, Repr

/-- A shift of a register or of a pair. -/
structure Shift where
  kind : ShiftKind
  double : Bool
  left : Bool
  deriving DecidableEq, Repr

namespace Shift

/-- A shift whose kind and direction are in a two-bit selector. -/
def ofSelector (double : Bool) : Nat → Shift
  | 0 => ⟨.arithmetic, double, false⟩
  | 1 => ⟨.logical, double, false⟩
  | 2 => ⟨.arithmetic, double, true⟩
  | _ => ⟨.logical, double, true⟩

/-- The low bits of a container, as many as a value has. -/
def mask (width : Nat) : Double := if width = 64 then BitVec.allOnes 64 else (1#64 <<< width) - 1

/-- A value of a width in the low bits of a container, shifted by a number of places less than the width, and
whether it overflowed. One routine does all shifts of both widths. An arithmetic shift keeps the sign bit;
to the left it overflows when a bit that is shifted out, or into the place of the sign, differs from the
sign. -/
def inContainer (s : Shift) (width : Nat) (value : Double) (count : Nat) : Double × Bool :=
  let signBit := 1#64 <<< (width - 1)
  let value := value &&& mask width
  if count = 0 then (value, false)
  else match s.kind, s.left with
  | .logical, true => ((value <<< count) &&& mask width, false)
  | .logical, false => (value >>> count, false)
  | .circular, true => (((value <<< count) ||| (value >>> (width - count))) &&& mask width, false)
  | .circular, false => (((value >>> count) ||| (value <<< (width - count))) &&& mask width, false)
  | .arithmetic, false =>
    let fill := if hasAny value signBit then mask width &&& ~~~(mask width >>> count) else 0
    ((value >>> count) ||| fill, false)
  | .arithmetic, true =>
    -- The bits that pass the place of the sign, and the one that comes to lie there.
    let examined := mask width &&& ~~~(mask width >>> (count + 1))
    let expected := if hasAny value signBit then examined else 0
    (((value <<< count) &&& mask width &&& ~~~signBit) ||| (value &&& signBit), value &&& examined != expected)

/-- A value shifted by a number of places, and whether it overflowed. -/
def apply {n : Nat} (s : Shift) (value : BitVec n) (count : Nat) : BitVec n × Bool :=
  let (result, overflowed) := s.inContainer n (value.setWidth 64) count
  (result.setWidth n, overflowed)

end Shift

namespace Exec

def shift (o : Operand) (s : Shift) : Exec Flow := do
  let r := o.register
  let count := o.instruction.shiftCount
  if s.double then
    let (value, overflowed) := s.apply (← pair r) count
    if s.kind = .arithmetic then putPairResult r value overflowed else setPair r value
  else
    let (value, overflowed) := s.apply (← gpr r) count
    if s.kind = .arithmetic then putResult r value overflowed else setGpr r value
  return .next

end Exec
end Concept32
