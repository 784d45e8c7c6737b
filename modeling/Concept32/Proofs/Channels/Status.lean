import Concept32.Channel.Status

/-!
# Bits of status and flags

What the union of two statuses holds.
-/

namespace Concept32.ChannelStatus

theorem union_none {s : ChannelStatus} : s.union .none = s :=
  congrArg mk (BitVec.or_zero)

theorem none_union {s : ChannelStatus} : none.union s = s :=
  congrArg mk (BitVec.zero_or)

theorem union_union_self {s t : ChannelStatus} : (s.union t).union t = s.union t :=
  congrArg mk (by rw [union, BitVec.or_assoc, BitVec.or_self])

theorem union_right_comm {s t u : ChannelStatus} : (s.union t).union u = (s.union u).union t :=
  congrArg mk (by rw [union, BitVec.or_assoc, BitVec.or_comm t.bits, ← BitVec.or_assoc]; rfl)

theorem contains_union_of_left {s t u : ChannelStatus} (h : s.contains t = true) : (s.union u).contains t = true := by
  have hbits : s.bits &&& t.bits = t.bits := eq_of_beq h
  have hunion : (s.bits ||| u.bits) &&& t.bits = t.bits := by
    ext i hi
    have hbit : (s.bits[i] && t.bits[i]) = t.bits[i] := by rw [← BitVec.getElem_and, hbits]
    rw [BitVec.getElem_and, BitVec.getElem_or, Bool.and_or_distrib_right, hbit]
    cases t.bits[i] <;> simp
  exact beq_iff_eq.mpr hunion

theorem union_comm {s t : ChannelStatus} : s.union t = t.union s := congrArg mk (BitVec.or_comm s.bits t.bits)

theorem contains_union_of_right {s t u : ChannelStatus} (h : u.contains t = true) : (s.union u).contains t = true :=
  union_comm ▸ contains_union_of_left h

theorem contains_union {s t : ChannelStatus} : (s.union t).contains t = true :=
  contains_union_of_right (by unfold contains; rw [BitVec.and_self]; exact beq_self_eq_true _)

theorem contains_without {s t u : ChannelStatus} (h : t.bits &&& u.bits = 0) :
    (s.without t).contains u = s.contains u := by
  have hbits : s.bits &&& ~~~t.bits &&& u.bits = s.bits &&& u.bits := by
    ext i hi
    have hbit : (t.bits[i] && u.bits[i]) = false := by
      rw [← BitVec.getElem_and, h]
      simp
    rw [BitVec.getElem_and, BitVec.getElem_and, BitVec.getElem_not, BitVec.getElem_and]
    cases ht : t.bits[i] with
    | false => rw [Bool.not_false, Bool.and_true]
    | true =>
      rw [ht, Bool.true_and] at hbit
      rw [hbit, Bool.and_false, Bool.and_false]
  unfold contains without
  rw [hbits]

theorem contains_union_of_disjoint {s t u : ChannelStatus} (h : t.bits &&& u.bits = 0) :
    (s.union t).contains u = s.contains u := by
  have hbits : (s.bits ||| t.bits) &&& u.bits = s.bits &&& u.bits := by
    rw [BitVec.and_or_distrib_right, h]
    exact BitVec.or_zero
  unfold contains union
  rw [hbits]

theorem hasError_union {s t : ChannelStatus} : (s.union t).hasError = (s.hasError || t.hasError) := by
  have hbits : (s.bits ||| t.bits) &&& errors.bits = (s.bits &&& errors.bits) ||| (t.bits &&& errors.bits) := by
    ext i hi
    rw [BitVec.getElem_and, BitVec.getElem_or, Bool.and_or_distrib_right, BitVec.getElem_or, BitVec.getElem_and,
      BitVec.getElem_and]
  have hzero : (s.bits ||| t.bits) &&& errors.bits = 0#16 ↔
      s.bits &&& errors.bits = 0#16 ∧ t.bits &&& errors.bits = 0#16 := by
    rw [hbits]
    exact BitVec.or_eq_zero_iff
  rw [Bool.eq_iff_iff, Bool.or_eq_true]
  unfold hasError intersects hasAny union
  rw [bne_iff_ne, bne_iff_ne, bne_iff_ne, Ne, hzero]
  exact Decidable.not_and_iff_or_not

/-- A status modifier is no error. -/
theorem hasError_without_modifier {s : ChannelStatus} : (s.without .modifier).hasError = s.hasError := by
  have hmask : ~~~modifier.bits &&& errors.bits = errors.bits := by decide
  unfold hasError intersects hasAny without
  rw [BitVec.and_assoc, hmask]

/-- What is taken away is not there any more. -/
theorem contains_without_self {s t : ChannelStatus} (h : t.bits ≠ 0) : (s.without t).contains t = false := by
  unfold contains without
  have hnone : s.bits &&& ~~~t.bits &&& t.bits = 0 := by
    rw [BitVec.and_assoc, BitVec.not_and_self]
    exact BitVec.and_zero
  rw [hnone]
  exact beq_eq_false_iff_ne.mpr (Ne.symm h)

theorem hasError_union_length {s : ChannelStatus} : (s.union .length).hasError = true := by
  rw [hasError_union, show length.hasError = true from rfl, Bool.or_true]

theorem hasError_union_programCheck {s : ChannelStatus} : (s.union .programCheck).hasError = true := by
  rw [hasError_union, show programCheck.hasError = true from rfl, Bool.or_true]

end Concept32.ChannelStatus
