import Concept32.Proofs.Channels.Servicing

/-!
# Programs while data move

The calls with which a device moves data leave a program at its doubleword, unless data chaining leads it on. What holds
over both holds over every such call.
-/

namespace Concept32
open EStateM

/-- The program is at the same doubleword, with the same command; its status has lost nothing. -/
structure ChannelProgram.Remains (p q : ChannelProgram) : Prop where
  next : q.next = p.next
  flags : q.flags = p.flags
  command : q.command = p.command
  pending : q.pending = p.pending
  status : ∀ s, p.status.contains s = true → q.status.contains s = true

namespace ChannelProgram.Remains
variable {p : ChannelProgram}

theorem refl : Remains p p := ⟨rfl, rfl, rfl, rfl, fun _ => id⟩

theorem addStatus {s : ChannelStatus} : Remains p (p.addStatus s) :=
  ⟨rfl, rfl, rfl, rfl, fun _ => ChannelStatus.contains_union_of_left⟩

end ChannelProgram.Remains

/-- The program has not come further in its area either. -/
structure ChannelProgram.Rests (p q : ChannelProgram) : Prop extends p.Remains q where
  count : q.count = p.count
  dataAddress : q.dataAddress = p.dataAddress

namespace ChannelProgram.Rests
variable {p q r : ChannelProgram}

theorem refl : Rests p p := ⟨.refl, rfl, rfl⟩

theorem trans (h : Rests p q) (h' : Rests q r) : Rests p r where
  next := h'.next.trans h.next
  flags := h'.flags.trans h.flags
  command := h'.command.trans h.command
  pending := h'.pending.trans h.pending
  status s hs := h'.status s (h.status s hs)
  count := h'.count.trans h.count
  dataAddress := h'.dataAddress.trans h.dataAddress

theorem addStatus {s : ChannelStatus} : Rests p (p.addStatus s) := ⟨.addStatus, rfl, rfl⟩

theorem finish : Rests p (Transfer.finish p) :=
  ⟨⟨rfl, rfl, rfl, rfl, fun _ => ChannelStatus.contains_union_of_left⟩, rfl, rfl⟩

end ChannelProgram.Rests

namespace Transfer
variable {ε α β : Type} {R : ChannelProgram → ChannelProgram → Prop} {t : Transfer}

/-- However the step ends, the programs before and after it are related. -/
def Relates (R : ChannelProgram → ChannelProgram → Prop) (x : Step ε α) : Prop :=
  ∀ t : Transfer, R t.program (x.run t).2.program

/-- A relation that holds while a program comes no further in its area. -/
class Persists (R : ChannelProgram → ChannelProgram → Prop) : Prop where
  trans : ∀ {p q r}, R p q → R q r → R p r
  rests : ∀ {p q}, p.Rests q → R p q

instance : Persists ChannelProgram.Rests := ⟨.trans, id⟩

/-- A relation that holds while a program remains at its doubleword, and when data chaining leads it on. -/
class Carries (R : ChannelProgram → ChannelProgram → Prop) : Prop where
  trans : ∀ {p q r}, R p q → R q r → R p r
  remains : ∀ {p q}, p.Remains q → R p q
  chainData : Relates R chainData

instance [Carries R] : Persists R := ⟨Carries.trans, fun h => Carries.remains h.toRemains⟩

namespace Relates

theorem current {f : ChannelProgram → Step ε α} (hf : ∀ p, Relates R (f p)) : Relates R (Transfer.current >>= f) :=
  fun t => hf t.program t

theorem get {f : Transfer → Step ε α} (hf : ∀ t, Relates R (f t)) : Relates R (MonadState.get >>= f) := fun t => hf t t

theorem ite {c : Prop} [Decidable c] {x y : Step ε α} (hx : Relates R x) (hy : Relates R y) :
    Relates R (if c then x else y) := by
  split
  · exact hx
  · exact hy

theorem orStop {x : Step ChannelStatus α} (hx : Relates R x) : Relates R (orStop x) := fun t => by
  have hfirst := hx t
  cases hstep : x t with
  | ok a t' =>
    rw [run_of_ok hstep] at hfirst
    rw [run_of_ok (orStop_of_ok hstep)]
    exact hfirst
  | error s t' =>
    rw [run_of_error hstep] at hfirst
    rw [run_of_error (orStop_of_error hstep)]
    exact hfirst

section
variable [Persists R]

theorem refl {p : ChannelProgram} : R p p := Persists.rests .refl

theorem pure {a : α} : Relates R (Pure.pure a : Step ε α) := fun _ => refl

theorem throw {e : ε} : Relates R (MonadExcept.throw e : Step ε α) := fun _ => refl

theorem bind {x : Step ε α} {f : α → Step ε β} (hx : Relates R x) (hf : ∀ a, Relates R (f a)) :
    Relates R (x >>= f) := fun t => by
  have hfirst := hx t
  cases hstep : x t with
  | ok a t' =>
    rw [run_of_ok hstep] at hfirst
    have hrun : (x >>= f).run t = (f a).run t' := by
      rw [Step.run, bind_of_ok hstep]
      rfl
    rw [hrun]
    exact Persists.trans hfirst (hf a t')
  | error e t' =>
    rw [run_of_error hstep] at hfirst
    rw [run_of_error (bind_of_error hstep)]
    exact hfirst

theorem change {f : ChannelProgram → ChannelProgram} (hf : ∀ p : ChannelProgram, p.Rests (f p)) :
    Relates R (modifyProgram f : Step ε Unit) := fun _ => Persists.rests (hf _)

theorem failMemory : Relates R (failMemory : Step ChannelStatus α) :=
  .bind (.change fun _ => ⟨⟨rfl, rfl, rfl, rfl, fun _ => ChannelStatus.contains_union_of_left⟩, rfl, rfl⟩) fun _ =>
    .current fun _ => .throw

theorem flush : Relates R flush := by
  refine .current fun p => ?_
  cases p.staged with
  | none => exact .pure
  | some word =>
    refine .ite (.bind (fun t => ?_) fun stored =>
      .ite (.change fun _ => ⟨⟨rfl, rfl, rfl, rfl, fun _ => id⟩, rfl, rfl⟩) .failMemory) .pure
    unfold Step.run
    dsimp only
    cases Memory.writeWord (word.address.setWidth 32) word.value t.memory with
    | ok u m => exact refl
    | error e m => exact refl

theorem stage {a : Address} : Relates R (stage a) := by
  refine .current fun p => ?_
  extract_lets staged restage
  have hrestage : Relates R (restage ()) := by
    refine .bind .flush fun _ => .get fun t => ?_
    split
    · exact .bind (.change fun _ => ⟨⟨rfl, rfl, rfl, rfl, fun _ => id⟩, rfl, rfl⟩) fun _ => .pure
    · exact .failMemory
  cases staged with
  | none => exact hrestage
  | some word => exact .ite .pure hrestage

theorem isComplete : Relates R isComplete := fun t => by
  by_cases hended : t.program.phase = .ended
  · rw [run_of_ok (show Transfer.isComplete t = .ok true t from if_pos hended)]
    exact refl
  by_cases hcount : t.program.count ≠ 0
  · have hroom : Transfer.isComplete t = .ok false t := (if_neg hended).trans (if_pos hcount)
    rw [run_of_ok hroom]
    exact refl
  have hflush := flush (R := R) t
  have hcomplete := (if_neg hended).trans (if_neg hcount) (a := Transfer.isComplete t)
  cases hstep : Transfer.flush t with
  | error s t' =>
    rw [run_of_error hstep] at hflush
    rw [hstep] at hcomplete
    rw [run_of_ok hcomplete]
    exact hflush
  | ok u t' =>
    rw [run_of_ok hstep] at hflush
    rw [hstep] at hcomplete
    dsimp only at hcomplete
    split at hcomplete
    · rw [run_of_ok hcomplete]
      exact hflush
    · rw [run_of_ok hcomplete]
      exact Persists.trans hflush (Persists.rests .finish)

end

variable [Carries R]

/-- A change that may lead the program on in its area. -/
theorem move {f : ChannelProgram → ChannelProgram} (hf : ∀ p : ChannelProgram, p.Remains (f p)) :
    Relates R (modifyProgram f : Step ε Unit) := fun _ => Carries.remains (hf _)

theorem readByte : Relates R readByte :=
  .current fun _ => .ite (.current fun _ => .throw) <| .current fun _ => .ite .throw <|
    .bind (.orStop Carries.chainData) fun _ => .ite (.bind (.change fun _ => .finish) fun _ => .throw) <|
      .current fun _ => .bind (.orStop .stage) fun _ =>
        .bind (.move fun _ => ⟨rfl, rfl, rfl, rfl, fun _ => id⟩) fun _ => .pure

theorem writeByte {b : Byte} : Relates R (writeByte b) := by
  refine .current fun _ => .ite (.current fun _ => .throw) <| .current fun _ => .ite
    (.current fun _ => .ite (.bind (.change fun _ => .addStatus) fun _ => .throw) .throw) ?_
  have hput : Relates R (do
      let a := (← Transfer.current).dataAddress
      let next := if (← Transfer.current).command = some ChannelCommand.readBackward then a - 1 else a + 1
      if !(← Transfer.current).flags.contains .skip then
        let word ← Transfer.orStop (Transfer.stage a)
        let word : StagedWord :=
          { word with value := Memory.withByte word.value (offsetOf a) b, dirty := true }
        modifyProgram fun p => { p with staged := some word }
      modifyProgram fun p => { p with dataAddress := next, count := p.count - 1 } : Step TransferEnd Unit) :=
    .current fun _ => .current fun _ => .current fun _ => .ite
      (.bind (.orStop .stage) fun _ => .bind (.move fun _ => ⟨rfl, rfl, rfl, rfl, fun _ => id⟩) fun _ =>
        .move fun _ => ⟨rfl, rfl, rfl, rfl, fun _ => id⟩)
      (.move fun _ => ⟨rfl, rfl, rfl, rfl, fun _ => id⟩)
  exact .current fun _ => .ite
    (.bind (.orStop .flush) fun _ => .bind (.orStop Carries.chainData) fun _ =>
      .ite (.bind (.change fun _ => .finish) fun _ => .throw) hput) hput

end Relates
end Transfer
end Concept32
