import Concept32.Proofs.Channels.Ending
import Concept32.Proofs.Channels.Tracking

/-!
# The rest of a doubleword

A program that chains neither data nor a command moves the bytes that are left of its doubleword, one after another,
and no others, whatever its device does while it is serviced.
-/

namespace Concept32
open EStateM

namespace ChannelProgram
variable {first p q : ChannelProgram} {n : Nat}

/-- Neither data nor a command is chained to the doubleword. -/
structure IsLast (p : ChannelProgram) : Prop where
  data : p.flags.contains .dataChain = false
  command : p.flags.contains .commandChain = false

theorem IsLast.of_flags (h : p.flags = .none) : p.IsLast := by
  constructor <;> rw [h] <;> decide

theorem IsLast.congr (h : p.IsLast) (hflags : q.flags = p.flags) : q.IsLast :=
  ⟨hflags ▸ h.data, hflags ▸ h.command⟩

/-- The next byte comes after `n` others of what is left of the doubleword of `first`. -/
structure AtByte (first : ChannelProgram) (n : Nat) (p : ChannelProgram) : Prop where
  next : p.next = first.next
  left : p.count ≠ 0
  count : p.count.toNat + n = first.count.toNat
  place : first.command ≠ some ChannelCommand.readBackward →
    p.dataAddress = first.dataAddress + BitVec.ofNat 24 n

/-- After `n` bytes the program chains no further, and what it has left is left of the doubleword of `first`. -/
structure GoesOn (first : ChannelProgram) (n : Nat) (p : ChannelProgram) : Prop where
  last : p.IsLast
  command : p.command = first.command ∨ p.command = none
  atByte : p.count ≠ 0 → AtByte first n p

/-- The program chains no more than it did, and has the same bytes left or none. -/
structure Subsides (p q : ChannelProgram) : Prop where
  last : p.IsLast → q.IsLast
  command : q.command = p.command ∨ q.command = none
  rest : q.count ≠ 0 → q.next = p.next ∧ q.count = p.count ∧ q.dataAddress = p.dataAddress

/-- The program has moved a byte. -/
structure Passes (p q : ChannelProgram) : Prop where
  next : q.next = p.next
  flags : q.flags = p.flags
  command : q.command = p.command
  count : q.count = p.count - 1
  place : p.command ≠ some ChannelCommand.readBackward → q.dataAddress = p.dataAddress + 1

theorem Rests.subsides (h : p.Rests q) : p.Subsides q where
  last hp := hp.congr h.flags
  command := .inl h.command
  rest _ := ⟨h.next, h.count, h.dataAddress⟩

theorem subsides_receive {a : DeviceAddress} {s : ChannelStatus} : p.Subsides (p.receive a s) := by
  rw [receive]
  split
  · exact ⟨fun h => h.congr rfl, .inl rfl, fun _ => ⟨rfl, rfl, rfl⟩⟩
  · exact ⟨fun h => h.congr rfl, .inl rfl, fun _ => ⟨rfl, rfl, rfl⟩⟩

theorem GoesOn.subsides (h : GoesOn first n p) (hq : p.Subsides q) : GoesOn first n q where
  last := hq.last h.last
  command := hq.command.elim (fun heq => heq ▸ h.command) .inr
  atByte hleft := by
    obtain ⟨hnext, hcount, hplace⟩ := hq.rest hleft
    have hbyte := h.atByte (hcount ▸ hleft)
    exact ⟨hnext.trans hbyte.next, hleft, hcount ▸ hbyte.count, fun hforward => hplace.trans (hbyte.place hforward)⟩

/-- A byte is the next of what was left. -/
theorem GoesOn.passes (h : GoesOn first n p) (hleft : p.count ≠ 0) (hq : p.Passes q) : GoesOn first (n + 1) q where
  last := h.last.congr hq.flags
  command := hq.command ▸ h.command
  atByte hleft' := by
    have hbyte := h.atByte hleft
    refine ⟨hq.next.trans hbyte.next, hleft', ?_, fun hforward => ?_⟩
    · have hcount := hbyte.count
      rw [hq.count]
      bv_omega
    · have hforward' : p.command ≠ some ChannelCommand.readBackward := by
        rcases h.command with heq | heq <;> rw [heq]
        · exact hforward
        · exact fun h => by cases h
      rw [hq.place hforward', hbyte.place hforward, BitVec.add_assoc, BitVec.ofNat_add]
      rfl

/-- The bytes are moved one after another, from a byte of what was left of the doubleword of `first`. -/
def Follows (first : ChannelProgram) (n : Nat) (moves : List ChannelProgram) : Prop :=
  ∀ i p, moves[i]? = some p → AtByte first (n + i) p

theorem follows_nil : Follows first n [] := fun i p h => by simp at h

theorem follows_singleton (h : AtByte first n p) : Follows first n [p] := fun i q hq => by
  cases i with
  | zero =>
    cases hq
    exact h
  | succ i => cases hq

theorem Follows.append {moves later : List ChannelProgram} (h : Follows first n moves)
    (hlater : Follows first (n + moves.length) later) : Follows first n (moves ++ later) := fun i p hp => by
  rcases Nat.lt_or_ge i moves.length with hlt | hge
  · rw [List.getElem?_append_left hlt] at hp
    exact h i p hp
  · rw [List.getElem?_append_right hge] at hp
    have hbyte := hlater _ p hp
    rwa [show n + moves.length + (i - moves.length) = n + i by omega] at hbyte

/-- There are no more of them than bytes were left. -/
theorem Follows.length_le {moves : List ChannelProgram} (h : Follows first 0 moves) :
    moves.length ≤ first.count.toNat := by
  rcases Nat.eq_zero_or_pos moves.length with hnone | hsome
  · omega
  · have hbyte := h (moves.length - 1) moves[moves.length - 1] (List.getElem?_eq_getElem _)
    have hcount := hbyte.count
    have hleft := hbyte.left
    have hpos : 0 < moves[moves.length - 1].count.toNat := by bv_omega
    omega

end ChannelProgram

namespace Transfer
open ChannelProgram
variable {ε α : Type} {t : Transfer} {b : Byte}

/-- A call either moves a byte that was left, or the program has come no further. -/
inductive Moved (p : ChannelProgram) : Except ε α → ChannelProgram → Prop
  | refused {e : ε} {q : ChannelProgram} (h : p.Rests q) : Moved p (.error e) q
  | taken {answer : α} {q : ChannelProgram} (hleft : p.count ≠ 0) (h : p.Passes q) : Moved p (.ok answer) q

theorem moved_of_error {x : Step ε α} {e : ε} {t' : Transfer} (hx : x t = .error e t')
    (h : t.program.Rests t'.program) :
    Moved t.program (x.run t).1 (x.run t).2.program := by
  rw [run_of_error hx]
  exact .refused h

theorem moved_of_ok {x : Step ε α} {answer : α} {t' : Transfer} (hx : x t = .ok answer t') (hleft : t.program.count ≠ 0)
    (h : t.program.Passes t'.program) : Moved t.program (x.run t).1 (x.run t).2.program := by
  rw [run_of_ok hx]
  exact .taken hleft h

theorem rests_stage {a : Address} : t.program.Rests ((stage a).run t).2.program := Relates.stage t

theorem moved_readByte (hchain : t.program.flags.contains .dataChain = false) :
    Moved t.program (readByte.run t).1 (readByte.run t).2.program := by
  by_cases herror : t.program.status.hasError
  · exact moved_of_error (congrFun (if_pos herror) t) .refl
  by_cases hended : t.program.phase = .ended
  · exact moved_of_error ((congrFun (if_neg herror) t).trans (congrFun (if_pos hended) t)) .refl
  have hstart := (congrFun (if_neg herror) t).trans (congrFun (if_neg hended) t) (a := readByte t)
  have hdata := chainData_of_not_chained hchain
  by_cases hcount : t.program.count = 0
  · rw [hcount] at hdata
    exact moved_of_error (hstart.trans (withData_of_none hdata)) .finish
  · rw [decide_eq_true hcount] at hdata
    have hrests := rests_stage (t := t) (a := t.program.dataAddress)
    have hread : readByte t = (orStop (stage t.program.dataAddress) >>= fun word => do
        modifyProgram fun p => { p with dataAddress := t.program.dataAddress + 1, count := p.count - 1 }
        return Memory.byteOf word.value (offsetOf t.program.dataAddress) : Step TransferEnd Byte) t :=
      hstart.trans (withData_of_more hdata)
    cases hstage : stage t.program.dataAddress t with
    | error s t' =>
      rw [run_of_error hstage] at hrests
      exact moved_of_error (hread.trans (bind_of_error (orStop_of_error hstage))) hrests
    | ok word t' =>
      rw [run_of_ok hstage] at hrests
      exact moved_of_ok (hread.trans (bind_of_ok (orStop_of_ok hstage))) hcount
        ⟨hrests.next, hrests.flags, hrests.command, congrArg (· - 1) hrests.count, fun _ => rfl⟩

theorem moved_put (hleft : t.program.count ≠ 0) : Moved t.program ((put b).run t).1 ((put b).run t).2.program := by
  have hplace : t.program.command ≠ some ChannelCommand.readBackward →
      (if t.program.command = some ChannelCommand.readBackward then t.program.dataAddress - 1
        else t.program.dataAddress + 1) = t.program.dataAddress + 1 := fun hforward => if_neg hforward
  cases hskip : t.program.flags.contains .skip with
  | true => exact moved_of_ok (put_of_skip hskip) hleft ⟨rfl, rfl, rfl, rfl, hplace⟩
  | false =>
    have hrests := rests_stage (t := t) (a := t.program.dataAddress)
    cases hstage : stage t.program.dataAddress t with
    | error s t' =>
      rw [run_of_error hstage] at hrests
      exact moved_of_error ((put_of_not_skip hskip).trans (bind_of_error (orStop_of_error hstage))) hrests
    | ok word t' =>
      rw [run_of_ok hstage] at hrests
      exact moved_of_ok ((put_of_not_skip hskip).trans (bind_of_ok (orStop_of_ok hstage))) hleft
        ⟨hrests.next, hrests.flags, hrests.command, congrArg (· - 1) hrests.count, hplace⟩

theorem moved_writeByte (hchain : t.program.flags.contains .dataChain = false) :
    Moved t.program ((writeByte b).run t).1 ((writeByte b).run t).2.program := by
  rcases accepting_cases _ t with ⟨-, p, e, hp, hrefused⟩ | ⟨-, haccepted⟩
  · have hwrite : writeByte b t = .error e ⟨p, t.memory⟩ := hrefused
    rcases hp with rfl | rfl
    · exact moved_of_error hwrite .refl
    · exact moved_of_error hwrite .addStatus
  · by_cases hcount : t.program.count = 0
    · have hwrite : writeByte b t = _ := haccepted.trans (congrFun (if_pos hcount) t)
      have hrests : t.program.Rests (flush.run t).2.program := Relates.flush t
      cases hflush : flush t with
      | error s t' =>
        rw [run_of_error hflush] at hrests
        exact moved_of_error (hwrite.trans (bind_of_error (orStop_of_error hflush))) hrests
      | ok u t' =>
        rw [run_of_ok hflush] at hrests
        have hdata := chainData_of_not_chained (t := t') (hrests.flags ▸ hchain)
        rw [hrests.count, hcount] at hdata
        exact moved_of_error (hwrite.trans ((bind_of_ok (orStop_of_ok hflush)).trans (withData_of_none hdata)))
          (hrests.trans .finish)
    · have hwrite : writeByte b t = put b t := haccepted.trans (congrFun (if_neg hcount) t)
      rw [show (writeByte b).run t = (put b).run t by rw [Step.run, Step.run, hwrite]]
      exact moved_put hcount

/-- A command that ends takes the rest of its doubleword with it. -/
theorem subsides_endCommand {s : ChannelStatus} (hchain : t.program.flags.contains .dataChain = false) :
    t.program.Subsides ((endCommand s).run t).2.program := by
  have hrests : t.program.Rests (flush.run t).2.program := Relates.flush t
  cases hflush : flush t with
  | error e t' =>
    rw [run_of_error hflush] at hrests
    have hend : endCommand s t = .ok () t' := by rw [endCommand, hflush]
    rw [run_of_ok hend]
    exact hrests.subsides
  | ok u t' =>
    rw [run_of_ok hflush] at hrests
    have hend : endCommand s t = .ok () ⟨ended t'.memory s t'.program, t'.memory⟩ := by rw [endCommand, hflush]
    rw [run_of_ok hend, ended_of_not_chained (hrests.flags ▸ hchain)]
    refine ⟨fun hlast => ?_, .inr rfl, fun _ => ⟨hrests.next, hrests.count, hrests.dataAddress⟩⟩
    by_cases hcleared : ((endStatus s t'.program).hasError || s.endsChain) = true
    · exact .of_flags (if_pos hcleared)
    · exact (hlast.congr hrests.flags).congr (if_neg hcleared)

/-- The program before a call that moves a byte. -/
def movedBy (p : ChannelProgram) : Except ε α → List ChannelProgram
  | .ok _ => [p]
  | .error _ => []

theorem Moved.goesOn {first p q : ChannelProgram} {n : Nat} {answer : Except ε α} (h : Moved p answer q)
    (hp : GoesOn first n p) :
    Follows first n (movedBy p answer) ∧ GoesOn first (n + (movedBy p answer).length) q := by
  cases h with
  | refused h => exact ⟨follows_nil, hp.subsides h.subsides⟩
  | taken hleft h => exact ⟨follows_singleton (hp.atByte hleft), hp.passes hleft h⟩

end Transfer

/-! ### Services -/

namespace Connection
open ChannelProgram Transfer
variable {ω α : Type} {first : ChannelProgram} {n : Nat} {c : Connection}

theorem answer_transferStep {α : Type} {x : Step TransferEnd α} : (transferStep x c).1 = (x.run c.transfer).1 := by
  obtain ⟨address, transfer, channel, raised⟩ := c
  unfold transferStep Step.run
  dsimp only
  cases x transfer <;> rfl

theorem moved_transferStep {α : Type} {x : Step TransferEnd α}
    (h : Moved c.transfer.program (x.run c.transfer).1 (x.run c.transfer).2.program) :
    Moved c.transfer.program (transferStep x c).1 (transferStep x c).2.transfer.program := by
  rw [answer_transferStep, transfer_transferStep]
  exact h

/-- The bytes that a service moves, each with the program before. -/
def moves : Service ω α → Connection → List ChannelProgram
  | .done _, _ => []
  | .output _ rest, c => moves rest c
  | .inspect next, c => moves (next c.view) c
  | .readByte next, c => movedBy c.transfer.program c.readByte.1 ++ moves (next c.readByte.1) c.readByte.2
  | .writeByte b next, c =>
    movedBy c.transfer.program (c.writeByte b).1 ++ moves (next (c.writeByte b).1) (c.writeByte b).2
  | .isComplete next, c => moves (next c.isComplete.1) c.isComplete.2
  | .endCommand s rest, c => moves rest (c.endCommand s)
  | .attention s rest, c => moves rest (c.attention s)
  | .wake s rest, c => moves rest (c.wake s)

/-- A call that moves a byte, and the rest of the service. -/
theorem goesOn_moved {α : Type} {answer : Except TransferEnd α} {c' c'' : Connection} {later : List ChannelProgram}
    (hmoved : Moved c.transfer.program answer c'.transfer.program) (h : GoesOn first n c.transfer.program)
    (hrest : ∀ n, GoesOn first n c'.transfer.program →
      Follows first n later ∧ GoesOn first (n + later.length) c''.transfer.program) :
    Follows first n (movedBy c.transfer.program answer ++ later) ∧
      GoesOn first (n + (movedBy c.transfer.program answer ++ later).length) c''.transfer.program := by
  obtain ⟨hfollows, hgoes⟩ := hmoved.goesOn h
  obtain ⟨hlater, hend⟩ := hrest _ hgoes
  refine ⟨hfollows.append hlater, ?_⟩
  rw [List.length_append, ← Nat.add_assoc]
  exact hend

theorem goesOn_run (service : Service ω α) (output : Array ω) (h : GoesOn first n c.transfer.program) :
    Follows first n (moves service c) ∧
      GoesOn first (n + (moves service c).length) (c.run service output).2.1.transfer.program := by
  induction service generalizing c n output with
  | done value => exact ⟨follows_nil, h⟩
  | output item rest ih => exact ih _ h
  | inspect next ih => exact ih c.view _ h
  | readByte next ih =>
    exact goesOn_moved (moved_transferStep (moved_readByte h.last.data)) h fun n hgoes => ih _ output hgoes
  | writeByte b next ih =>
    exact goesOn_moved (moved_transferStep (moved_writeByte h.last.data)) h fun n hgoes => ih _ output hgoes
  | isComplete next ih =>
    have hrests : c.transfer.program.Rests c.isComplete.2.transfer.program := by
      rw [transfer_isComplete]
      exact Relates.isComplete _
    exact ih _ output (h.subsides hrests.subsides)
  | endCommand s rest ih =>
    have hends : c.transfer.program.Subsides (c.endCommand s).transfer.program := by
      rw [transfer_endCommand]
      exact subsides_endCommand h.last.data
    exact ih output (h.subsides hends)
  | attention s rest ih =>
    have hreceives : c.transfer.program.Subsides (c.attention s).transfer.program := subsides_receive
    exact ih output (h.subsides hreceives)
  | wake s rest ih => exact ih output h

end Connection
end Concept32
