import Concept32.Device.Console
import Concept32.Proofs.Channels.Advancing
import Concept32.Proofs.Channels.Recording

/-!
# Rounds of polls and scans

A start and the rounds of polls and scans after it give a device the commands of its list in order, each once, and
queue one status doubleword when the list has ended or was wrong.
-/

namespace Concept32
namespace Channels
open ChannelProgram
variable {δ ω : Type} [Peripheral δ ω] {c : Channels δ ω} {a : DeviceAddress} {now : Nat} {mem : Memory}
  {s : Subchannel δ} {idle busy : δ → Prop} {kind : Byte → Prop} {received : δ → List Byte} {first : Address}
  {before : List StatusDoubleword} {progress : Progress} {polls scans : Nat → Nat} {start : Channels δ ω × Memory}
  {n : Nat}

/-- The channels and memory after a number of rounds, each a poll and a scan at their times. -/
def rounds (polls scans : Nat → Nat) (start : Channels δ ω × Memory) : Nat → Channels δ ω × Memory
  | 0 => start
  | n + 1 =>
    let state := rounds polls scans start n
    let polled := state.1.poll (polls n) state.2
    ((polled.1.scan (scans n) polled.2).2, polled.2)

/-- The channels and memory after the poll of a round. -/
def polled (polls scans : Nat → Nat) (start : Channels δ ω × Memory) (n : Nat) : Channels δ ω × Memory :=
  (rounds polls scans start n).1.poll (polls n) (rounds polls scans start n).2

/-- How the list that begins at an address goes, with memory as it is in each round and the commands that the device
ends with a status modifier. -/
def course (polls scans : Nat → Nat) (start : Channels δ ω × Memory) (a : DeviceAddress) (first : Address) :
    Nat → Progress :=
  Progress.walk (fun n => (rounds polls scans start n).2)
    (fun n => ((polled polls scans start n).1.program? a).any fun p => p.status.contains .modifier) first

/-- A round in which the poll comes to its end and is late enough for the service that a device asked for, the device
ends its command without an error, and the scan finds room for status. -/
structure Smooth (polls scans : Nat → Nat) (start : Channels δ ω × Memory) (a : DeviceAddress) (progress : Progress)
    (n : Nat) : Prop where
  all : (polled polls scans start n).1.schedule.NoneDue (polls n)
  late : ∀ due, (rounds polls scans start n).1.schedule.time? a = some due → due ≤ polls n
  clean : ∀ next e, progress = .given next e →
    ∀ p, (polled polls scans start n).1.program? a = some p → p.status.hasError = false
  room : ((polled polls scans start n).1.turn (scans n) (polled polls scans start n).2 a).HasRoom a

theorem rounds_succ : rounds polls scans start (n + 1) =
    (((polled polls scans start n).1.scan (scans n) (polled polls scans start n).2).2,
      (polled polls scans start n).2) := by
  rw [rounds, polled]

theorem course_succ : course polls scans start a first (n + 1) =
    (course polls scans start a first n).advance (polled polls scans start n).2
      (((polled polls scans start n).1.program? a).any fun p => p.status.contains .modifier) := by
  simp only [course, Progress.walk, rounds_succ]

theorem stands_rounds (log : List Byte) (hends : Peripheral.EndsCommands idle busy kind)
    (hlogs : Peripheral.Logs received)
    (hstart : ∃ s, Stands idle busy received before (log ++ Progress.commands (course polls scans start a first) 1)
      (course polls scans start a first 0) start.1 a s ∧ Alert (course polls scans start a first 0) start.1 a)
    (hlist : ∀ k ≤ n, ∀ next e, course polls scans start a first k = .given next e →
      kind e.command ∧ e.flags.contains .dataChain = false)
    (hrounds : ∀ k < n, Smooth polls scans start a (course polls scans start a first k) k) :
    ∃ s, Stands idle busy received before (log ++ Progress.commands (course polls scans start a first) (n + 1))
      (course polls scans start a first n) (rounds polls scans start n).1 a s ∧
      Alert (course polls scans start a first n) (rounds polls scans start n).1 a := by
  induction n with
  | zero => exact hstart
  | succ n ih =>
    obtain ⟨s, hstands, halert⟩ := ih (fun k hk => hlist k (by omega)) fun k hk => hrounds k (by omega)
    obtain ⟨hall, hlate, hclean, hroom⟩ := hrounds n (by omega)
    have hdata : ∀ next e, course polls scans start a first n = .given next e → e.flags.contains .dataChain = false :=
      fun next e heq => (hlist n (by omega) next e heq).2
    have hpolled := hstands.poll halert hends hlogs hall hlate hdata hclean
    rw [← polled] at hpolled
    obtain ⟨s₁, hstands₁, halert₁, htime⟩ := hpolled
    have hnext : course polls scans start a first (n + 1) = (course polls scans start a first n).advance
        (polled polls scans start n).2 (s₁.program.status.contains .modifier) := by
      rw [course_succ, hstands₁.program?, Option.any_some]
    rw [Progress.commands_succ, ← List.append_assoc, rounds_succ, hnext]
    exact hstands₁.scan halert₁ htime hends hlogs hroom hdata fun next e heq =>
      (hlist (n + 1) (by omega) next e (hnext.trans heq)).1

/-! ### Rounds with a record of the commands -/

section
variable {start : Channels (Recorded δ) ω × Memory}

theorem forget_rounds (n : Nat) :
    (rounds polls scans start n).map forget id = rounds polls scans (start.map forget id) n := by
  induction n with
  | zero => rfl
  | succ n ih =>
    rw [rounds, rounds, ← ih]
    dsimp only [Prod.map_fst, Prod.map_snd, id]
    rw [← forget_poll]
    dsimp only [Prod.map_fst, Prod.map_snd, id]
    rw [← forget_scan]
    rfl

theorem forget_polled (n : Nat) :
    (polled polls scans start n).map forget id = polled polls scans (start.map forget id) n := by
  rw [polled, polled, ← forget_rounds, Prod.map_fst, Prod.map_snd, id, forget_poll]

theorem course_forget : course polls scans (start.map forget id) a first = course polls scans start a first := by
  rw [course, course]
  congr 1
  · funext n
    rw [← forget_rounds, Prod.map_snd, id]
  · funext n
    rw [← forget_polled, Prod.map_fst, program?_forget]

theorem smooth_forget (h : Smooth polls scans (start.map forget id) a progress n) :
    Smooth polls scans start a progress n := by
  obtain ⟨hall, hlate, hclean, hroom⟩ := h
  rw [← forget_polled, Prod.map_fst] at hall hclean hroom
  rw [← forget_rounds, Prod.map_fst] at hlate
  rw [← forget_turn] at hroom
  exact ⟨hall, hlate, fun next e heq p hp => hclean next e heq p (program?_forget.trans hp), hroom⟩

end

theorem forget_startIo {c : Channels δ ω} {s : Subchannel δ} (hs : c.get? a = some s) (hfree : Free s)
    (hwilling : Willing s now) :
    (c.recorded.startIo now mem a first).2.map forget id = (c.startIo now mem a first).2 := by
  rw [startIo_of_willing hs hfree hwilling, startIo_of_willing (get?_recorded hs) hfree hwilling]
  refine Prod.ext ?_ rfl
  show ((c.recorded.prepared now a first ⟨s.device, []⟩).launch now (c.echoed a first mem) a).2.forget = _
  have hlaunch :=
    forget_launch (c := c.recorded.prepared now a first ⟨s.device, []⟩) (a := a) now (c.echoed a first mem)
  rw [forget_prepared, forget_recorded] at hlaunch
  exact congrArg Prod.snd hlaunch

/-- The commands that the device at an address is given by a start and a number of rounds after it. They are read off
a record beside the device, which changes nothing in the start and the rounds (`forget_startIo`, `forget_rounds`). -/
def commandsGiven (c : Channels δ ω) (now : Nat) (mem : Memory) (a : DeviceAddress) (first : Address)
    (polls scans : Nat → Nat) (n : Nat) : List Byte :=
  (((rounds polls scans (c.recorded.startIo now mem a first).2 n).1.get? a).map fun s => s.device.commands).getD []

/-- A start and the rounds after it give the device the commands of its list, in order and each once, and one status
doubleword is queued when the list has ended or was wrong. -/
theorem startIo_chains (hends : Peripheral.EndsCommands idle busy kind) (hs : c.get? a = some s) (hfree : Free s)
    (hwilling : Willing s now) (hidle : idle s.device) (htime : c.schedule.time? a = none) (hloading : c.loading = none)
    (hroom : c.HasRoom a) (hstart : (c.startIo now mem a first).2 = start)
    (hlist : ∀ k ≤ n, ∀ next e, course polls scans start a first k = .given next e →
      kind e.command ∧ e.flags.contains .dataChain = false)
    (hfirst : ∀ next e, course polls scans start a first 0 = .given next e →
      e.flags.contains .programInterrupt = false)
    (hrounds : ∀ k < n, Smooth polls scans start a (course polls scans start a first k) k) :
    c.commandsGiven now mem a first polls scans n = Progress.commands (course polls scans start a first) (n + 1) ∧
      Queued a (c.waiting a) ((rounds polls scans start n).1.waiting a) (course polls scans start a first n) := by
  have hs' := get?_recorded hs
  have hforget : (c.recorded.startIo now mem a first).2.map forget id = start :=
    (forget_startIo hs hfree hwilling).trans hstart
  have hmemory : (rounds polls scans (c.recorded.startIo now mem a first).2 0).2 = c.recorded.echoed a first mem := by
    rw [rounds, startIo_of_willing hs' hfree hwilling]
    rfl
  rw [← hforget, course_forget] at hlist hfirst hrounds ⊢
  rw [commandsGiven, ← forget_rounds, Prod.map_fst]
  obtain ⟨s', hbegun, halert⟩ := stands_startIo (endsCommands_recorded hends) logs_recorded hs' hfree hwilling hidle
    htime hloading hroom hmemory fun next e heq => ⟨(hlist 0 (Nat.zero_le n) next e heq).1, hfirst next e heq⟩
  obtain ⟨s'', hstands, -⟩ := stands_rounds [] (endsCommands_recorded hends) logs_recorded
    ⟨s', by rw [Progress.commands_succ]; exact hbegun, halert⟩ hlist fun k hk => smooth_forget (hrounds k hk)
  refine ⟨?_, hstands.queued⟩
  rw [hstands.subchannel]
  exact hstands.received

end Channels

/-! ### A console that prints -/

theorem Service.endsCommand_readBytes {ω β : Type} {P : β → Prop} {limit : Nat} {taken : Array Byte}
    {f : Array Byte × Option TransferEnd → Service ω β} (h : ∀ value, (f value).EndsCommand P) :
    ((readBytes limit taken).andThen f).EndsCommand P := by
  induction limit generalizing taken with
  | zero => exact h _
  | succ limit ih =>
    intro answer
    cases answer with
    | ok b => exact ih
    | error e => exact h _

namespace Console
open Channels ChannelProgram

theorem endsCommand_print {β : Type} {P : β → Prop} {text : List Char} {f : Unit → Service Char β}
    (h : (f ()).EndsCommand P) : ((print text).andThen f).EndsCommand P := by
  induction text with
  | nil => exact h
  | cons item rest ih => exact ih

/-- The commands that a console ends well. -/
def Knows (command : Byte) : Prop :=
  command = 0x00#8 ∨ command = 0x03#8 ∨ command = 0x04#8 ∨ ChannelCommand.isWrite command = true

theorem startCommand_cases {command : Byte} (h : Knows command) :
    startCommand command = .done (ChannelStatus.channelEnd.union .deviceEnd) ∨
      startCommand command = .accepted lineTime := by
  unfold startCommand
  rcases h with rfl | rfl | rfl | hwrite
  · exact .inl rfl
  · exact .inl rfl
  · exact .inl rfl
  · split
    · exact .inl rfl
    · have hread : command ≠ 0x02#8 := fun hread => by
        rw [hread] at hwrite
        cases hwrite
      rw [if_neg hread]
      exact .inr rfl

theorem endsCommands : Peripheral.EndsCommands (fun _ : Console => True) (fun _ => True) Knows where
  startIo _ _ _ := trivial
  answers d now command _ hknows := by
    have hreaction : reactionTo d now command =
        (.only d (startCommand command) : Reaction Console Char CommandResponse) := by
      unfold reactionTo
      exact if_neg (by simp [Peripheral.writeProtected])
    rw [hreaction]
    rcases startCommand_cases hknows with heq | heq
    · rw [Reaction.only, heq]
      exact ⟨by decide, trivial⟩
    · rw [Reaction.only, heq]
      trivial
  service d _ _ := Service.endsCommand_readBytes fun _ => endsCommand_print ⟨by decide, trivial, rfl⟩

def address : DeviceAddress := ⟨0x1000#15⟩

def attached : Channels Console Char := Channels.empty.attach 0 address ⟨⟩

/-- A list that prints four characters and then, where a transfer leads, ends a command at once. -/
def list : Memory :=
  ⟨#[0x01000020, 0x40000004, 0x08000018, 0x00000000, 0x00000000, 0x00000000, 0x03000000, 0x00000000, 0x41424344],
    by decide⟩

/-- The time of every poll and scan. -/
def times (_ : Nat) : Nat := lineTime

def begun : Channels Console Char × Memory := (attached.startIo 0 list address 0).2

theorem course_begun :
    course times times begun address 0 0 = .given 8 ⟨0x01, 0x20, .commandChain, 4⟩ ∧
      course times times begun address 0 1 = .given 0x20 ⟨0x03, 0, .none, 0⟩ ∧
      course times times begun address 0 2 = .ended 0x20 := by
  decide +kernel

theorem checked_begun : ∀ k < 2, (polled times times begun k).1.schedule.next? = none ∧
    ((rounds times times begun k).1.schedule.time? address).all (· ≤ lineTime) = true ∧
    ((polled times times begun k).1.program? address).all (fun p => !p.status.hasError) = true ∧
    (((polled times times begun k).1.turn lineTime (polled times times begun k).2 address).channel
      address.channel).queue.length < RealChannel.queueLimit := by
  decide +kernel

theorem smooth_begun {k : Nat} {progress : Progress} (hk : k < 2) : Smooth times times begun address progress k := by
  obtain ⟨hnext, hlate, hclean, hroom⟩ := checked_begun k hk
  refine ⟨Schedule.noneDue_iff_next?.mpr fun due hdue => ?_, fun due hdue => ?_, fun _ _ _ p hp => ?_, hroom⟩
  · rw [hnext] at hdue
    cases hdue
  · rw [hdue] at hlate
    exact of_decide_eq_true hlate
  · rw [hp] at hclean
    exact Bool.not_eq_true' _ ▸ hclean

/-- The console is given both commands and nothing else, and one status doubleword is queued for them. -/
theorem chains_begun : Peripheral.EndsCommands (fun _ : Console => True) (fun _ => True) Knows ∧
    (∀ k < 2, Smooth times times begun address (course times times begun address 0 k) k) ∧
    attached.commandsGiven 0 list address 0 times times 2 = [0x01#8, 0x03#8] ∧
    ∃ status count, (rounds times times begun 2).1.waiting address = [.of address 0x20 status count] ∧
      Ended status := by
  obtain ⟨hfirst, hsecond, hended⟩ := course_begun
  have hlist : ∀ k ≤ 2, ∀ next e, course times times begun address 0 k = .given next e →
      Knows e.command ∧ e.flags.contains .dataChain = false := by
    intro k hk next e heq
    obtain rfl | rfl | rfl : k = 0 ∨ k = 1 ∨ k = 2 := by omega
    · rw [hfirst] at heq
      cases heq
      exact ⟨.inr (.inr (.inr rfl)), rfl⟩
    · rw [hsecond] at heq
      cases heq
      exact ⟨.inr (.inl rfl), rfl⟩
    · rw [hended] at heq
      cases heq
  have hstart : (attached.startIo 0 list address 0).2 = begun := rfl
  have hroom : attached.HasRoom address := by
    unfold HasRoom
    decide
  have hquiet : ∀ next e, course times times begun address 0 0 = .given next e →
      e.flags.contains .programInterrupt = false := by
    intro next e heq
    rw [hfirst] at heq
    cases heq
    rfl
  obtain ⟨hgiven, hqueued⟩ : attached.commandsGiven 0 list address 0 times times 2 =
      Progress.commands (course times times begun address 0) 3 ∧
      Queued address [] ((rounds times times begun 2).1.waiting address) (.ended 0x20) := by
    rw [← hended]
    exact startIo_chains endsCommands (show attached.get? address = some ⟨⟨⟩, .idle⟩ from rfl) ⟨rfl, rfl⟩ rfl trivial
      rfl rfl hroom hstart hlist hquiet fun k hk => smooth_begun hk
  refine ⟨endsCommands, fun k hk => smooth_begun hk, ?_, hqueued⟩
  rw [hgiven, Progress.commands_succ, Progress.commands_succ, Progress.commands_succ, hfirst, hsecond, hended]
  rfl

end Console
end Concept32
