import Concept32.Proofs.Channels.Ending
import Concept32.Proofs.Channels.Operations
import Concept32.Proofs.Channels.Presenting
import Concept32.Proofs.Channels.Resetting
import Concept32.Proofs.Channels.Starting
import Concept32.Proofs.Words

/-!
# Status is delivered in order

The queue of a real channel through any operations: what is presented is what was queued, in order, but for what came
while the queue was full. What every operation does to a queue is told by its events.
-/

namespace Concept32

/-! ### Reading a status doubleword -/

namespace StatusDoubleword

def subaddress (d : StatusDoubleword) : Byte := d.word1.extractLsb' 24 8

def next (d : StatusDoubleword) : Address := d.word1.setWidth 24

def status (d : StatusDoubleword) : ChannelStatus := ⟨d.word2.extractLsb' 16 16⟩

def count (d : StatusDoubleword) : Half := d.word2.setWidth 16

end StatusDoubleword

/-- Nothing of a report is lost in its doubleword. -/
theorem StatusReport.fields_doubleword (r : StatusReport) :
    r.doubleword.subaddress = r.device.subaddress ∧ r.doubleword.next = r.next ∧ r.doubleword.status = r.status ∧
      r.doubleword.count = r.count :=
  ⟨extractLsb'_joined rfl, setWidth_joined rfl, congrArg ChannelStatus.mk (extractLsb'_joined rfl), setWidth_joined rfl⟩

/-! ### Events of a queue -/

/-- What happens to the queue of a real channel. -/
inductive QueueEvent where
  | push (r : StatusReport)
  | post
  | clear
  deriving DecidableEq

namespace QueueEvent
open RealChannel
variable {queue : List StatusDoubleword} {e : QueueEvent} {events : List QueueEvent}

def after (queue : List StatusDoubleword) : QueueEvent → List StatusDoubleword
  | push r => enqueue queue r
  | post => queue.tail
  | clear => []

/-- The doublewords that are presented. -/
def posted : List StatusDoubleword → List QueueEvent → List StatusDoubleword
  | _, [] => []
  | queue, push r :: rest => posted (enqueue queue r) rest
  | queue, post :: rest => queue.head?.toList ++ posted queue.tail rest
  | _, clear :: rest => posted [] rest

/-- The reports that are taken, when so many are outstanding before. -/
def accepted : Nat → List QueueEvent → List StatusReport
  | _, [] => []
  | outstanding, push r :: rest =>
    if outstanding < queueLimit then r :: accepted (outstanding + 1) rest else accepted outstanding rest
  | outstanding, post :: rest => accepted (outstanding - 1) rest
  | _, clear :: rest => accepted 0 rest

/-- What was presented, and after it what waits, is what waited and what was taken since. -/
theorem posted_append (hclear : clear ∉ events) :
    posted queue events ++ events.foldl after queue =
      queue ++ (accepted queue.length events).map StatusReport.doubleword := by
  induction events generalizing queue with
  | nil => simp [posted, accepted]
  | cons e rest ih =>
    rw [List.mem_cons, not_or] at hclear
    obtain ⟨hne, hrest⟩ := hclear
    cases e with
    | push r =>
      rw [posted, List.foldl_cons, after, ih hrest, accepted]
      unfold enqueue
      by_cases hroom : queue.length < queueLimit
      · simp [hroom]
      · simp [hroom]
    | post =>
      rw [posted, List.foldl_cons, List.append_assoc, after, ih hrest, accepted]
      cases queue with
      | nil => rfl
      | cons d queue => simp
    | clear => exact absurd rfl hne

theorem posted_append_events {first rest : List QueueEvent} :
    posted queue (first ++ rest) = posted queue first ++ posted (first.foldl after queue) rest := by
  induction first generalizing queue with
  | nil => rfl
  | cons e first ih =>
    cases e with
    | push r => exact ih
    | post =>
      rw [List.cons_append, posted, posted, ih, List.append_assoc]
      rfl
    | clear => exact ih

theorem posted_of_not_mem (h : post ∉ events) : posted queue events = [] := by
  induction events generalizing queue with
  | nil => rfl
  | cons e rest ih =>
    rw [List.mem_cons, not_or] at h
    cases e with
    | push r => exact ih h.2
    | post => exact absurd rfl h.1
    | clear => exact ih h.2

theorem length_after (h : queue.length ≤ queueLimit) : (e.after queue).length ≤ queueLimit := by
  cases e with
  | push r =>
    rw [after, enqueue]
    split
    · next hroom =>
      rw [List.length_append]
      exact hroom
    · exact h
  | post =>
    rw [after, List.length_tail]
    omega
  | clear => exact Nat.zero_le _

theorem length_foldl_after (h : queue.length ≤ queueLimit) : (events.foldl after queue).length ≤ queueLimit := by
  induction events generalizing queue with
  | nil => exact h
  | cons e rest ih => exact ih (length_after h)

/-! ### Word by word -/

/-- The words of a queue. -/
def words (queue : List StatusDoubleword) : List Word := queue.flatMap fun d => [d.word1, d.word2]

/-- A queue of words: a report is two words, which are put in and taken out one after the other. -/
def afterWords (fifo : List Word) : QueueEvent → List Word
  | push r => if fifo.length + 2 > 256 then fifo else (fifo ++ [r.doubleword.word1]) ++ [r.doubleword.word2]
  | post => if fifo.length < 2 then fifo else fifo.tail.tail
  | clear => []

theorem length_words : (words queue).length = 2 * queue.length := by
  induction queue with
  | nil => rfl
  | cons d rest ih =>
    simp only [words, List.flatMap_cons, List.length_append, List.length_cons, List.length_nil] at ih ⊢
    omega

theorem words_after : words (e.after queue) = afterWords (words queue) e := by
  cases e with
  | push r =>
    rw [after, enqueue, afterWords, length_words]
    by_cases hroom : queue.length < queueLimit
    · have hfits : ¬2 * queue.length + 2 > 256 := by
        unfold queueLimit at hroom
        omega
      rw [if_pos hroom, if_neg hfits]
      simp [words]
    · have hfull : 2 * queue.length + 2 > 256 := by
        unfold queueLimit at hroom
        omega
      rw [if_neg hroom, if_pos hfull]
  | post =>
    rw [after, afterWords, length_words]
    cases queue with
    | nil => rfl
    | cons d rest =>
      rw [List.length_cons, if_neg (by omega)]
      rfl
  | clear => rfl

theorem words_foldl_after : words (events.foldl after queue) = events.foldl afterWords (words queue) := by
  induction events generalizing queue with
  | nil => rfl
  | cons e rest ih => rw [List.foldl_cons, List.foldl_cons, ih, words_after]

theorem post_not_mem_map_push {reports : List StatusReport} : post ∉ reports.map push := by
  simp

theorem foldl_map_push {reports : List StatusReport} :
    (reports.map push).foldl after queue = reports.foldl enqueue queue := by
  rw [List.foldl_map]
  rfl

end QueueEvent

/-! ### Services -/

namespace Connection
open RealChannel
variable {ω α : Type}

def journal : Service ω α → Connection → List StatusReport
  | .done _, _ => []
  | .output _ rest, c => journal rest c
  | .inspect next, c => journal (next c.view) c
  | .readByte next, c => journal (next c.readByte.1) c.readByte.2
  | .writeByte b next, c => journal (next (c.writeByte b).1) (c.writeByte b).2
  | .isComplete next, c => journal (next c.isComplete.1) c.isComplete.2
  | .endCommand s rest, c => journal rest (c.endCommand s)
  | .attention s rest, c => journal rest (c.attention s)
  | .wake s rest, c => ⟨c.address, 0, s, 0⟩ :: journal rest (c.wake s)

theorem queue_run (service : Service ω α) (c : Connection) (output : Array ω) :
    (c.run service output).2.1.channel.queue = (journal service c).foldl enqueue c.channel.queue := by
  induction service generalizing c output with
  | done value => rfl
  | output item rest ih => exact ih c _
  | inspect next ih => exact ih c.view c output
  | readByte next ih =>
    have hchannel : c.readByte.2.channel = c.channel := channel_transferStep
    rw [← hchannel]
    exact ih _ _ output
  | writeByte b next ih =>
    have hchannel : (c.writeByte b).2.channel = c.channel := channel_transferStep
    rw [← hchannel]
    exact ih _ _ output
  | isComplete next ih =>
    have hchannel : c.isComplete.2.channel = c.channel := channel_isComplete
    rw [← hchannel]
    exact ih _ _ output
  | endCommand s rest ih =>
    have hchannel : (c.endCommand s).channel = c.channel := endCommand_fields.1
    rw [← hchannel]
    exact ih _ output
  | attention s rest ih => exact ih (c.attention s) output
  | wake s rest ih =>
    have hpush : (c.wake s).channel.queue = enqueue c.channel.queue ⟨c.address, 0, s, 0⟩ :=
      queue_push (r := ⟨c.address, 0, s, 0⟩)
    rw [journal, List.foldl_cons, ← hpush]
    exact ih _ output

theorem address_transferStep {β : Type} {x : Transfer.Step TransferEnd β} {c : Connection} :
    (transferStep x c).2.address = c.address := by
  obtain ⟨address, transfer, channel, raised⟩ := c
  rw [transferStep]
  cases x transfer with
  | ok b t => rfl
  | error e t => rfl

theorem device_of_mem_journal {service : Service ω α} {c : Connection} {r : StatusReport}
    (h : r ∈ journal service c) : r.device = c.address := by
  induction service generalizing c with
  | done value => cases h
  | output item rest ih => exact ih h
  | inspect next ih => exact ih _ h
  | readByte next ih => exact (ih _ h).trans address_transferStep
  | writeByte b next ih => exact (ih _ h).trans address_transferStep
  | isComplete next ih =>
    refine (ih _ h).trans ?_
    obtain ⟨address, transfer, channel, raised⟩ := c
    rw [isComplete]
    cases Transfer.isComplete transfer with
    | ok complete t => rfl
    | error e t => exact e.elim
  | endCommand s rest ih =>
    refine (ih h).trans ?_
    obtain ⟨address, transfer, channel, raised⟩ := c
    rw [endCommand]
    cases Transfer.endCommand s transfer with
    | ok u t => rfl
    | error e t => exact e.elim
  | attention s rest ih => exact ih (c := c.attention s) h
  | wake s rest ih =>
    rcases List.mem_cons.mp h with rfl | h
    · rfl
    · exact ih (c := c.wake s) h

end Connection

namespace Channels
open ChannelProgram RealChannel
variable {δ ω : Type} [Peripheral δ ω] {c : Channels δ ω} {a : DeviceAddress} {now : Nat} {mem : Memory} {n : Byte}
  {first : Address} {icb : Word} {r : StatusReport}

/-- What a device reports on a channel while it is serviced. -/
def serviceReports (c : Channels δ ω) (now : Nat) (mem : Memory) (n : Byte) (a : DeviceAddress) : List StatusReport :=
  match c.get? a with
  | none => []
  | some s =>
    if a.channel = n then
      Connection.journal (Peripheral.service s.device now) ⟨a, ⟨s.program, mem⟩, c.channel a.channel, c.raised⟩
    else []

theorem queue_serviceDevice : ((c.serviceDevice now mem a).1.channel n).queue =
    (c.serviceReports now mem n a).foldl enqueue (c.channel n).queue := by
  rw [serviceDevice, serviceReports]
  cases hs : c.get? a with
  | none => rfl
  | some s =>
    have hrun := Connection.queue_run (Peripheral.service s.device now)
      ⟨a, ⟨s.program, mem⟩, c.channel a.channel, c.raised⟩ c.output
    dsimp only
    generalize Connection.run _ _ _ = done at hrun ⊢
    obtain ⟨⟨device, again⟩, ⟨address, ⟨program, mem'⟩, channel, raised⟩, output⟩ := done
    refine (congrArg queue (channel_setChannel c a.channel n channel)).trans ?_
    by_cases hn : n = a.channel
    · rw [if_pos hn, if_pos hn.symm, hn]
      exact hrun
    · rw [if_neg hn, if_neg fun h => hn h.symm]
      rfl

theorem channel_of_mem_serviceReports (h : r ∈ c.serviceReports now mem n a) : r.device.channel = n := by
  rw [serviceReports] at h
  split at h
  · cases h
  · split at h
    · next hn =>
      rw [Connection.device_of_mem_journal h]
      exact hn
    · cases h

/-- What the devices report that are serviced in a poll. -/
def pollReports (now : Nat) (n : Byte) : Nat → Channels δ ω → Memory → List StatusReport
  | 0, _, _ => []
  | limit + 1, c, mem =>
    match c.schedule.popDue? now with
    | none => []
    | some (a, schedule) =>
      let c := { c with schedule := schedule }
      c.serviceReports now mem n a ++
        pollReports now n limit (c.serviceDevice now mem a).1 (c.serviceDevice now mem a).2

theorem queue_pollUpTo {limit : Nat} : ((pollUpTo now limit c mem).1.channel n).queue =
    (pollReports now n limit c mem).foldl enqueue (c.channel n).queue := by
  induction limit generalizing c mem with
  | zero => rfl
  | succ limit ih =>
    rw [pollUpTo, pollReports]
    cases c.schedule.popDue? now with
    | none => rfl
    | some popped =>
      obtain ⟨a, schedule⟩ := popped
      dsimp only
      rw [ih, queue_serviceDevice, List.foldl_append]
      rfl

theorem channel_of_mem_pollReports {limit : Nat} (h : r ∈ pollReports now n limit c mem) : r.device.channel = n := by
  induction limit generalizing c mem with
  | zero => cases h
  | succ limit ih =>
    rw [pollReports] at h
    cases hpop : c.schedule.popDue? now with
    | none =>
      rw [hpop] at h
      cases h
    | some popped =>
      rw [hpop] at h
      rcases List.mem_append.mp h with h | h
      · exact channel_of_mem_serviceReports h
      · exact ih h

/-! ### Starts and tests -/

/-- What the first fetch of a program reports at once: a list that is wrong, or one that asks for an interrupt. -/
def launchReport (c : Channels δ ω) (now : Nat) (mem : Memory) (a : DeviceAddress) : Option StatusReport :=
  match c.continueProgram now mem a false with
  | (.error _, c) => (c.program? a).map (ownReport a)
  | (.ok _, c) =>
    if (c.program? a).any fun p => p.status.contains .programInterrupt then (c.program? a).map (ownReport a)
    else none

/-- A start is let through by the channel and by the device. -/
def begins (c : Channels δ ω) (now : Nat) (a : DeviceAddress) : Bool :=
  (c.get? a).any fun s =>
    Peripheral.attached s.device && !s.program.isBusy && (Peripheral.startIo s.device now).answer.isEmpty

def startReport (c : Channels δ ω) (now : Nat) (mem : Memory) (a : DeviceAddress) (first : Address) :
    Option StatusReport :=
  (c.get? a).bind fun s =>
    if c.begins now a then (c.prepared now a first s.device).launchReport now (c.echoed a first mem) a else none

/-- A test comes to present the status that waits. -/
def tests (c : Channels δ ω) (now : Nat) (a : DeviceAddress) : Bool :=
  (c.get? a).any fun s =>
    Peripheral.attached s.device && !s.program.isBusy && !(Peripheral.testIo s.device now).answer.contains .busy

theorem queue_launch : ((c.launch now mem a).2.channel n).queue =
    (if a.channel = n then c.launchReport now mem a else none).toList.foldl enqueue (c.channel n).queue := by
  have hqueues : Queues c (c.continueProgram now mem a false).2 := queues_continueProgram
  rw [launch, launchReport]
  generalize c.continueProgram now mem a false = begun at hqueues ⊢
  obtain ⟨begun, c'⟩ := begun
  rw [← hqueues.queue n]
  cases begun with
  | error e =>
    refine queue_storeStatus.trans ?_
    rw [program?_modifyProgram_self, Option.map_map]
    rfl
  | ok u =>
    dsimp only
    split
    · refine queue_storeStatus.trans ?_
      rw [program?_modifyProgram_self, Option.map_map]
      rfl
    · rw [ite_self]
      cases (c'.program? a).bind ChannelProgram.command with
      | none => rfl
      | some command => rfl

theorem queue_startIo : ((c.startIo now mem a first).2.1.channel n).queue =
    (if a.channel = n then c.startReport now mem a first else none).toList.foldl enqueue (c.channel n).queue := by
  unfold startReport begins
  cases hs : c.get? a with
  | none =>
    rw [startIo, hs, Option.bind_none, ite_self]
    rfl
  | some s =>
    rw [Option.bind_some, Option.any_some]
    by_cases hfree : Free s
    · rw [hfree.1, hfree.2]
      by_cases hwilling : Willing s now
      · rw [show (Peripheral.startIo s.device now).answer.isEmpty = true from hwilling,
          startIo_of_willing hs hfree hwilling]
        exact queue_launch
      · rw [Bool.eq_false_iff.mpr hwilling, startIo_of_not_willing hs hfree hwilling]
        simp
        rfl
    · obtain ⟨condition, -, heq⟩ := startIo_of_not_free now hs hfree
      have hrefused : (Peripheral.attached s.device && !s.program.isBusy) = false := by
        by_contra h
        simp at h
        exact hfree h
      rw [heq, hrefused]
      simp

theorem device_of_startReport (h : c.startReport now mem a first = some r) : r.device = a := by
  rw [startReport, Option.bind_eq_some_iff] at h
  obtain ⟨s, -, h⟩ := h
  split at h
  · rw [launchReport] at h
    have hown : ∀ {c' : Channels δ ω}, (c'.program? a).map (ownReport a) = some r → r.device = a := fun h => by
      obtain ⟨p, -, rfl⟩ := Option.map_eq_some_iff.mp h
      rfl
    split at h
    · exact hown h
    · split at h
      · exact hown h
      · cases h
  · cases h

/-! ### Presenting -/

section
omit [Peripheral δ ω]
variable {d : StatusDoubleword} {rest : List StatusDoubleword}

/-- Where a channel presents status, as an address of memory. -/
def place (c : Channels δ ω) (n : Byte) : Word := (c.channel n).statusAddress.setWidth 32

theorem channel_congr {c' : Channels δ ω} (h : c'.real = c.real) : c'.channel n = c.channel n := by
  rw [channel, channel, h]

theorem postStatus_of_nil (hqueue : (c.channel n).queue = []) : c.postStatus mem n = (none, c, mem) := by
  rw [postStatus]
  cases hr : c.real.get? n with
  | none => rfl
  | some channel =>
    have hempty : channel.queue = [] := by
      simpa [Channels.channel, hr] using hqueue
    dsimp only
    rw [post, hempty]
    dsimp only
    rw [setChannel, Table.set_of_get? hr]

theorem postStatus_of_cons (hqueue : (c.channel n).queue = d :: rest) :
    c.postStatus mem n = (some (c.place n ||| postedBit), c.setChannel n { c.channel n with queue := rest },
      mem.after (Memory.writePair (c.place n) d.word1 d.word2)) := by
  unfold place
  rw [postStatus]
  cases hr : c.real.get? n with
  | none =>
    rw [Channels.channel, hr] at hqueue
    cases hqueue
  | some channel =>
    have hchannel : c.channel n = channel := by rw [Channels.channel, hr]; rfl
    rw [hchannel] at hqueue ⊢
    dsimp only
    rw [post, hqueue]

theorem queue_postStatus {k : Byte} : ((c.postStatus mem k).2.1.channel n).queue =
    if k = n then (c.channel n).queue.tail else (c.channel n).queue := by
  cases hqueue : (c.channel k).queue with
  | nil =>
    rw [postStatus_of_nil hqueue]
    split
    · next hk => rw [← hk, hqueue]; rfl
    · rfl
  | cons d rest =>
    rw [postStatus_of_cons hqueue]
    refine (congrArg queue (channel_setChannel c k n _)).trans ?_
    by_cases hk : k = n
    · rw [if_pos hk.symm, if_pos hk, ← hk, hqueue]
      rfl
    · rw [if_neg fun h => hk h.symm, if_neg hk]

theorem queue_setChannel_idle {k : Byte} : ((c.setChannel k .idle).channel n).queue =
    if k = n then [] else (c.channel n).queue := by
  rw [channel_setChannel]
  by_cases hk : k = n
  · rw [if_pos hk.symm, if_pos hk]
    rfl
  · rw [if_neg fun h => hk h.symm, if_neg hk]

theorem queue_resetChannel {k : Byte} : ((c.resetChannel k).2.channel n).queue =
    if k = n ∧ c.hasChannel k then [] else (c.channel n).queue := by
  rw [resetChannel]
  cases c.hasChannel k with
  | false => simp
  | true =>
    simp only [and_true]
    exact queue_setChannel_idle

end

/-- A test that comes to it presents status as any other. -/
theorem testIo_of_tests (mem : Memory) (icb : Word) (htests : c.tests now a = true) :
    ∃ c' : Channels δ ω, c'.real = c.real ∧ (c.testIo now mem a icb).2 = match c'.postStatus mem a.channel with
      | (none, d, mem) => (d, mem)
      | (some word, d, mem) => (d, mem.after (Memory.writeWord (icb + 20) word)) := by
  unfold tests at htests
  cases hs : c.get? a with
  | none =>
    rw [hs] at htests
    cases htests
  | some s =>
    rw [hs, Option.any_some, Bool.and_eq_true, Bool.and_eq_true, Bool.not_eq_true', Bool.not_eq_true'] at htests
    obtain ⟨⟨hattached, hidle⟩, hready⟩ := htests
    refine ⟨c.absorb a (Peripheral.testIo s.device now), rfl, ?_⟩
    rw [testIo, hs]
    dsimp only
    rw [hattached, hidle, hready]
    simp only [Bool.not_true, Bool.false_eq_true, if_false]
    cases (c.absorb a (Peripheral.testIo s.device now)).postStatus mem a.channel with
    | mk word done =>
      cases word with
      | none => rfl
      | some word => rfl

theorem testIo_of_not_tests (htests : c.tests now a = false) :
    (c.testIo now mem a icb).2.1.real = c.real ∧ (c.testIo now mem a icb).2.2 = mem := by
  unfold tests at htests
  rw [testIo]
  cases hs : c.get? a with
  | none => exact ⟨rfl, rfl⟩
  | some s =>
    rw [hs, Option.any_some] at htests
    dsimp only
    cases hattached : Peripheral.attached s.device with
    | false => exact ⟨rfl, rfl⟩
    | true =>
      cases hbusy : s.program.isBusy with
      | true => exact ⟨rfl, rfl⟩
      | false =>
        rw [hattached, hbusy] at htests
        cases hready : (Peripheral.testIo s.device now).answer.contains .busy with
        | true => exact ⟨rfl, rfl⟩
        | false =>
          rw [hready] at htests
          cases htests

theorem queue_testIo : ((c.testIo now mem a icb).2.1.channel n).queue =
    if a.channel = n ∧ c.tests now a then (c.channel n).queue.tail else (c.channel n).queue := by
  cases htests : c.tests now a with
  | false =>
    rw [if_neg (by simp), channel_congr (testIo_of_not_tests htests).1]
  | true =>
    obtain ⟨c', hreal, heq⟩ := testIo_of_tests mem icb htests
    have hpost : ((c'.postStatus mem a.channel).2.1.channel n).queue = _ := queue_postStatus
    rw [heq, ← channel_congr hreal]
    simp only [and_true]
    rw [← hpost]
    cases c'.postStatus mem a.channel with
    | mk word done =>
      cases word with
      | none => rfl
      | some word => rfl

/-! ### Loading -/

theorem queue_boot : ((c.boot now mem a).2.channel n).queue =
    if a.channel = n ∧ c.contains a ∧ c.isAttached a then [] else (c.channel n).queue := by
  rw [boot]
  cases c.contains a with
  | false => simp
  | true =>
    cases c.isAttached a with
    | false => simp
    | true =>
      simp only [Bool.not_true, Bool.false_eq_true, if_false, and_true]
      have hqueues : Queues ((c.setChannel a.channel .idle).modifyProgram a fun _ => started a 0)
        (((c.setChannel a.channel .idle).modifyProgram a fun _ => started a 0).continueProgram now mem a false).2 :=
        queues_continueProgram
      generalize ((c.setChannel a.channel .idle).modifyProgram a fun _ => started a 0).continueProgram now mem a false =
        begun at hqueues ⊢
      obtain ⟨begun, c'⟩ := begun
      refine Eq.trans ?_ ((hqueues.queue n).trans queue_setChannel_idle)
      cases begun with
      | error e => rfl
      | ok u => rfl

end Channels

/-! ### Operations -/

namespace Operation
open Channels QueueEvent RealChannel
variable {δ ω : Type} [Peripheral δ ω] {s : WithMemory δ ω} {op : Operation δ} {ops rest : List (Operation δ)}
  {n : Byte} {d : StatusDoubleword} {later : List StatusDoubleword}

/-- What an operation does to the queue of a channel. -/
def events (n : Byte) (s : WithMemory δ ω) : Operation δ → List QueueEvent
  | reset _ => [.clear]
  | resetChannel k => if k = n ∧ s.1.hasChannel k then [.clear] else []
  | boot _ a => if a.channel = n ∧ s.1.contains a ∧ s.1.isAttached a then [.clear] else []
  | startIo now a first => (if a.channel = n then s.1.startReport now s.2 a first else none).toList.map .push
  | testIo now a _ => if a.channel = n ∧ s.1.tests now a then [.post] else []
  | postStatus k => if k = n then [.post] else []
  | storeStatus a => (if a.channel = n then (s.1.program? a).map (ownReport a) else none).toList.map .push
  | wake a status => (if a.channel = n then some ⟨a, 0, status, 0⟩ else none).toList.map .push
  | poll now => (pollReports now n serviceLimit s.1 s.2).map .push
  | scan _ => if s.1.raised then (s.1.presented n).map .push else []
  | store _ | attach .. | resetController .. | stopIo .. | haltIo .. | commandDevice .. | testDevice ..
  | receive .. => []

theorem queue_perform : ((op.perform s).1.channel n).queue = (op.events n s).foldl after (s.1.channel n).queue := by
  cases op with
  | store f => rfl
  | attach now a device => rfl
  | reset now => exact queue_reset
  | resetChannel k =>
    refine queue_resetChannel.trans ?_
    rw [events]
    split
    · rfl
    · rfl
  | resetController now a => exact congrArg queue (channel_congr real_resetDevice)
  | boot now a =>
    refine queue_boot.trans ?_
    rw [events]
    split
    · rfl
    · rfl
  | startIo now a first =>
    rw [events, foldl_map_push]
    exact queue_startIo
  | testIo now a icb =>
    refine queue_testIo.trans ?_
    rw [events]
    split
    · rfl
    · rfl
  | stopIo a =>
    rw [perform, Channels.stopIo]
    split
    · rfl
    split
    · rfl
    · rfl
  | haltIo now a =>
    rw [perform, Channels.haltIo]
    split
    · rfl
    split
    · rfl
    dsimp only
    split
    · rfl
    · rfl
  | commandDevice now a command =>
    rw [perform, Channels.commandDevice]
    split
    · rfl
    · rfl
  | testDevice now a command =>
    rw [perform, Channels.testDevice]
    split
    · rfl
    · rfl
  | postStatus k =>
    refine queue_postStatus.trans ?_
    rw [events]
    split
    · rfl
    · rfl
  | storeStatus a =>
    rw [events, foldl_map_push]
    exact queue_storeStatus
  | receive a status =>
    rw [perform, Channels.receive]
    split
    · rfl
    · rfl
  | wake a status =>
    rw [events, foldl_map_push]
    exact queue_queueStatus (r := ⟨a, 0, status, 0⟩)
  | poll now =>
    rw [events, foldl_map_push]
    exact queue_pollUpTo
  | scan now =>
    rw [events, perform]
    cases hraised : s.1.raised with
    | true =>
      rw [if_pos rfl, foldl_map_push]
      exact (scanned_scan now s.2 hraised).queue n
    | false =>
      rw [Channels.scan, hraised]
      rfl

def runEvents (n : Byte) : WithMemory δ ω → List (Operation δ) → List QueueEvent
  | _, [] => []
  | s, op :: rest => op.events n s ++ runEvents n (op.perform s) rest

theorem queue_performAll :
    ((performAll s ops).1.channel n).queue = (runEvents n s ops).foldl after (s.1.channel n).queue := by
  induction ops generalizing s with
  | nil => rfl
  | cons op rest ih =>
    rw [runEvents, List.foldl_append, ← queue_perform]
    exact ih

/-- What is stored besides the doubleword: a test tells a context block where that is. -/
def tells (n : Byte) (s : WithMemory δ ω) (mem : Memory) : Operation δ → Memory
  | testIo _ _ icb => mem.after (Memory.writeWord (icb + 20) (s.1.place n ||| postedBit))
  | _ => mem

/-- The doublewords that operations in turn store at the place of a channel. -/
inductive Stores (n : Byte) : WithMemory δ ω → List (Operation δ) → List StatusDoubleword → Prop
  | nil {s : WithMemory δ ω} : Stores n s [] []
  | posts {s : WithMemory δ ω} {op : Operation δ} {rest : List (Operation δ)} {d : StatusDoubleword}
      {later : List StatusDoubleword} (hevent : op.events n s = [.post])
      (hmemory : (op.perform s).2 = op.tells n s (s.2.after (Memory.writePair (s.1.place n) d.word1 d.word2)))
      (hrest : Stores n (op.perform s) rest later) : Stores n s (op :: rest) (d :: later)
  | goesOn {s : WithMemory δ ω} {op : Operation δ} {rest : List (Operation δ)} {later : List StatusDoubleword}
      (hevent : .post ∉ op.events n s ∨ (s.1.channel n).queue = []) (hrest : Stores n (op.perform s) rest later) :
      Stores n s (op :: rest) later

/-- An event of presenting is the only one of its operation: a test, or the channel's own presenting. -/
theorem posts_cases (h : .post ∈ op.events n s) : op.events n s = [.post] ∧
    ((∃ now a icb, op = testIo now a icb ∧ a.channel = n ∧ s.1.tests now a = true) ∨ op = postStatus n) := by
  cases op with
  | testIo now a icb =>
    rw [events] at h ⊢
    split at h
    · next htests =>
      rw [if_pos htests]
      exact ⟨rfl, .inl ⟨now, a, icb, rfl, htests⟩⟩
    · cases h
  | postStatus k =>
    rw [events] at h ⊢
    split at h
    · next hk =>
      rw [if_pos hk, hk]
      exact ⟨rfl, .inr rfl⟩
    · cases h
  | startIo now a first => exact absurd h post_not_mem_map_push
  | storeStatus a => exact absurd h post_not_mem_map_push
  | wake a status => exact absurd h post_not_mem_map_push
  | poll now => exact absurd h post_not_mem_map_push
  | scan now =>
    rw [events] at h
    split at h
    · exact absurd h post_not_mem_map_push
    · cases h
  | reset now => simp [events] at h
  | resetChannel k => simp [events] at h
  | boot now a => simp [events] at h
  | store f => cases h
  | attach now a device => cases h
  | resetController now a => cases h
  | stopIo a => cases h
  | haltIo now a => cases h
  | commandDevice now a command => cases h
  | testDevice now a command => cases h
  | receive a status => cases h

theorem memory_of_post (h : .post ∈ op.events n s) (hqueue : (s.1.channel n).queue = d :: later) :
    (op.perform s).2 = op.tells n s (s.2.after (Memory.writePair (s.1.place n) d.word1 d.word2)) := by
  rcases (posts_cases h).2 with ⟨now, a, icb, rfl, rfl, htests⟩ | rfl
  · obtain ⟨c', hreal, heq⟩ := testIo_of_tests s.2 icb htests
    rw [← channel_congr hreal] at hqueue
    rw [perform, heq, postStatus_of_cons hqueue, tells, place, place, channel_congr hreal]
  · rw [perform, postStatus_of_cons hqueue]
    rfl

theorem stores_posted : Stores n s ops (posted (s.1.channel n).queue (runEvents n s ops)) := by
  induction ops generalizing s with
  | nil => exact .nil
  | cons op rest ih =>
    have hrest := ih (s := op.perform s)
    rw [queue_perform] at hrest
    rw [runEvents, posted_append_events]
    by_cases hpost : .post ∈ op.events n s
    · have hevent := (posts_cases hpost).1
      cases hqueue : (s.1.channel n).queue with
      -- With nothing to present the operation stores no doubleword, though it comes to that point.
      | nil =>
        rw [hqueue, hevent] at hrest
        rw [hevent]
        exact .goesOn (.inr hqueue) hrest
      | cons d later =>
        rw [hqueue, hevent] at hrest
        rw [hevent]
        exact .posts hevent (memory_of_post hpost hqueue) hrest
    · rw [posted_of_not_mem hpost]
      exact .goesOn (.inl hpost) hrest

theorem channel_of_event {r : StatusReport} (h : .push r ∈ op.events n s) : r.device.channel = n := by
  -- What is told on condition that a device is on the channel is told of that device.
  have hself : ∀ {a : DeviceAddress} {o : Option StatusReport}, (∀ r, o = some r → r.device = a) →
      .push r ∈ (if a.channel = n then o else none).toList.map QueueEvent.push → r.device.channel = n := by
    intro a o ho h
    split at h
    · next hn =>
      obtain ⟨r', hr', heq⟩ := List.mem_map.mp h
      cases heq
      rw [ho r (Option.mem_toList.mp hr'), hn]
    · cases h
  cases op with
  | startIo now a first => exact hself (fun r => device_of_startReport) h
  | storeStatus a =>
    refine hself (fun r hr => ?_) h
    obtain ⟨p, -, rfl⟩ := Option.map_eq_some_iff.mp hr
    rfl
  | wake a status =>
    refine hself (fun r hr => ?_) h
    cases hr
    rfl
  | poll now =>
    obtain ⟨r', hr', heq⟩ := List.mem_map.mp h
    cases heq
    exact channel_of_mem_pollReports hr'
  | scan now =>
    rw [events] at h
    split at h
    · obtain ⟨r', hr', heq⟩ := List.mem_map.mp h
      cases heq
      obtain ⟨d, -, hreport⟩ := List.mem_filterMap.mp hr'
      rw [reportOf] at hreport
      split at hreport
      · next hn =>
        obtain ⟨q, -, hq⟩ := Option.bind_eq_some_iff.mp hreport
        rw [ChannelProgram.device_of_report? hq, hn]
      · cases hreport
    · cases h
  | reset now => simp [events] at h
  | resetChannel k => simp [events] at h
  | boot now a => simp [events] at h
  | testIo now a icb => simp [events] at h
  | postStatus k => simp [events] at h
  | store f => cases h
  | attach now a device => cases h
  | resetController now a => cases h
  | stopIo a => cases h
  | haltIo now a => cases h
  | commandDevice now a command => cases h
  | testDevice now a command => cases h
  | receive a status => cases h

theorem channel_of_push {r : StatusReport} (h : .push r ∈ runEvents n s ops) : r.device.channel = n := by
  induction ops generalizing s with
  | nil => cases h
  | cons op rest ih =>
    rcases List.mem_append.mp h with h | h
    · exact channel_of_event h
    · exact ih h

/-- As long as nothing clears a channel, what is presented there, followed by what still waits, is what waited before
and what was queued since, in that order, but for what came while the queue was full. Word by word the queue never
tears a doubleword and never holds more than 256 words, and a doubleword gives back what its device reported. -/
theorem performAll_delivers (hclear : .clear ∉ runEvents n s ops) (hroom : (s.1.channel n).queue.length ≤ queueLimit) :
    (∃ posted, Stores n s ops posted ∧ posted ++ ((performAll s ops).1.channel n).queue =
      (s.1.channel n).queue ++
        (accepted (s.1.channel n).queue.length (runEvents n s ops)).map StatusReport.doubleword) ∧
    words ((performAll s ops).1.channel n).queue = (runEvents n s ops).foldl afterWords (words (s.1.channel n).queue) ∧
    (words ((performAll s ops).1.channel n).queue).length % 2 = 0 ∧
    (words ((performAll s ops).1.channel n).queue).length ≤ 256 ∧
    ∀ r, .push r ∈ runEvents n s ops → r.device.channel = n ∧ r.doubleword.subaddress = r.device.subaddress ∧
      r.doubleword.next = r.next ∧ r.doubleword.status = r.status ∧ r.doubleword.count = r.count := by
  rw [queue_performAll, words_foldl_after]
  have hlength : ((runEvents n s ops).foldl after (s.1.channel n).queue).length ≤ queueLimit := length_foldl_after hroom
  rw [← words_foldl_after, length_words]
  refine ⟨⟨_, stores_posted, posted_append hclear⟩, rfl, Nat.mul_mod_right 2 _, ?_, fun r hr => ?_⟩
  · unfold queueLimit at hlength
    omega
  · exact ⟨channel_of_push hr, r.fields_doubleword⟩

end Operation

namespace Console
open Operation

/-- Two consoles, and a list of one command. -/
def pair : Channels.WithMemory Console Char :=
  ((Channels.empty.attach 0 loader {}).attach 0 behind {}, controls)

/-- One console asks for attention, the other ends a command, and the status of both is presented. -/
def exchanges : List (Operation Console) :=
  [.wake behind .attention, .startIo 0 loader 0, .scan 0, .postStatus 0x10, .testIo 0 loader 0x100,
    .wake loader .deviceEnd]

theorem performAll_exchanges :
    .clear ∉ runEvents 0x10 pair exchanges ∧ (pair.1.channel 0x10).queue.length ≤ RealChannel.queueLimit ∧
    ((performAll pair exchanges).1.channel 0x10).queue = [.of loader 0 .deviceEnd 0] ∧
    ∃ posted, Stores 0x10 pair exchanges posted ∧ posted =
      [.of behind 0 .attention 0, .of loader 8 (ChannelStatus.channelEnd.union .deviceEnd) 0] := by
  have hclear : .clear ∉ runEvents 0x10 pair exchanges := by decide +kernel
  have hroom : (pair.1.channel 0x10).queue.length ≤ RealChannel.queueLimit := by decide
  have hlast : ((performAll pair exchanges).1.channel 0x10).queue = [.of loader 0 .deviceEnd 0] := by decide +kernel
  obtain ⟨⟨posted, hstores, hposted⟩, -⟩ := performAll_delivers hclear hroom
  refine ⟨hclear, hroom, hlast, posted, hstores, ?_⟩
  have hall : (pair.1.channel 0x10).queue ++ (QueueEvent.accepted (pair.1.channel 0x10).queue.length
      (runEvents 0x10 pair exchanges)).map StatusReport.doubleword =
      [.of behind 0 .attention 0, .of loader 8 (ChannelStatus.channelEnd.union .deviceEnd) 0] ++
        [.of loader 0 .deviceEnd 0] := by
    decide +kernel
  rw [hlast, hall] at hposted
  exact List.append_cancel_right hposted

end Console
end Concept32
