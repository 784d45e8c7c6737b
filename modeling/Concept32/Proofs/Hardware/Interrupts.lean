import Concept32.Hardware.Interrupts
import Concept32.Proofs.Channels.Scanning
import Concept32.Proofs.Exec
import Concept32.Proofs.Hardware.Parts
import Concept32.Proofs.Levels
import Concept32.Proofs.Table

/-!
# When an interrupt is taken

A look for an interrupt finds none and changes nothing exactly when interrupts are blocked or an active level
comes before every level that is ready. Otherwise it uses something up: a request of a level, or status that
waits on a channel.
-/

namespace Concept32

/-- A level of class F is not held active by a program that blocks interrupts. -/
def Cpu.settled (c : Cpu) (level : Nat) (classF : Bool) : Cpu :=
  if classF && c.psd.blocking = .block then c.deactivateLevel level else c

namespace Hardware
open EStateM
variable {δ ω : Type} {s s' s'' : Hardware δ ω} {now level left : Nat} {taken : Bool}

/-! ### Levels that are ready -/

/-- A level interrupts unless an active level comes first: it is configured and enabled, and it is requested or
is of class F with status on its channel and a context block to present it. -/
def Ready (s : Hardware δ ω) (level : Nat) : Prop :=
  let entry := s.core.cpu.scratchpad.levelEntry level
  entry.isConfigured ∧ (s.core.cpu.levels.get level).enabled ∧
    ((s.core.cpu.levels.get level).requested ∨
      (entry.isClassF ∧ (s.core.cpu.levelBlock? s.core.memory level).isSome ∧
        (s.channels.channel entry.realChannel).queue ≠ []))

/-- No interrupt can be taken: interrupts are blocked, or there is an active level at or before every level
that is ready. -/
def Quiet (s : Hardware δ ω) : Prop :=
  s.core.cpu.interruptsBlocked = true ∨
    ∀ level < levelCount, s.Ready level → ∃ j ≤ level, s.core.cpu.levels.isActive j = true

theorem quiet_congr (hcore : s'.core = s.core) (hreal : s'.channels.real = s.channels.real) (h : s.Quiet) :
    s'.Quiet := by
  have hchannel : ∀ n, s'.channels.channel n = s.channels.channel n := fun n => by
    rw [Channels.channel, hreal]
    rfl
  rw [Quiet, hcore]
  refine h.imp_right fun hall level hlt hready => hall level hlt ?_
  rw [Ready, hcore, hchannel] at hready
  exact hready

/-- Only the queues of the channels have changed, and none has grown. -/
structure Drains (c c' : Channels δ ω) : Prop where
  subchannels : c'.subchannels = c.subchannels
  schedule : c'.schedule = c.schedule
  loading : c'.loading = c.loading
  raised : c'.raised = c.raised
  queue : ∀ n, (c'.channel n).queue.length ≤ (c.channel n).queue.length

/-- A request or some waiting status has been used up. -/
def Spent (s s' : Hardware δ ω) : Prop :=
  (∃ n, (s'.channels.channel n).queue.length < (s.channels.channel n).queue.length) ∨
    ∃ level, s.core.cpu.levels.isRequested level = true ∧ s'.core.cpu.levels.isRequested level = false

theorem Drains.refl {c : Channels δ ω} : Drains c c := ⟨rfl, rfl, rfl, rfl, fun _ => Nat.le_refl _⟩

theorem Drains.trans {c c' c'' : Channels δ ω} (h : Drains c c') (h' : Drains c' c'') : Drains c c'' where
  subchannels := h'.subchannels.trans h.subchannels
  schedule := h'.schedule.trans h.schedule
  loading := h'.loading.trans h.loading
  raised := h'.raised.trans h.raised
  queue n := Nat.le_trans (h'.queue n) (h.queue n)

/-! ### Presenting status -/

theorem post_inv {r r' : RealChannel} {mem mem' : Memory} {posted : Option Word}
    (h : r.post mem = (posted, r', mem')) :
    (posted = none ∧ r' = r ∧ mem' = mem ∧ r.queue = []) ∨ (posted.isSome ∧ ∃ status, r.queue = status :: r'.queue) := by
  rw [RealChannel.post] at h
  split at h <;> cases h
  · next hempty => exact .inl ⟨rfl, rfl, rfl, hempty⟩
  · next status rest hqueue => exact .inr ⟨rfl, status, hqueue⟩

/-- Presenting status either finds none, and changes nothing, or takes the oldest from the queue. -/
theorem postStatus_inv {c c' : Channels δ ω} {mem mem' : Memory} {n : Byte} {posted : Option Word}
    (h : c.postStatus mem n = (posted, c', mem')) :
    (posted = none ∧ c' = c ∧ mem' = mem ∧ (c.channel n).queue = []) ∨
      (posted.isSome ∧ Drains c c' ∧ (c'.channel n).queue.length < (c.channel n).queue.length) := by
  rw [Channels.postStatus] at h
  split at h
  · next hnone =>
    cases h
    exact .inl ⟨rfl, rfl, rfl, by rw [Channels.channel, hnone]; rfl⟩
  · next r hr =>
    have hchannel : c.channel n = r := by rw [Channels.channel, hr]; rfl
    split at h
    next posted r' mem' hpost =>
      cases h
      rcases post_inv hpost with ⟨rfl, rfl, rfl, hempty⟩ | ⟨hsome, status, hqueue⟩
      · have hset : c.setChannel n r' = c := by rw [Channels.setChannel, Table.set_of_get? hr]
        exact .inl ⟨rfl, hset, rfl, by rw [hchannel, hempty]⟩
      · refine .inr ⟨hsome, ⟨rfl, rfl, rfl, rfl, fun k => ?_⟩, ?_⟩
        · rw [Channels.channel_setChannel]
          split
          · next hk => rw [hk, hchannel, hqueue, List.length_cons]; exact Nat.le_succ _
          · exact Nat.le_refl _
        · rw [Channels.channel_setChannel, if_pos rfl, hchannel, hqueue, List.length_cons]
          exact Nat.lt_succ_self _

theorem presentStatus_inv {entry : ConfigurationEntry} (h : presentStatus entry level s = .ok taken s') :
    (taken = false ∧ s' = s ∧ ((s.core.cpu.levelBlock? s.core.memory level).isSome →
        (s.channels.channel entry.realChannel).queue = [])) ∨
      (Drains s.channels s'.channels ∧
        ∃ n, (s'.channels.channel n).queue.length < (s.channels.channel n).queue.length) := by
  obtain ⟨⟨cpu, memory⟩, channels⟩ := s
  rw [presentStatus] at h
  split at h
  · next hnone =>
    cases h
    exact .inl ⟨rfl, rfl, fun hsome => by dsimp only at hsome; rw [hnone] at hsome; cases hsome⟩
  · next block hblock =>
    split at h
    · next channels' memory' hpost =>
      cases h
      rcases postStatus_inv hpost with ⟨-, rfl, rfl, hempty⟩ | ⟨hsome, -⟩
      · exact .inl ⟨rfl, rfl, fun _ => hempty⟩
      · cases hsome
    · next place channels' memory' hpost =>
      rcases postStatus_inv hpost with ⟨hnone, -⟩ | ⟨-, hdrains, hless⟩
      · cases hnone
      · split at h <;> cases h <;> exact .inr ⟨hdrains, _, hless⟩

/-! ### Taking an interrupt -/

/-- A level without a context block has its request dropped. With one its routine is entered, or the machine halts. -/
theorem takeInterrupt_cases (now level : Nat) (entry : ConfigurationEntry) (core : Core) :
    (core.cpu.levelBlock? core.memory level = none ∧ takeInterrupt now level entry core =
        .ok false ⟨{ core.cpu with levels := core.cpu.levels.clearRequest level }, core.memory⟩) ∨
      ∃ block entered, core.cpu.levelBlock? core.memory level = some block ∧
        ((Exec.exchange block core.cpu.psd.address ⟨core.cpu.activateLevel level, core.memory⟩ = .ok () entered ∧
            takeInterrupt now level entry core =
              .ok true ⟨{ entered.cpu.settled level entry.isClassF with mode := .running }, entered.memory⟩) ∨
          ∃ t, Exec.exchange block core.cpu.psd.address ⟨core.cpu.activateLevel level, core.memory⟩ = .error t entered ∧
            takeInterrupt now level entry core =
              .error ⟨.machineCheck, entered.cpu.psd, now⟩ ⟨{ entered.cpu with mode := .halted }, entered.memory⟩) := by
  obtain ⟨cpu, memory⟩ := core
  rw [takeInterrupt, bind_of_ok (get_eq_ok.mpr ⟨rfl, rfl⟩)]
  dsimp only
  cases cpu.levelBlock? memory level with
  | none => exact .inl ⟨rfl, rfl⟩
  | some block =>
    dsimp only
    have hactivate : Delivery.modifyCpu (fun c => c.activateLevel level) ⟨cpu, memory⟩ =
        .ok () ⟨cpu.activateLevel level, memory⟩ := rfl
    rw [bind_of_ok hactivate]
    cases hexchange : Exec.exchange block cpu.psd.address ⟨cpu.activateLevel level, memory⟩ with
    | ok _ entered =>
      have hdeliver : Delivery.orHalt now .machineCheck (Exec.exchange block cpu.psd.address)
          ⟨cpu.activateLevel level, memory⟩ = .ok () entered := by rw [Delivery.orHalt, hexchange]
      refine .inr ⟨block, entered, rfl, .inl ⟨hexchange, ?_⟩⟩
      rw [bind_of_ok hdeliver, bind_of_ok (get_eq_ok.mpr ⟨rfl, rfl⟩), Cpu.settled]
      split <;> rfl
    | error t entered =>
      have hhalts : Delivery.orHalt now .machineCheck (Exec.exchange block cpu.psd.address)
          ⟨cpu.activateLevel level, memory⟩ =
            .error ⟨.machineCheck, entered.cpu.psd, now⟩ ⟨{ entered.cpu with mode := .halted }, entered.memory⟩ := by
        rw [Delivery.orHalt, hexchange]
        rfl
      exact .inr ⟨block, entered, rfl, .inr ⟨t, hexchange, bind_of_error hhalts⟩⟩

/-- Taking an interrupt uses up the request, also when the level has no context block. -/
theorem isRequested_takeInterrupt {entry : ConfigurationEntry} {core core' : Core}
    (h : takeInterrupt now level entry core = .ok taken core') : core'.cpu.levels.isRequested level = false := by
  rcases takeInterrupt_cases now level entry core with ⟨-, htake⟩ |
    ⟨block, entered, -, ⟨hexchange, htake⟩ | ⟨t, -, htake⟩⟩
  · rw [htake] at h
    cases h
    exact InterruptLevels.isRequested_clearRequest
  · have hlevels : entered.cpu.levels = core.cpu.levels.activate level := Exec.keeps_levels_exchange.ok hexchange
    have hactive : entered.cpu.levels.isRequested level = false := by
      rw [hlevels]
      exact InterruptLevels.isRequested_activate
    rw [htake] at h
    cases h
    rw [Cpu.settled]
    split
    · exact InterruptLevels.isRequested_deactivate.trans hactive
    · exact hactive
  · rw [htake] at h
    cases h

/-! ### Looking at the levels in order -/

/-- A look at one level: it is active and ends the scan, or it is not ready and is passed over, or its request is
taken, or its status is presented before it is taken. -/
theorem scanLevels_succ (h : scanLevels now (left + 1) s = .ok taken s') (hlevel : levelCount - (left + 1) = level) :
    (s.core.cpu.levels.isActive level = true ∧ taken = false ∧ s' = s) ∨
      (¬s.Ready level ∧ scanLevels now left s = .ok taken s') ∨
      ((s.core.cpu.levels.get level).requested = true ∧
        onCore (takeInterrupt now level (s.core.cpu.scratchpad.levelEntry level)) s = .ok taken s') ∨
      ∃ s₁ : Hardware δ ω,
        (Drains s.channels s₁.channels ∧ ∃ n, (s₁.channels.channel n).queue.length < (s.channels.channel n).queue.length) ∧
        (onCore (takeInterrupt now level (s.core.cpu.scratchpad.levelEntry level)) s₁ = .ok taken s' ∨
          scanLevels now left s₁ = .ok taken s') := by
  rw [scanLevels, hlevel] at h
  obtain ⟨_, _, hget, h⟩ := bind_eq_ok.mp h
  cases hget
  split at h
  · next hactive =>
    cases h
    exact .inl ⟨hactive, rfl, rfl⟩
  split at h
  · next hoff =>
    refine .inr (.inl ⟨fun ⟨hconfigured, henabled, _⟩ => ?_, h⟩)
    simp [hconfigured, henabled] at hoff
  split at h
  · next hrequested => exact .inr (.inr (.inl ⟨hrequested, h⟩))
  · next hrequested =>
    split at h
    · next hclass =>
      refine .inr (.inl ⟨fun ⟨_, _, hor⟩ => ?_, h⟩)
      rcases hor with hr | ⟨hf, _⟩
      · exact hrequested hr
      · simp [hf] at hclass
    · obtain ⟨presented, s₁, hpresent, h⟩ := bind_eq_ok.mp h
      rcases presentStatus_inv hpresent with ⟨rfl, rfl, hempty⟩ | ⟨hdrains, n, hless⟩
      · refine .inr (.inl ⟨fun ⟨_, _, hor⟩ => ?_, h⟩)
        rcases hor with hr | ⟨_, hblock, hqueue⟩
        · exact hrequested hr
        · exact hqueue (hempty hblock)
      · refine .inr (.inr (.inr ⟨s₁, ⟨hdrains, n, hless⟩, ?_⟩))
        split at h
        · exact .inl h
        · exact .inr h

/-- A look at the last levels that succeeds either found none to take, and an active level at or before each that
is ready, or it used something up. -/
theorem scanLevels_inv (hleft : left ≤ levelCount) (h : scanLevels now left s = .ok taken s') :
    Drains s.channels s'.channels ∧
      ((taken = false ∧ s' = s ∧ ∀ level, levelCount - left ≤ level → level < levelCount → s.Ready level →
          ∃ j ≤ level, s.core.cpu.levels.isActive j = true) ∨ Spent s s') := by
  induction left generalizing s with
  | zero =>
    cases h
    exact ⟨.refl, .inl ⟨rfl, rfl, fun level _ _ => by omega⟩⟩
  | succ left ih =>
    generalize hlevel : levelCount - (left + 1) = level
    rcases scanLevels_succ h hlevel with ⟨hactive, rfl, rfl⟩ | ⟨hidle, hrest⟩ | ⟨hrequested, htake⟩ |
      ⟨s₁, ⟨hdrains, n, hless⟩, hrest⟩
    · exact ⟨.refl, .inl ⟨rfl, rfl, fun k hk _ _ => ⟨level, hk, hactive⟩⟩⟩
    · obtain ⟨hdrains, hscan⟩ := ih (by omega) hrest
      refine ⟨hdrains, hscan.imp_left fun ⟨hno, hsame, hall⟩ => ⟨hno, hsame, fun k hk hlt hready => ?_⟩⟩
      rcases Nat.eq_or_lt_of_le hk with rfl | hlater
      · exact absurd hready hidle
      · exact hall k (by omega) hlt hready
    · obtain ⟨hchannels, htake⟩ := onCore_eq_ok htake
      exact ⟨hchannels ▸ .refl, .inr (.inr ⟨level, hrequested, isRequested_takeInterrupt htake⟩)⟩
    · have hlast : Drains s₁.channels s'.channels := by
        rcases hrest with htake | hscan
        · exact (onCore_eq_ok htake).1 ▸ .refl
        · exact (ih (by omega) hscan).1
      exact ⟨hdrains.trans hlast, .inr (.inl ⟨n, Nat.lt_of_le_of_lt (hlast.queue n) hless⟩)⟩

/-- A look for an interrupt that succeeds either found none to take or used something up. -/
theorem scanForInterrupt_inv (h : scanForInterrupt now s = .ok taken s') :
    Drains s.channels s'.channels ∧ ((taken = false ∧ s' = s ∧ s.Quiet) ∨ Spent s s') := by
  rw [scanForInterrupt] at h
  obtain ⟨_, _, hget, h⟩ := bind_eq_ok.mp h
  cases hget
  split at h
  · next hblocked =>
    cases h
    exact ⟨.refl, .inl ⟨rfl, rfl, .inl hblocked⟩⟩
  · obtain ⟨hdrains, hrest⟩ := scanLevels_inv (Nat.le_refl _) h
    refine ⟨hdrains, hrest.imp_left fun ⟨hno, hsame, hall⟩ => ⟨hno, hsame, .inr fun level hlt hready => ?_⟩⟩
    exact hall level (by omega) hlt hready

theorem presentStatus_of_empty {entry : ConfigurationEntry}
    (h : (s.core.cpu.levelBlock? s.core.memory level).isSome → (s.channels.channel entry.realChannel).queue = []) :
    presentStatus entry level s = .ok false s := by
  obtain ⟨⟨cpu, memory⟩, channels⟩ := s
  rw [presentStatus]
  split
  · rfl
  · next block hblock =>
    have hempty := h (by dsimp only; rw [hblock]; rfl)
    split
    · next channels' memory' hpost =>
      rcases postStatus_inv hpost with ⟨-, rfl, rfl, -⟩ | ⟨hsome, -⟩
      · rfl
      · cases hsome
    · next hpost =>
      rcases postStatus_inv hpost with ⟨hnone, -⟩ | ⟨-, -, hless⟩
      · cases hnone
      · rw [hempty] at hless
        cases hless

/-- A level that is neither active nor ready is passed over. -/
theorem scanLevels_skip (hlevel : levelCount - (left + 1) = level) (hactive : s.core.cpu.levels.isActive level = false)
    (hidle : ¬s.Ready level) : scanLevels now (left + 1) s = scanLevels now left s := by
  rw [scanLevels, hlevel]
  show (if (s.core.cpu.levels.get level).active then _ else _ : EStateM TrapHalt (Hardware δ ω) Bool) s = _
  rw [InterruptLevels.isActive] at hactive
  rw [hactive, if_neg Bool.false_ne_true]
  split
  · rfl
  · next hon =>
    obtain ⟨hconfigured, henabled⟩ : (s.core.cpu.scratchpad.levelEntry level).isConfigured = true ∧
        (s.core.cpu.levels.get level).enabled = true := by simpa using hon
    split
    · next hrequested => exact absurd ⟨hconfigured, henabled, .inl hrequested⟩ hidle
    · split
      · rfl
      · next hclass =>
        have hclassF : (s.core.cpu.scratchpad.levelEntry level).isClassF = true := by simpa using hclass
        have hpresent : presentStatus (s.core.cpu.scratchpad.levelEntry level) level s = .ok false s :=
          presentStatus_of_empty fun hblock => Decidable.byContradiction fun hqueue =>
            hidle ⟨hconfigured, henabled, .inr ⟨hclassF, hblock, hqueue⟩⟩
        rw [bind_of_ok hpresent]
        rfl

theorem scanLevels_of_quiet (hleft : left ≤ levelCount)
    (hall : ∀ level, levelCount - left ≤ level → level < levelCount → s.Ready level →
      ∃ j, levelCount - left ≤ j ∧ j ≤ level ∧ s.core.cpu.levels.isActive j = true) :
    scanLevels now left s = .ok false s := by
  induction left with
  | zero => rfl
  | succ left ih =>
    generalize hlevel : levelCount - (left + 1) = level at hall
    cases hactive : s.core.cpu.levels.isActive level with
    | true =>
      rw [scanLevels, hlevel]
      show (if s.core.cpu.levels.isActive level then _ else _ : EStateM TrapHalt (Hardware δ ω) Bool) s = _
      rw [hactive, if_pos rfl]
      rfl
    | false =>
      have hidle : ¬s.Ready level := fun hready => by
        obtain ⟨j, hle, hge, hj⟩ := hall level (Nat.le_refl _) (by omega) hready
        rw [show j = level by omega, hactive] at hj
        cases hj
      rw [scanLevels_skip hlevel hactive hidle]
      refine ih (by omega) fun k hk hlt hready => ?_
      obtain ⟨j, hle, hge, hj⟩ := hall k (by omega) hlt hready
      have hne : j ≠ level := fun heq => by rw [heq, hactive] at hj; cases hj
      exact ⟨j, by omega, hge, hj⟩

/-- No interrupt is taken in a state in which none can be. -/
theorem scanForInterrupt_of_quiet (h : s.Quiet) : scanForInterrupt now s = .ok false s := by
  rw [scanForInterrupt]
  show (if s.core.cpu.interruptsBlocked then _ else _ : EStateM TrapHalt (Hardware δ ω) Bool) s = _
  split
  · rfl
  · next hopen =>
    rcases h with hblocked | hall
    · exact absurd hblocked hopen
    · refine scanLevels_of_quiet (Nat.le_refl _) fun level _ hlt hready => ?_
      obtain ⟨j, hle, hj⟩ := hall level hlt hready
      exact ⟨j, by omega, hle, hj⟩

end Hardware
end Concept32
