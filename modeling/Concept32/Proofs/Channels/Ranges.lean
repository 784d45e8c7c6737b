import Concept32.Proofs.Channels.Extent
import Concept32.Proofs.Channels.Freeing
import Concept32.Proofs.Channels.Stopping

/-!
# The state of channel programs stays in range

Whatever happens to the channels, and at whatever call a device interrupts its service, the word that a program keeps is
one of the words of memory. No other operation gives a program a staged word, and none changes the size of memory.
-/

namespace Concept32

/-! ### Memory keeps its size -/

namespace Memory
variable {m : Memory} {a w first second : Word}

theorem size_writePair : (m.after (writePair a first second)).words.size = m.words.size := by
  rcases m.after_writePair_cases a first second with h | h
  · rw [h]
    exact size_after_change
  · rw [h]
    exact size_after_change.trans size_after_change

end Memory

namespace Channels
open ChannelProgram
variable {δ ω : Type} {c c' c'' : Channels δ ω} {a b : DeviceAddress} {now : Nat} {mem : Memory} {first : Address}

theorem size_postStatus {n : Byte} : (c.postStatus mem n).2.2.words.size = mem.words.size := by
  rw [postStatus]
  split
  · rfl
  · next r _ =>
    have hpost : (r.post mem).2.2.words.size = mem.words.size := by
      rw [RealChannel.post]
      split
      · rfl
      · exact Memory.size_writePair
    exact hpost

theorem size_echoed : (c.echoed a first mem).words.size = mem.words.size := by
  rw [echoed]
  split
  · rfl
  · exact Memory.size_writePair

theorem size_startIo [Peripheral δ ω] : (c.startIo now mem a first).2.2.words.size = mem.words.size := by
  cases hs : c.get? a with
  | none =>
    rw [startIo, hs]
  | some s =>
    by_cases hfree : Free s
    · by_cases hwilling : Willing s now
      · rw [startIo_of_willing hs hfree hwilling]
        exact size_echoed
      · rw [startIo_of_not_willing hs hfree hwilling]
    · obtain ⟨condition, -, heq⟩ := startIo_of_not_free now hs hfree
      rw [heq]

theorem size_testIo [Peripheral δ ω] {icb : Word} : (c.testIo now mem a icb).2.2.words.size = mem.words.size := by
  rw [testIo]
  split
  · rfl
  · next s hs =>
    dsimp only
    split
    · rfl
    split
    · rfl
    split
    · rfl
    · have hpost : ((c.absorb a (Peripheral.testIo s.device now)).postStatus mem a.channel).2.2.words.size =
          mem.words.size := size_postStatus
      split
      · next heq =>
        rw [heq] at hpost
        exact hpost
      · next heq =>
        rw [heq] at hpost
        exact Memory.size_after_change.trans hpost

/-! ### Staged words come from services alone -/

/-- No program has a staged word that it did not have. -/
def Sheds (c c' : Channels δ ω) : Prop :=
  ∀ a q, c'.program? a = some q → ∀ word, q.staged = some word →
    ∃ p, c.program? a = some p ∧ p.staged = some word

namespace Sheds

theorem of_same (h : ∀ a, c'.program? a = c.program? a) : Sheds c c' := fun a q hq _ hword =>
  ⟨q, (h a).symm.trans hq, hword⟩

theorem refl : Sheds c c := .of_same fun _ => rfl

theorem trans (h : Sheds c c') (h' : Sheds c' c'') : Sheds c c'' := fun a q hq word hword => by
  obtain ⟨p, hp, hstaged⟩ := h' a q hq word hword
  exact h a p hp word hstaged

/-- Only the program at one address has changed, and it has its staged word or none. -/
theorem of_others (hothers : ∀ b, b ≠ a → c'.get? b = c.get? b)
    (hself : ∀ q, c'.program? a = some q → q.staged = none ∨ ∃ p, c.program? a = some p ∧ q.staged = p.staged) :
    Sheds c c' := fun b q hq word hword => by
  by_cases hb : b = a
  · subst hb
    rcases hself q hq with hnone | ⟨p, hp, hsame⟩
    · cases hnone.symm.trans hword
    · exact ⟨p, hp, hsame.symm.trans hword⟩
  · exact ⟨q, by rw [program?, ← hothers b hb]; exact hq, hword⟩

theorem raise (h : Sheds c c') : Sheds c c'.raise := h

theorem modify {f : ChannelProgram → ChannelProgram} (h : Sheds c c')
    (hf : ∀ p : ChannelProgram, (f p).staged = p.staged ∨ (f p).staged = none) : Sheds c (c'.modifyProgram a f) := by
  refine h.trans (.of_others (a := a) (fun b hb => by rw [get?_modifyProgram, if_neg hb]) fun q hq => ?_)
  rw [program?_modifyProgram_self] at hq
  obtain ⟨p, hp, rfl⟩ := Option.map_eq_some_iff.mp hq
  rcases hf p with hsame | hnone
  · exact .inr ⟨p, hp, hsame⟩
  · exact .inl hnone

theorem absorb {α : Type} {r : Reaction δ ω α} (h : Sheds c c') : Sheds c (c'.absorb a r) := by
  refine h.trans (.of_others (a := a) (Touches.absorb : Touches 0 a c' _).others fun q hq => .inr ?_)
  cases hs : c'.get? a with
  | none =>
    rw [program?, get?, Channels.absorb, Table.get?_modify, if_pos rfl, ← get?, hs] at hq
    cases hq
  | some s =>
    rw [program?_absorb hs] at hq
    exact ⟨q, by rw [program?, hs]; exact hq, rfl⟩

theorem store (h : Sheds c c') : Sheds c (c'.storeStatus a) := by
  rw [storeStatus]
  split
  · exact h
  · next p _ =>
    have hqueued : Sheds c (c'.queueStatus a (.of a p.next p.status p.count)) := h
    exact .raise (.modify hqueued fun _ => .inl rfl)

theorem receive {s : ChannelStatus} : Sheds c (c.receive a s) := by
  rw [Channels.receive]
  split
  · refine .raise (.modify .refl fun p => .inl ?_)
    rw [ChannelProgram.receive]
    split
    · rfl
    · rfl
  · exact .refl

theorem postStatus {n : Byte} : Sheds c (c.postStatus mem n).2.1 := by
  rw [Channels.postStatus]
  split
  · exact .refl
  · exact .of_same fun _ => rfl

theorem resetChannel {n : Byte} : Sheds c (c.resetChannel n).2 := by
  have hfold : ∀ (l : List DeviceAddress) {c' : Channels δ ω}, Sheds c c' →
      Sheds c { c' with
        subchannels := l.foldl (fun t a => t.modify a.bits fun s => { s with program := .idle }) c'.subchannels } := by
    intro l
    induction l with
    | nil => exact id
    | cons b rest ih =>
      intro c' h
      have hmodified : Sheds c (c'.modifyProgram b fun _ => .idle) := .modify h fun _ => .inr rfl
      exact ih hmodified
  rw [Channels.resetChannel]
  split
  · exact .refl
  · exact hfold _ .refl

variable [Peripheral δ ω]

theorem issue {command : Byte} : Sheds c (c.issue now a command).2 := by
  cases hs : c.get? a with
  | none =>
    rw [Channels.issue, hs]
    exact .refl
  | some s =>
    rw [issue_eq hs]
    have haddressed : Sheds c (c.addressed a command s.program.dataAddress) := by
      unfold addressed
      split
      · exact .of_same fun _ => rfl
      · exact .refl
    have habsorbed : Sheds c ((c.addressed a command s.program.dataAddress).absorb a
        (reactionTo s.device now command : Reaction δ ω CommandResponse)) := .absorb haddressed
    cases (reactionTo s.device now command : Reaction δ ω CommandResponse).answer with
    | accepted delay =>
      refine .modify ?_ fun _ => .inl rfl
      exact habsorbed.trans (.of_same fun _ => rfl)
    | done status =>
      dsimp only [answered]
      split
      · exact .modify (.raise habsorbed) fun _ => .inl rfl
      split
      · exact .modify (.raise habsorbed) fun _ => .inl rfl
      · exact .modify (.raise habsorbed) fun _ => .inl rfl

theorem continueProgram {allowed : Bool} : Sheds c (c.continueProgram now mem a allowed).2 := by
  rw [Channels.continueProgram]
  split
  · exact .refl
  · next p hp =>
    have hplaced : ∀ q : ChannelProgram, q.staged = p.staged ∨ q.staged = none →
        Sheds c (c.modifyProgram a fun _ => q) := by
      intro q hq
      refine .of_others (a := a) (fun b hb => by rw [get?_modifyProgram, if_neg hb]) fun q' hq' => ?_
      rw [program?_modifyProgram_self, hp] at hq'
      obtain rfl := Option.some.inj hq'
      exact hq.symm.imp id fun hsame => ⟨p, hp, hsame⟩
    have hfetches := fetches mem allowed p
    generalize p.fetch mem allowed = fetched at hfetches
    cases hfetches with
    | stopped _ _ _ hstaged => exact hplaced _ hstaged
    | continued _ _ _ hstaged => exact hplaced _ (.inr hstaged)
    | given _ _ hstaged => exact (hplaced _ (.inr hstaged)).trans .issue

theorem launch : Sheds c (c.launch now mem a).2 := by
  have hgoes : Sheds c (c.continueProgram now mem a false).2 := .continueProgram
  rw [Channels.launch]
  generalize c.continueProgram now mem a false = begun at hgoes
  obtain ⟨r, c'⟩ := begun
  cases r with
  | error e => exact .store (.modify hgoes fun _ => .inl rfl)
  | ok u =>
    dsimp only at hgoes ⊢
    split
    · exact .store (.modify hgoes fun _ => .inl rfl)
    · split
      · exact hgoes
      · exact hgoes

theorem startIo : Sheds c (c.startIo now mem a first).2.1 := by
  cases hs : c.get? a with
  | none =>
    rw [Channels.startIo, hs]
    exact .refl
  | some s =>
    by_cases hfree : Free s
    · by_cases hwilling : Willing s now
      · rw [startIo_of_willing hs hfree hwilling]
        have hprepared : Sheds c (c.prepared now a first s.device) := .modify (.absorb .refl) fun _ => .inr rfl
        exact hprepared.trans .launch
      · rw [startIo_of_not_willing hs hfree hwilling]
        exact .modify (.absorb .refl) fun _ => .inl rfl
    · obtain ⟨condition, -, heq⟩ := startIo_of_not_free now hs hfree
      rw [heq]
      exact .refl

theorem boot : Sheds c (c.boot now mem a).2 := by
  have hset : Sheds c ((c.setChannel a.channel .idle).modifyProgram a fun _ => started a 0) :=
    .modify (.of_same fun _ => rfl) fun _ => .inr rfl
  have hgoes : Sheds c (Channels.continueProgram _ now mem a false).2 := hset.trans .continueProgram
  rw [Channels.boot]
  split
  · exact .refl
  split
  · exact .refl
  dsimp only
  split
  · next heq =>
    rw [heq] at hgoes
    exact .modify hgoes fun _ => .inl rfl
  · next heq =>
    rw [heq] at hgoes
    exact hgoes

theorem attach {device : δ} : Sheds c (c.attach now a device) := by
  refine .of_others (a := a) (fun b hb => get?_attach hb.symm) fun q hq => .inl ?_
  rw [Channels.attach, program?, get?, Table.get?_set, if_pos rfl] at hq
  cases hq
  rfl

theorem reset : Sheds c (c.reset now) := fun b q hq _ hword => by
  rw [program?, get?_reset, Option.map_map, Option.map_eq_some_iff] at hq
  obtain ⟨s, -, rfl⟩ := hq
  cases hword

theorem resetDevice : Sheds c (c.resetDevice now a) := by
  rw [Channels.resetDevice]
  split
  · exact .refl
  · exact .absorb .refl

theorem testIo {icb : Word} : Sheds c (c.testIo now mem a icb).2.1 := by
  rw [Channels.testIo]
  split
  · exact .refl
  · next s hs =>
    dsimp only
    split
    · exact .refl
    split
    · exact .refl
    split
    · exact .absorb .refl
    · have hpost : Sheds c ((c.absorb a (Peripheral.testIo s.device now)).postStatus mem a.channel).2.1 :=
        Sheds.trans (.absorb .refl) .postStatus
      split
      · next heq =>
        rw [heq] at hpost
        exact hpost
      · next heq =>
        rw [heq] at hpost
        exact hpost

theorem stopIo : Sheds c (c.stopIo a).2 := by
  rw [Channels.stopIo]
  split
  · exact .refl
  split
  · exact .modify .refl fun _ => .inl rfl
  · exact .refl

theorem haltIo : Sheds c (c.haltIo now a).2 := by
  rw [Channels.haltIo]
  split
  · exact .refl
  · dsimp only
    split
    · exact .refl
    split
    · exact .modify (.absorb .refl) fun _ => .inl rfl
    · exact .absorb .refl

theorem commandDevice {command : Half} : Sheds c (c.commandDevice now a command).2 := by
  rw [Channels.commandDevice]
  split
  · exact .refl
  · exact .absorb .refl

theorem testDevice {command : Half} : Sheds c (c.testDevice now a command).2 := by
  rw [Channels.testDevice]
  split
  · exact .refl
  · exact .absorb .refl

theorem scanDevice : Sheds c (c.scanDevice now mem a).2 := by
  have hgoes : Sheds c (c.continueProgram now mem a true).2 := .continueProgram
  rw [Channels.scanDevice]
  split
  · exact .refl
  split
  · split
    · split
      · split
        · next heq =>
          rw [heq] at hgoes
          exact .raise (.modify hgoes fun _ => .inl rfl)
        · next heq =>
          rw [heq] at hgoes
          exact .raise hgoes
      · exact .raise .refl
    · split
      · dsimp only
        split
        · exact .of_same fun _ => rfl
        · exact .modify (.of_same fun _ => rfl) fun _ => .inl rfl
      · exact .store .refl
  · split
    · exact .modify (.of_same fun _ => rfl) fun _ => .inl rfl
    · exact .refl

theorem scanDevices {l : List DeviceAddress} : Sheds c (scanDevices now mem l c).2 := by
  induction l generalizing c with
  | nil => exact .refl
  | cons b rest ih =>
    have hlook : Sheds c (c.scanDevice now mem b).2 := .scanDevice
    rw [Channels.scanDevices]
    generalize c.scanDevice now mem b = done at hlook
    obtain ⟨progress, c'⟩ := done
    cases progress with
    | none => exact hlook.trans ih
    | some progress => exact hlook

theorem scan : Sheds c (c.scan now mem).2 := by
  rw [Channels.scan]
  split
  · have hlowered : Sheds c { c with raised := false } := .of_same fun _ => rfl
    exact hlowered.trans .scanDevices
  · exact .refl

end Sheds

/-! ### Programs that do not go on -/

section
variable [Peripheral δ ω] {p : ChannelProgram} {e : ChannelStatus} {l : List DeviceAddress}

/-- Whether a program goes on is a matter of its own subchannel. -/
theorem continueProgram_congr {allowed : Bool} (h : c'.get? a = c.get? a) :
    (c'.continueProgram now mem a allowed).1 = (c.continueProgram now mem a allowed).1 := by
  cases hs : c.get? a with
  | none =>
    rw [Channels.continueProgram, Channels.continueProgram, program?, program?, h, hs]
    rfl
  | some s =>
    have hp : c.program? a = some s.program := by
      rw [program?, hs]
      rfl
    have hp' : c'.program? a = some s.program := by
      rw [program?, h, hs]
      rfl
    rw [Channels.continueProgram, Channels.continueProgram, hp, hp']
    dsimp only
    split
    · rfl
    · rfl
    · next command q _ =>
      rw [issue_eq (get?_modifyProgram_self (f := fun _ => q) hs),
        issue_eq (get?_modifyProgram_self (f := fun _ => q) (h.trans hs))]
      dsimp only
      cases (reactionTo s.device now command : Reaction δ ω CommandResponse).answer with
      | accepted delay => rfl
      | done status =>
        dsimp only [answered]
        split
        · rfl
        split
        · rfl
        · rfl

/-- A start that fails leaves the program at rest. -/
theorem atRest_launch (hp : c.program? a = some p) (hfail : (c.continueProgram now mem a false).1 = .error e) :
    ∃ q, (c.launch now mem a).2.program? a = some q ∧ q.AtRest := by
  obtain ⟨q, hq, -⟩ := continues now mem false hp
  rw [Channels.launch]
  generalize c.continueProgram now mem a false = begun at hq hfail
  obtain ⟨r, c'⟩ := begun
  obtain rfl : r = .error e := hfail
  have habandoned : (c'.modifyProgram a fun p => { p.abandon with pending := .none }).program? a =
      some { q.abandon with pending := .none } := by
    rw [program?_modifyProgram_self, hq]
    rfl
  exact ⟨_, program?_storeStatus habandoned, atRest_of rfl rfl⟩

/-- So does a scan that cannot give the program its next command. -/
theorem atRest_scanDevice (hp : c.program? a = some p) (hend : p.status.contains .channelEnd = true)
    (hchain : p.flags.contains .commandChain = true) (hdevice : p.status.contains .deviceEnd = true)
    (hfail : (c.continueProgram now mem a true).1 = .error e) :
    ∃ q, (c.scanDevice now mem a).2.program? a = some q ∧ q.AtRest := by
  obtain ⟨q, hq, -⟩ := continues now mem true hp
  rw [Channels.scanDevice, hp]
  dsimp only
  rw [if_pos hend, if_pos hchain, if_pos hdevice]
  generalize c.continueProgram now mem a true = begun at hq hfail
  obtain ⟨r, c'⟩ := begun
  obtain rfl : r = .error e := hfail
  refine ⟨q.abandon, ?_, atRest_of rfl rfl⟩
  rw [program?_raise, program?_modifyProgram_self, hq]
  rfl

theorem atRest_scanDevices (hl : l.Nodup) (ha : a ∈ c.looked l) (hp : c.program? a = some p)
    (hend : p.status.contains .channelEnd = true) (hchain : p.flags.contains .commandChain = true)
    (hdevice : p.status.contains .deviceEnd = true) (hfail : (c.continueProgram now mem a true).1 = .error e) :
    ∃ q, (Channels.scanDevices now mem l c).2.program? a = some q ∧ q.AtRest := by
  induction l generalizing c with
  | nil => cases ha
  | cons b rest ih =>
    obtain ⟨hb, hrest⟩ := List.nodup_cons.mp hl
    cases hends : c.endsLoad b with
    | true =>
      rw [looked_cons_of_ends hends] at ha
      cases ha
    | false =>
      rw [looked_cons_of_goes hends] at ha
      obtain ⟨hnone, hlook⟩ := looks_scanDevice now mem hends
      have hself : a = b → ∃ q, (c.scanDevice now mem b).2.program? b = some q ∧ q.AtRest := fun hab =>
        atRest_scanDevice (hab ▸ hp) hend hchain hdevice (hab ▸ hfail)
      rw [Channels.scanDevices]
      generalize c.scanDevice now mem b = done at hnone hlook hself
      obtain ⟨progress, c₁⟩ := done
      obtain rfl : progress = none := hnone
      by_cases hab : a = b
      · -- The rest of the scan does not come back to this device.
        obtain ⟨q, hq, hatRest⟩ := hself hab
        have hscanned : Scanned rest c₁ (Channels.scanDevices now mem rest c₁) := scanned_scanDevices now mem hrest
        have hkept := hscanned.beyond b (fun hmem => hb (looked_subset hmem)) fun hmem => absurd hmem hb
        refine ⟨q, ?_, hatRest⟩
        rw [program?, hab, hkept]
        exact hq
      · have hother : c₁.get? a = c.get? a := hlook.others a hab
        have ha' : a ∈ c₁.looked rest := by
          rw [hlook.looked hb]
          exact List.mem_of_ne_of_mem hab ha
        have hp' : c₁.program? a = some p := by
          rw [program?, hother]
          exact hp
        exact ih hrest ha' hp' ((continueProgram_congr hother).trans hfail)

end

/-! ### What holds of every state -/

/-- Every staged word is a word of memory, which has `extent` of them. -/
structure Fit (extent : Nat) (s : WithMemory δ ω) : Prop where
  size : s.2.words.size = extent
  transfer : ∀ a p, s.1.program? a = some p → Transfer.Fits extent ⟨p, s.2⟩

theorem Fit.shed {s s' : WithMemory δ ω} {extent : Nat} (h : Fit extent s) (hsheds : Sheds s.1 s'.1)
    (hsize : s'.2.words.size = s.2.words.size) : Fit extent s' where
  size := hsize.trans h.size
  transfer a q hq := by
    refine ⟨hsize.trans h.size, fun word hword => ?_⟩
    obtain ⟨p, hp, hstaged⟩ := hsheds a q hq word hword
    exact (h.transfer a p hp).staged word hstaged

/-- Calls of a device in the middle of a service, by which it has not come to its end. -/
def calls (c : Channels δ ω) (mem : Memory) (a : DeviceAddress) (service : Service ω Unit) : WithMemory δ ω :=
  match c.get? a with
  | none => (c, mem)
  | some s =>
    let (_, connection, output) :=
      Connection.run service ⟨a, ⟨s.program, mem⟩, c.channel a.channel, c.raised⟩ c.output
    ({ c.modifyProgram a fun _ => connection.transfer.program with
        real := c.real.set a.channel connection.channel
        raised := connection.raised
        output := output }, connection.transfer.memory)

/-- A transfer that fits takes the place of the one at an address. -/
theorem Fit.replace {s s' : WithMemory δ ω} {extent : Nat} {t : Transfer} (h : Fit extent s)
    (hothers : ∀ b, b ≠ a → s'.1.get? b = s.1.get? b) (hself : s'.1.program? a = some t.program) (hmemory : s'.2 = t.memory)
    (ht : t.Fits extent) : Fit extent s' where
  size := hmemory ▸ ht.size
  transfer b q hq := by
    refine ⟨hmemory ▸ ht.size, fun word hword => ?_⟩
    by_cases hb : b = a
    · subst hb
      obtain rfl := Option.some.inj (hself.symm.trans hq)
      exact ht.staged word hword
    · rw [program?, hothers b hb] at hq
      exact (h.transfer b q hq).staged word hword

theorem fit_calls {extent : Nat} {service : Service ω Unit} (h : Fit extent (c, mem)) :
    Fit extent (c.calls mem a service) := by
  cases hs : c.get? a with
  | none =>
    rw [calls, hs]
    exact h
  | some s =>
    have hp : c.program? a = some s.program := by
      rw [program?, hs]
      rfl
    let called : Connection := ⟨a, ⟨s.program, mem⟩, c.channel a.channel, c.raised⟩
    have hrun : Transfer.Fits extent (called.run service c.output).2.1.transfer :=
      Transfer.keeps_fits.run service (h.transfer a s.program hp)
    rw [calls, hs]
    dsimp only
    generalize Connection.run service _ _ = done at hrun
    obtain ⟨⟨⟩, connection, output⟩ := done
    have hothers : ∀ b, b ≠ a → (c.modifyProgram a fun _ => connection.transfer.program).get? b = c.get? b :=
      fun b hb => (get?_modifyProgram c a b _).trans (if_neg hb)
    have hself : (c.modifyProgram a fun _ => connection.transfer.program).program? a =
        some connection.transfer.program := by
      rw [program?_modifyProgram_self, hp]
      rfl
    exact h.replace hothers hself rfl hrun

variable [Peripheral δ ω] {extent : Nat}

theorem fit_serviceDevice (h : Fit extent (c, mem)) : Fit extent (c.serviceDevice now mem a) := by
  cases hs : c.get? a with
  | none =>
    rw [serviceDevice, hs]
    exact h
  | some s =>
    have hp : c.program? a = some s.program := by
      rw [program?, hs]
      rfl
    obtain ⟨t, ht, hprogram, hmemory⟩ := serviceDevice_self now mem hs
    refine h.replace (fun b hb => (spares_serviceDevice now mem hb.symm).subchannel) hprogram hmemory ?_
    rw [ht]
    exact Transfer.keeps_fits.run _ (h.transfer a s.program hp)

theorem fit_pollUpTo {limit : Nat} (h : Fit extent (c, mem)) : Fit extent (pollUpTo now limit c mem) := by
  induction limit generalizing c mem with
  | zero => exact h
  | succ limit ih =>
    rw [pollUpTo]
    cases c.schedule.popDue? now with
    | none => exact h
    | some due => exact ih (fit_serviceDevice (h.shed (.of_same fun _ => rfl) rfl))

end Channels

/-! ### Addresses in registers of 32 bits -/

namespace Address

/-- The address as a register of 32 bits holds it. -/
def register (a : Address) : Word := a.setWidth 32

/-- The low 24 bits of a word are its bits under the mask. -/
theorem register_ofWord (w : Word) : register (w.setWidth 24) = w &&& 0x00FFFFFF#32 := by
  refine BitVec.eq_of_toNat_eq ?_
  have hmask : (0x00FFFFFF#32).toNat = 2 ^ 24 - 1 := rfl
  have hlow : w.toNat % 2 ^ 24 < 2 ^ 24 := Nat.mod_lt _ (by decide)
  rw [register, BitVec.toNat_setWidth, BitVec.toNat_setWidth, BitVec.toNat_and, hmask, Nat.and_two_pow_sub_one_eq_mod]
  exact Nat.mod_eq_of_lt (Nat.lt_trans hlow (by decide))

/-- Stepping an address on is stepping the register on and masking it. -/
theorem register_add (a : Address) (n : Word) : register (a + n.setWidth 24) = (a.register + n) &&& 0x00FFFFFF#32 := by
  rw [← register_ofWord]
  refine congrArg register (BitVec.eq_of_toNat_eq ?_)
  simp only [register, BitVec.toNat_add, BitVec.toNat_setWidth]
  omega

/-- Stepping an address back, below zero to the highest one, is stepping the register back and masking it. -/
theorem register_sub (a : Address) (n : Word) : register (a - n.setWidth 24) = (a.register - n) &&& 0x00FFFFFF#32 := by
  rw [← register_ofWord]
  refine congrArg register (BitVec.eq_of_toNat_eq ?_)
  simp only [register, BitVec.toNat_sub, BitVec.toNat_setWidth]
  omega

theorem register_masked (a : Address) : a.register &&& 0x00FFFFFF#32 = a.register := by
  have hlow : (a.register.setWidth 24 : Address) = a := BitVec.eq_of_toNat_eq (by
    simp only [register, BitVec.toNat_setWidth]
    omega)
  rw [← register_ofWord, hlow]

/-- What is masked stays in the range of the mask. -/
theorem toNat_lt (a : Address) : a.toNat < 0x1000000 := by
  have hle : (a.register &&& 0x00FFFFFF#32).toNat ≤ 0x00FFFFFF := by
    rw [BitVec.toNat_and]
    exact Nat.and_le_right
  rw [register_masked, register, BitVec.toNat_setWidth, Nat.mod_eq_of_lt (Nat.lt_trans a.isLt (by decide))] at hle
  omega

end Address

/-- The place in the list after a status modifier. -/
theorem ChannelProgram.register_modified (p : ChannelProgram) :
    p.modified.next.register =
      if p.status.contains .modifier then (p.next.register + 8) &&& 0x00FFFFFF#32 else p.next.register := by
  rw [modified]
  split
  · exact p.next.register_add 8
  · rfl

/-- The place of the data after a byte, in the direction in which the command goes. -/
theorem Transfer.register_passed (p : ChannelProgram) :
    (passed p).dataAddress.register =
      (if p.command = some ChannelCommand.readBackward then p.dataAddress.register - 1 else p.dataAddress.register + 1) &&&
        0x00FFFFFF#32 := by
  rw [passed]
  dsimp only
  split
  · exact p.dataAddress.register_sub 1
  · exact p.dataAddress.register_add 1

/-! ### In range -/

/-- A program with its memory is in range, and so it is after the next call of its device. -/
structure Transfer.InRange (t : Transfer) : Prop where
  next : t.program.next.toNat < 0x1000000
  dataAddress : t.program.dataAddress.toNat < 0x1000000
  staged : ∀ word, t.program.staged = some word → word.Fits t.memory.words.size
  flushed : ∃ t', flush t = .ok () t'
  read : ∃ q, t.ComesTo q ∧ Counts t.memory.words.size q (readByte t)
  written : ∀ b, ∃ q, t.ComesTo q ∧ Counts t.memory.words.size q (writeByte b t)
  ended : ∀ s, ∃ t', endCommand s t = .ok () t' ∧ HasEnded t'.program

theorem Transfer.Fits.inRange {t : Transfer} {extent : Nat} (h : t.Fits extent) : t.InRange := by
  obtain rfl := h.size
  refine ⟨t.program.next.toNat_lt, t.program.dataAddress.toNat_lt, h.staged, ?_, counts_readByte h,
    fun b => counts_writeByte b h, fun s => ?_⟩
  · obtain ⟨t', hflush, -⟩ := flush_of_fits h
    exact ⟨t', hflush⟩
  · obtain ⟨t', hend, -, hended⟩ := endCommand_of_fits s h
    exact ⟨t', hend, hended⟩

namespace Operation
open Channels ChannelProgram
variable {δ ω : Type} [Peripheral δ ω] {s : WithMemory δ ω} {op : Operation δ} {extent : Nat}

/-- A store leaves memory as large as it is. -/
def KeepsSize : Operation δ → Prop
  | store f => ∀ mem : Memory, (f mem).words.size = mem.words.size
  | _ => True

theorem fit_perform (h : Fit extent s) (hsize : op.KeepsSize) : Fit extent (op.perform s) := by
  obtain ⟨c, mem⟩ := s
  cases op with
  | store f => exact h.shed .refl (hsize mem)
  | attach now a device => exact h.shed .attach rfl
  | reset now => exact h.shed .reset rfl
  | resetChannel n => exact h.shed .resetChannel rfl
  | resetController now a => exact h.shed .resetDevice rfl
  | boot now a => exact h.shed .boot rfl
  | startIo now a first => exact h.shed .startIo size_startIo
  | testIo now a icb => exact h.shed .testIo size_testIo
  | stopIo a => exact h.shed .stopIo rfl
  | haltIo now a => exact h.shed .haltIo rfl
  | commandDevice now a command => exact h.shed .commandDevice rfl
  | testDevice now a command => exact h.shed .testDevice rfl
  | postStatus n => exact h.shed .postStatus size_postStatus
  | storeStatus a => exact h.shed (.store .refl) rfl
  | receive a status => exact h.shed .receive rfl
  | wake a status => exact h.shed (.of_same fun _ => rfl) rfl
  | poll now => exact fit_pollUpTo h
  | scan now => exact h.shed .scan rfl

/-- The states to which the channels come with a memory of `extent` words: by operations one after another, and by calls
of devices that have not come to the end of a service. -/
inductive Reached (extent : Nat) : WithMemory δ ω → Prop
  | empty {mem : Memory} (choice : Nat → Nat) (hsize : mem.words.size = extent) :
    Reached extent (Channels.empty.choosing choice, mem)
  | perform {s : WithMemory δ ω} (op : Operation δ) (hsize : op.KeepsSize) (h : Reached extent s) :
    Reached extent (op.perform s)
  | calls {s : WithMemory δ ω} (a : DeviceAddress) (service : Service ω Unit) (h : Reached extent s) :
    Reached extent (s.1.calls s.2 a service)

theorem Reached.performAll {ops : List (Operation δ)} (h : Reached extent s) (hsize : ∀ op ∈ ops, op.KeepsSize) :
    Reached extent (performAll s ops) := by
  induction ops generalizing s with
  | nil => exact h
  | cons op rest ih =>
    obtain ⟨hop, hrest⟩ := List.forall_mem_cons.mp hsize
    exact ih (.perform op hop h) hrest

theorem Reached.fit (h : Reached extent s) : Fit extent s := by
  induction h with
  | empty choice hsize => exact ⟨hsize, fun _ _ hp => by cases hp⟩
  | perform op hsize _ ih => exact fit_perform ih hsize
  | calls a service _ ih => exact fit_calls ih

/-- The channels and their programs are in range, and a program that does not go on is at rest. -/
structure InRange (s : WithMemory δ ω) : Prop where
  place : ∀ n, (s.1.channel n).statusAddress.toNat < 0x1000000
  program : ∀ a p, s.1.program? a = some p → Transfer.InRange ⟨p, s.2⟩
  started : ∀ a d now first e, s.1.get? a = some d → Free d → Willing d now →
    ((s.1.prepared now a first d.device).continueProgram now (s.1.echoed a first s.2) a false).1 = .error e →
      ∃ q, (s.1.startIo now s.2 a first).2.1.program? a = some q ∧ q.AtRest
  scanned : ∀ a p now e, s.1.raised = true → a ∈ s.1.looked s.1.addresses → s.1.program? a = some p →
    p.status.contains .channelEnd = true → p.flags.contains .commandChain = true →
      p.status.contains .deviceEnd = true → (s.1.continueProgram now s.2 a true).1 = .error e →
        ∃ q, (s.1.scan now s.2).2.program? a = some q ∧ q.AtRest

/-- In every state to which the channels come, with memory of a fixed size, the programs and channels are in range. -/
theorem Reached.staysInRange (h : Reached extent s) : s.2.words.size = extent ∧ InRange s := by
  have hfit := h.fit
  refine ⟨hfit.size, fun n => (s.1.channel n).statusAddress.toNat_lt, fun a p hp => (hfit.transfer a p hp).inRange,
    fun a d now first e hs hfree hwilling hfail => ?_,
    fun a p now e hraised ha hp hend hchain hdevice hfail => ?_⟩
  · have hprogram : (s.1.prepared now a first d.device).program? a = some (Channels.started a first) := by
      rw [prepared, program?_modifyProgram_self, program?_absorb hs]
      rfl
    rw [startIo_of_willing hs hfree hwilling]
    exact atRest_launch hprogram hfail
  · let lowered : Channels δ ω := { s.1 with raised := false }
    have hsame : (lowered.continueProgram now s.2 a true).1 = (s.1.continueProgram now s.2 a true).1 :=
      continueProgram_congr rfl
    rw [Channels.scan, if_pos hraised]
    exact atRest_scanDevices s.1.nodup_addresses ha hp hend hchain hdevice (hsame.trans hfail)

end Operation

/-! ### A device in the middle of its service -/

namespace Trickle
open Channels Operation

def starting : List (Operation Trickle) := [.attach 0 left ⟨[0x11, 0x22]⟩, .startIo 0 left 0]

/-- The device has put in a byte and not ended its command. -/
def interrupted : WithMemory Trickle Char :=
  let s := performAll (Channels.empty, halves) starting
  s.1.calls s.2 left (.writeByte 0x11 fun _ => .done ())

theorem staysInRange_interrupted : Reached 6 interrupted ∧
    (interrupted.1.program? left).bind ChannelProgram.staged = some ⟨16, 0x11000000, true⟩ ∧
    interrupted.2.words.size = 6 ∧ InRange interrupted := by
  have hstarted : Reached 6 (performAll (Channels.empty, halves) starting) :=
    .performAll (.empty (fun _ => 0) rfl) (by simp [starting, KeepsSize])
  have hreached : Reached 6 interrupted := hstarted.calls left (.writeByte 0x11 fun _ => .done ())
  exact ⟨hreached, by decide +kernel, hreached.staysInRange⟩

end Trickle
end Concept32
