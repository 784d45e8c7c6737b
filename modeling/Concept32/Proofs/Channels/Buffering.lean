import Concept32.Proofs.Channels.Staging

/-!
# The staged word cannot be noticed

A channel that moves bytes through one word of memory gives a device the same answers, goes through its list in the
same way and leaves the same memory as one that moves every byte directly.
-/

namespace Concept32.Transfer
open EStateM
variable {t r : Transfer} {word : StagedWord} {a : Address}

/-! ### Steps side by side -/

/-- The relation knows the program without its staged word, and is kept by changes beside it. -/
class Parallel (R : Transfer → Transfer → Prop) : Prop where
  program {t r : Transfer} (h : R t r) : r.program = t.program.unstaged
  change {t r : Transfer} {f : ChannelProgram → ChannelProgram} (h : R t r)
    (hf : ∀ p, f p.unstaged = (f p).unstaged) (hstaged : ∀ p, (f p).staged = p.staged) :
    R ⟨f t.program, t.memory⟩ ⟨f r.program, r.memory⟩

instance : Parallel Shadows where
  program h := h.program
  change h hf hstaged :=
    { program := (congrArg _ h.program).trans (hf _)
      holds := fun word hword => h.holds word ((hstaged _).symm.trans hword)
      memory := by
        rw [h.memory, written, written, hstaged] }

instance : Parallel Clean where
  program h := h.program
  change h hf hstaged :=
    { program := (congrArg _ h.program).trans (hf _)
      memory := h.memory
      staged := fun word hword => h.staged word ((hstaged _).symm.trans hword) }

section
variable {ε α β : Type} {R : Transfer → Transfer → Prop} [Parallel R] {V : α → β → Prop}

theorem simulates_current {f : ChannelProgram → Step ε α} {g : ChannelProgram → Step ε β}
    (h : ∀ p, Simulates V R (f p) (g p.unstaged)) : Simulates V R (current >>= f) (current >>= g) := fun t r hR => by
  rw [bind_of_ok (current_eq_ok t), bind_of_ok (current_eq_ok r), Parallel.program hR]
  exact h t.program t r hR

theorem simulates_modifyProgram {f : ChannelProgram → ChannelProgram} (hf : ∀ p, f p.unstaged = (f p).unstaged)
    (hstaged : ∀ p, (f p).staged = p.staged) :
    Simulates Eq R (modifyProgram f : Step ε Unit) (modifyProgram f) := fun _ _ hR =>
  .ok rfl (Parallel.change hR hf hstaged)

theorem simulates_failMemory : Simulates V R (failMemory : Step ChannelStatus α) (failMemory : Step ChannelStatus β) :=
  .bind (simulates_modifyProgram (fun _ => rfl) fun _ => rfl) fun _ _ _ => simulates_current fun _ => .throw

end

theorem sameEnd_orStop {α β : Type} {R : Transfer → Transfer → Prop} {V : α → β → Prop} {x : Step ChannelStatus α}
    {y : Step ChannelStatus β} (h : SameEnd V R (x t) (y r)) : SameEnd V R (orStop x t) (orStop y r) := by
  rw [orStop, orStop]
  generalize x t = left at h
  generalize y r = right at h
  cases h with
  | ok hV hR => exact .ok hV hR
  | error hR => exact .error hR

/-- Going through the list looks at memory, which must be up to date. -/
theorem sameEnd_chainData (h : Clean t r) : SameEnd Eq Clean (chainData t) (chainData r) := by
  have hend : SameEnd Eq (ChannelProgram.Agrees t.program.staged)
      (t.program.chainData t.memory ChannelProgram.dataChainLimit)
      (r.program.chainData t.memory ChannelProgram.dataChainLimit) :=
    ChannelProgram.sameEnd_chainData ⟨h.program, .inl rfl⟩
  have hclean : ∀ p q, ChannelProgram.Agrees t.program.staged p q → Clean ⟨p, t.memory⟩ ⟨q, t.memory⟩ := by
    rintro p q ⟨rfl, hstaged | hstaged⟩
    · exact ⟨rfl, rfl, fun word hword => h.memory ▸ h.staged word (hstaged.symm.trans hword)⟩
    · exact .of_none rfl rfl hstaged
  rw [chainData, chainData, h.memory]
  generalize t.program.chainData t.memory ChannelProgram.dataChainLimit = left at hend
  generalize r.program.chainData t.memory ChannelProgram.dataChainLimit = right at hend
  cases hend with
  | ok hV hagrees => exact .ok hV (hclean _ _ hagrees)
  | error hagrees => exact .error (hclean _ _ hagrees)

/-! ### The calls of a device -/

theorem loadByte_of_lt (hpresent : a.toNat / 4 < r.memory.words.size) :
    loadByte a r = .ok (Memory.byteOf (r.memory.wordAt (a.toNat / 4)) (offsetOf a)) r := by
  rw [loadByte, bind_of_ok (EStateM.get_eq_ok.mpr ⟨rfl, rfl⟩), Memory.readByte, Memory.index_one, toNat_setWidth_word,
    if_pos hpresent]
  rfl

theorem loadByte_of_not_lt (habsent : ¬a.toNat / 4 < r.memory.words.size) : loadByte a r = failMemory r := by
  rw [loadByte, bind_of_ok (EStateM.get_eq_ok.mpr ⟨rfl, rfl⟩), Memory.readByte, Memory.index_one, toNat_setWidth_word,
    if_neg habsent]
  rfl

theorem storeByte_of_lt {b : Byte} (hpresent : a.toNat / 4 < r.memory.words.size) :
    storeByte a b r =
      .ok () ⟨r.program, r.memory.update (a.toNat / 4) fun w => Memory.withByte w (offsetOf a) b⟩ := by
  rw [storeByte, Memory.writeByte, Memory.change, Memory.index_one, toNat_setWidth_word, if_pos hpresent]
  rfl

theorem storeByte_of_not_lt {b : Byte} (habsent : ¬a.toNat / 4 < r.memory.words.size) :
    storeByte a b r = failMemory r := by
  rw [storeByte, Memory.writeByte, Memory.change, Memory.index_one, toNat_setWidth_word, if_neg habsent]

/-- The byte of the staged word is the byte of memory. -/
theorem simulates_loadByte :
    Simulates (fun word b => Memory.byteOf word.value (offsetOf a) = b) Clean (stage a) (loadByte a) := by
  intro t r h
  by_cases hpresent : a.toNat / 4 < r.memory.words.size
  · obtain ⟨word, t', hstage, -, hclean, hword, haddress⟩ := stage_of_lt h.shadows hpresent
    rw [hstage, loadByte_of_lt hpresent]
    have hvalue := ((hclean h).staged word hword).1.value
    rw [haddress, wordAddress_div] at hvalue
    exact .ok (by rw [hvalue]) (hclean h)
  · obtain ⟨t', hstage, hclean⟩ := stage_of_not_lt h.shadows hpresent
    rw [hstage, loadByte_of_not_lt hpresent]
    exact simulates_failMemory t' r hclean

/-- A change of the staged word is a change of memory without one. -/
theorem Shadows.put (h : Shadows t r) (hword : t.program.staged = some word) (f : Word → Word) :
    Shadows ⟨{ t.program with staged := some { word with value := f word.value, dirty := true } }, t.memory⟩
      ⟨r.program, r.memory.update (word.address.toNat / 4) f⟩ where
  program := h.program
  holds word' hword' := by
    cases hword'
    obtain ⟨haligned, hpresent, hvalue⟩ := h.holds word hword
    refine ⟨haligned, by rwa [Memory.size_update], ?_⟩
    rw [Memory.wordAt_update, if_pos ⟨rfl, hpresent⟩, hvalue]
  memory := by
    have hvalue := (h.holds word hword).value
    have hmemory : r.memory = if word.dirty then t.memory.update (word.address.toNat / 4) fun _ => word.value
        else t.memory := by rw [h.memory, written, hword]
    show r.memory.update _ f = t.memory.update _ fun _ => f word.value
    cases hdirty : word.dirty with
    | true => rw [hmemory, hdirty, if_pos rfl, Memory.update_update]
    | false =>
      rw [hdirty, if_neg Bool.false_ne_true] at hmemory
      rw [← hmemory]
      exact Memory.update_congr (by rw [hvalue])

/-- A byte that is put into the staged word is in memory without one. -/
theorem simulates_storeByte {b : Byte} :
    Simulates Eq Shadows
      (orStop (stage a) >>= fun word => modifyProgram fun p => { p with
        staged := some { word with value := Memory.withByte word.value (offsetOf a) b, dirty := true } })
      (orStop (storeByte a b)) := by
  intro t r h
  by_cases hpresent : a.toNat / 4 < r.memory.words.size
  · obtain ⟨word, t', hstage, hshadows, -, hword, haddress⟩ := stage_of_lt h hpresent
    have hindex : word.address.toNat / 4 = a.toNat / 4 := by rw [haddress, wordAddress_div]
    have hput := hshadows.put hword fun w => Memory.withByte w (offsetOf a) b
    rw [hindex] at hput
    rw [bind_of_ok (orStop_of_ok hstage), orStop_of_ok (storeByte_of_lt hpresent)]
    exact .ok rfl hput
  · obtain ⟨t', hstage, hclean⟩ := stage_of_not_lt h hpresent
    have hfail : SameEnd (fun _ _ => False) Shadows (stage a t) (storeByte a b r) := by
      rw [hstage, storeByte_of_not_lt hpresent]
      exact (simulates_failMemory t' r hclean).mono (fun _ _ => id) fun _ _ => Clean.shadows
    rw [← bind_pure (orStop (storeByte a b))]
    exact (sameEnd_orStop hfail).bind fun _ _ => False.elim

theorem simulates_readByte : Simulates Eq Clean readByte readDirect :=
  simulates_current fun _ => .ite Iff.rfl (simulates_current fun _ => .throw) <|
    simulates_current fun _ => .ite Iff.rfl .throw <|
      .bind (fun _ _ h => sameEnd_orStop (sameEnd_chainData h)) fun more _ hmore => by
        subst hmore
        exact .ite Iff.rfl (.bind (simulates_modifyProgram (fun _ => rfl) fun _ => rfl) fun _ _ _ => .throw) <|
          simulates_current fun _ => .bind (fun t r h => sameEnd_orStop (simulates_loadByte t r h)) fun _ _ hb =>
            .bind (simulates_modifyProgram (fun _ => rfl) fun _ => rfl) fun _ _ _ => .pure hb

/-- The list is gone through when the doubleword has no room left, and then memory is up to date. -/
theorem simulates_room {x y : Step TransferEnd Unit} (hxy : Simulates Eq Shadows x y) : Simulates Eq Shadows
    (do
      if (← current).count = 0 then
        orStop flush
        withData x
      else x)
    (withData y) := by
  intro t r h
  have hfinish : Simulates Eq Shadows (do modifyProgram finish; MonadExcept.throw .exhausted : Step TransferEnd Unit)
      (do modifyProgram finish; MonadExcept.throw .exhausted) :=
    .bind (simulates_modifyProgram (fun _ => rfl) fun _ => rfl) fun _ _ _ => .throw
  have hrest : ∀ more more', more = more' → Simulates Eq Shadows
      (if !more then (do modifyProgram finish; MonadExcept.throw .exhausted) else x)
      (if !more' then (do modifyProgram finish; MonadExcept.throw .exhausted) else y) := by
    rintro more - rfl
    exact .ite Iff.rfl hfinish hxy
  by_cases hcount : t.program.count = 0
  · obtain ⟨t', hflush, hclean⟩ := flush_of_shadows h
    have hchain : SameEnd Eq Shadows (orStop chainData t') (orStop chainData r) :=
      (sameEnd_orStop (sameEnd_chainData hclean)).mono (fun _ _ => id) fun _ _ => Clean.shadows
    rw [bind_of_ok (current_eq_ok t), if_pos hcount, bind_of_ok (orStop_of_ok hflush)]
    exact hchain.bind hrest
  · -- The reference goes through its list all the same, and stays where it is.
    have hroom : chainData r = .ok true r := by
      have hcount' : r.program.count ≠ 0 := by rw [h.program]; exact hcount
      rw [chainData, ChannelProgram.chainData.eq_def, if_pos hcount']
    rw [bind_of_ok (current_eq_ok t), if_neg hcount, withData_of_more hroom]
    exact hxy t r h

theorem simulates_accepting {x y : Step TransferEnd Unit} (hxy : Simulates Eq Shadows x y) :
    Simulates Eq Shadows (accepting x) (accepting y) := by
  refine simulates_current fun _ => .ite Iff.rfl (simulates_current fun _ => .throw) ?_
  refine simulates_current fun _ => .ite Iff.rfl (simulates_current fun _ => .ite Iff.rfl ?_ .throw) hxy
  exact .bind (simulates_modifyProgram (fun _ => rfl) fun _ => rfl) fun _ _ _ => .throw

theorem simulates_writeByte {b : Byte} : Simulates Eq Shadows (writeByte b) (writeDirect b) := by
  refine simulates_accepting (simulates_room ?_)
  refine simulates_current fun _ => simulates_current fun _ => simulates_current fun _ => .ite Iff.rfl ?_ ?_
  · rw [← bind_assoc]
    exact .bind simulates_storeByte fun _ _ _ => simulates_modifyProgram (fun _ => rfl) fun _ => rfl
  · exact simulates_modifyProgram (fun _ => rfl) fun _ => rfl

theorem simulates_isComplete : Simulates Eq Shadows isComplete isCompleteDirect := by
  intro t r h
  have hphase : r.program.phase = t.program.phase := by rw [h.program]; rfl
  have hcount : r.program.count = t.program.count := by rw [h.program]; rfl
  rw [isComplete, isCompleteDirect, hphase, hcount]
  split
  · exact .ok rfl h
  split
  · exact .ok rfl h
  obtain ⟨t', hflush, hclean⟩ := flush_of_shadows h
  have hflags : r.program.flags = t'.program.flags := by rw [hclean.program]; rfl
  rw [hflush, hflags]
  dsimp only
  split
  · exact .ok rfl hclean.shadows
  · exact .ok rfl (Parallel.change hclean.shadows (fun _ => rfl) fun _ => rfl)

/-- The end of the command leaves both the same. -/
theorem endCommand_eq (h : Shadows t r) (s : ChannelStatus) : endCommand s t = endDirect s r := by
  obtain ⟨t', hflush, hclean⟩ := flush_of_shadows h
  rw [endCommand, endDirect, hflush, hclean.program, hclean.memory]
  rfl

/-! ### Calls in turn -/

/-- The calls answer alike and keep two transfers in a relation. -/
def Alike (R : Transfer → Transfer → Prop) (c : PortCall) : Prop :=
  ∀ {t r}, R t r → (Port.buffered.call c t).1 = (Port.direct.call c r).1 ∧
    R (Port.buffered.call c t).2 (Port.direct.call c r).2

theorem run_of_sameEnd {ε α : Type} {R : Transfer → Transfer → Prop} {x y : Step ε α}
    (h : SameEnd Eq R (x t) (y r)) : (x.run t).1 = (y.run r).1 ∧ R (x.run t).2 (y.run r).2 := by
  rw [Step.run, Step.run]
  generalize x t = left at h
  generalize y r = right at h
  cases h with
  | ok hV hR => exact ⟨congrArg Except.ok hV, hR⟩
  | error hR => exact ⟨rfl, hR⟩

theorem alike_readByte : Alike Clean .readByte := fun {t r} h => by
  obtain ⟨hanswer, hclean⟩ := run_of_sameEnd (simulates_readByte t r h)
  exact ⟨congrArg PortAnswer.byte hanswer, hclean⟩

theorem alike_writeByte {b : Byte} : Alike Shadows (.writeByte b) := fun {t r} h => by
  obtain ⟨hanswer, hshadows⟩ := run_of_sameEnd (simulates_writeByte t r h)
  exact ⟨congrArg PortAnswer.stored hanswer, hshadows⟩

theorem alike_isComplete : Alike Shadows .isComplete := fun {t r} h => by
  obtain ⟨hanswer, hshadows⟩ := run_of_sameEnd (simulates_isComplete t r h)
  exact ⟨congrArg PortAnswer.complete hanswer, hshadows⟩

/-- Alike calls in turn give the same reports. -/
theorem calls_of_alike {R : Transfer → Transfer → Prop} [Parallel R] {calls : List PortCall}
    (hcalls : ∀ c ∈ calls, Alike R c) (h : R t r) :
    (Port.buffered.calls calls t).1 = (Port.direct.calls calls r).1 ∧
      R (Port.buffered.calls calls t).2 (Port.direct.calls calls r).2 := by
  induction calls generalizing t r with
  | nil => exact ⟨rfl, h⟩
  | cons c rest ih =>
    obtain ⟨hanswer, hR⟩ := hcalls c List.mem_cons_self h
    obtain ⟨hreports, hlast⟩ := ih (fun c hc => hcalls c (List.mem_cons_of_mem _ hc)) hR
    have hreport : PortReport.of (Port.buffered.call c t) = PortReport.of (Port.direct.call c r) := by
      rw [PortReport.of, PortReport.of, hanswer, Parallel.program hR]
      rfl
    refine ⟨?_, hlast⟩
    show PortReport.of _ :: _ = PortReport.of _ :: _
    rw [hreport, hreports]

/-! ### The staged word cannot be noticed -/

section
variable {calls : List PortCall}

/-- What calls in turn show, and what they leave in memory, is the same with a staged word and without one. -/
structure Unnoticed (calls : List PortCall) (t : Transfer) : Prop where
  reports : (Port.buffered.calls calls t).1 = (Port.direct.calls calls t).1
  finished : ∀ s, Port.buffered.finished s (Port.buffered.calls calls t).2 =
    Port.direct.finished s (Port.direct.calls calls t).2
  /-- With the staged word written back, as before the list is gone through, all bytes so far are in memory. -/
  flushed : ∃ u, flush (Port.buffered.calls calls t).2 = .ok () u ∧
    u.memory = (Port.direct.calls calls t).2.memory
  /-- Only bytes at which something was stored change. -/
  beside : ∀ s n, (∀ a ∈ targets calls t, n ≠ a.toNat) →
    (Port.buffered.finished s (Port.buffered.calls calls t).2).memory.byteAt n = t.memory.byteAt n
  /-- A byte that is not to be stored, be it in a doubleword still to be fetched, leaves memory as it is. -/
  discarded : ∀ b, (Port.direct.calls calls t).2.target? = none →
    ∃ u, flush (Port.buffered.call (.writeByte b) (Port.buffered.calls calls t).2).2 = .ok () u ∧
      u.memory = (Port.direct.calls calls t).2.memory
  /-- A byte that is thrown away touches neither memory nor the staged word. -/
  skipped : ∀ b, (Port.buffered.calls calls t).2.program.count ≠ 0 →
    (Port.buffered.calls calls t).2.program.flags.contains .skip →
      (Port.buffered.call (.writeByte b) (Port.buffered.calls calls t).2).2.memory =
        (Port.buffered.calls calls t).2.memory ∧
      (Port.buffered.call (.writeByte b) (Port.buffered.calls calls t).2).2.program.staged =
        (Port.buffered.calls calls t).2.program.staged

/-- A byte that is thrown away touches neither memory nor the staged word. -/
theorem call_writeByte_of_skip {b : Byte} (hcount : t.program.count ≠ 0) (hskip : t.program.flags.contains .skip) :
    (Port.buffered.call (.writeByte b) t).2.memory = t.memory ∧
      (Port.buffered.call (.writeByte b) t).2.program.staged = t.program.staged := by
  show ((writeByte b).run t).2.memory = _ ∧ ((writeByte b).run t).2.program.staged = _
  rw [Step.run]
  rcases accepting_cases _ t with ⟨-, p, e, hp, hrefused⟩ | ⟨-, haccepted⟩
  · have hwrite : writeByte b t = .error e ⟨p, t.memory⟩ := hrefused
    rw [hwrite]
    rcases hp with rfl | rfl
    · exact ⟨rfl, rfl⟩
    · exact ⟨rfl, rfl⟩
  · let next := if t.program.command = some ChannelCommand.readBackward then t.program.dataAddress - 1
      else t.program.dataAddress + 1
    have hwrite : writeByte b t =
        .ok () ⟨{ t.program with dataAddress := next, count := t.program.count - 1 }, t.memory⟩ :=
      haccepted.trans <| (congrFun (if_neg hcount) t).trans (congrFun (if_neg (by simp [hskip])) t)
    rw [hwrite]
    exact ⟨rfl, rfl⟩

theorem unnoticed_of_shadows (h : Shadows (Port.buffered.calls calls t).2 (Port.direct.calls calls t).2)
    (hreports : (Port.buffered.calls calls t).1 = (Port.direct.calls calls t).1) : Unnoticed calls t := by
  have hfinished : ∀ s, Port.buffered.finished s (Port.buffered.calls calls t).2 =
      Port.direct.finished s (Port.direct.calls calls t).2 := fun s => by
    show ((endCommand s).run _).2 = ((endDirect s).run _).2
    rw [Step.run, Step.run, endCommand_eq h]
  have hflushed : ∀ {v r}, Shadows v r → ∃ u, flush v = .ok () u ∧ u.memory = r.memory := fun hv => by
    obtain ⟨u, hflush, hclean⟩ := flush_of_shadows hv
    exact ⟨u, hflush, hclean.memory.symm⟩
  refine ⟨hreports, hfinished, hflushed h, fun s n hn => ?_, fun b htarget => ?_, fun b => call_writeByte_of_skip⟩
  · rw [hfinished]
    exact byteAt_calls hn
  · obtain ⟨u, hflush, hmemory⟩ := hflushed (alike_writeByte (b := b) h).2
    have hstored : (Port.direct.call (.writeByte b) (Port.direct.calls calls t).2).2.memory = _ :=
      memory_run.trans memory_writeDirect
    rw [htarget] at hstored
    exact ⟨u, hflush, hmemory.trans hstored⟩

/-- A command that takes bytes from memory, or one that puts them there, does not notice the staged word. -/
theorem unnoticed_calls (hstaged : t.program.staged = none)
    (hkind : (∀ c ∈ calls, c = .readByte) ∨ .readByte ∉ calls) : Unnoticed calls t := by
  have hclean : Clean t t := .of_none (by rw [ChannelProgram.unstaged, ← hstaged]) rfl hstaged
  -- Bytes that go out never make the staged word dirty; those that come in keep only what lies behind it.
  rcases hkind with hreads | hwrites
  · obtain ⟨hreports, hlast⟩ := calls_of_alike (fun c hc => hreads c hc ▸ alike_readByte) hclean
    exact unnoticed_of_shadows hlast.shadows hreports
  · have halike : ∀ c ∈ calls, Alike Shadows c := fun c hc => by
      cases c with
      | readByte => exact absurd hc hwrites
      | writeByte b => exact alike_writeByte
      | isComplete => exact alike_isComplete
    obtain ⟨hreports, hlast⟩ := calls_of_alike halike hclean.shadows
    exact unnoticed_of_shadows hlast hreports

/-- A command that puts three bytes at address 2 and, by data chaining, three more at address 9. -/
def receiving : Transfer where
  program := { ChannelProgram.idle with
    next := 16
    dataAddress := 2
    count := 3
    flags := ⟨0x8000#16⟩
    command := some 0x02#8
    phase := .active }
  memory := ⟨#[0, 0, 0, 0, 0x02000009, 3], by decide⟩

/-- Four bytes that come in for it, the device asking after the third whether that is all. -/
def received : List PortCall := [.writeByte 0xA1, .writeByte 0xA2, .writeByte 0xA3, .isComplete, .writeByte 0xA4]

theorem unnoticed_calls_receiving :
    receiving.program.staged = none ∧ .readByte ∉ received ∧ Unnoticed received receiving ∧
      (Port.buffered.finished .none (Port.buffered.calls received receiving).2).memory.words =
        #[0x0000A1A2, 0xA3000000, 0x00A40000, 0, 0x02000009, 3] :=
  ⟨rfl, by decide, unnoticed_calls rfl (.inr (by decide)), by decide +kernel⟩

end

end Concept32.Transfer
