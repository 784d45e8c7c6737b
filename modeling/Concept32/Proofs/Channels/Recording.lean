import Concept32.Proofs.Channels.Chaining

/-!
# Devices with a record of their commands

Any device can be given a record of the commands that it is given. The record changes nothing: with it the channels
do what they do without it.
-/

namespace Concept32

/-- A device with the commands that it has been given, in order. -/
structure Recorded (δ : Type) where
  device : δ
  commands : List Byte

/-- A reaction of a device, with the record afterwards. -/
def Reaction.recorded {δ ω α : Type} (r : Reaction δ ω α) (commands : List Byte) : Reaction (Recorded δ) ω α :=
  ⟨r.answer, ⟨r.device, commands⟩, r.output⟩

instance {δ ω : Type} [Peripheral δ ω] : Peripheral (Recorded δ) ω where
  name d := Peripheral.name d.device
  attached d := Peripheral.attached d.device
  writeProtected d := Peripheral.writeProtected d.device
  reset d now attaching := (Peripheral.reset d.device now attaching).recorded d.commands
  startCommand d now command := (Peripheral.startCommand d.device now command).recorded (d.commands ++ [command])
  startIo d now := (Peripheral.startIo d.device now).recorded d.commands
  haltIo d now := (Peripheral.haltIo d.device now).recorded d.commands
  testIo d now := (Peripheral.testIo d.device now).recorded d.commands
  service d now := (Peripheral.service d.device now).andThen fun r => .done (⟨r.1, d.commands⟩, r.2)
  commandDevice d now command := (Peripheral.commandDevice d.device now command).recorded d.commands
  testDevice d now command := (Peripheral.testDevice d.device now command).recorded d.commands

/-! ### Tables of other values -/

namespace Table
variable {n : Nat} {α β : Type} {t : Table n α} {key : BitVec n}

/-- Other values under the same keys. -/
def map (t : Table n α) (f : α → β) : Table n β where
  entries := t.entries.map fun e => (e.1, f e.2)
  ascending := by simpa [List.map_map, Function.comp_def] using t.ascending

theorem get?_map {f : α → β} : (t.map f).get? key = (t.get? key).map f := by
  rw [get?, get?, map]
  dsimp only
  induction t.entries with
  | nil => rfl
  | cons e rest ih =>
    rw [List.map_cons, List.lookup_cons, List.lookup_cons]
    cases key == e.1 with
    | true => rfl
    | false => exact ih

theorem keys_map {f : α → β} : (t.map f).keys = t.keys := by
  simp [keys, map]

/-- A change of a value may be made before or after. -/
theorem map_modify {f : α → β} {g : α → α} {h : β → β} (heq : ∀ v, f (g v) = h (f v)) :
    (t.modify key g).map f = (t.map f).modify key h := by
  simp only [modify, mapValues, map, List.map_map, Function.comp_def]
  congr 1
  refine List.map_congr_left fun e _ => ?_
  split
  · rw [heq]
  · rfl

theorem map_map {γ : Type} {f : α → β} {g : β → γ} : (t.map f).map g = t.map fun v => g (f v) := by
  simp [map, List.map_map, Function.comp_def]

theorem map_id {f : α → α} (h : ∀ v, f v = v) : t.map f = t := by
  simp [map, h]

end Table

/-! ### Services -/

namespace Connection
variable {ω α β : Type}

/-- What is made of the value of a service makes no difference to the connection. -/
theorem run_andThen_done (x : Service ω α) (f : α → β) (c : Connection) (output : Array ω) :
    c.run (x.andThen fun r => .done (f r)) output =
      (f (c.run x output).1, (c.run x output).2.1, (c.run x output).2.2) :=
  run_andThen x (fun r => .done (f r)) c output

end Connection

namespace Service
variable {ω α β : Type} {P : β → Prop} {f : α → β} {x : Service ω α}

theorem ends_of_forall {Q : α → Prop} (h : ∀ value, Q value) : x.Ends Q := by
  induction x with
  | done value => exact h value
  | output item rest ih => exact ih
  | inspect next ih => exact ih
  | readByte next ih => exact ih
  | writeByte b next ih => exact ih
  | isComplete next ih => exact ih
  | endCommand s rest ih => exact ih
  | attention s rest ih => exact ih
  | wake s rest ih => exact ih

theorem ends_andThen_done (h : x.Ends fun value => P (f value)) :
    (x.andThen fun value => .done (f value)).Ends P := by
  induction x with
  | done value => exact h
  | output item rest ih => exact ih h
  | inspect next ih => exact fun v => ih v (h v)
  | readByte next ih => exact fun r => ih r (h r)
  | writeByte b next ih => exact fun r => ih r (h r)
  | isComplete next ih => exact fun r => ih r (h r)
  | endCommand s rest ih => exact ih h
  | attention s rest ih => exact ih h
  | wake s rest ih => exact ih h

theorem rests_andThen_done (h : x.Rests fun value => P (f value)) :
    (x.andThen fun value => .done (f value)).Rests P := by
  induction x with
  | done value => exact h
  | output item rest ih => exact ih h
  | inspect next ih => exact fun v => ih v (h v)
  | readByte next ih => exact h.elim
  | writeByte b next ih => exact h.elim
  | isComplete next ih => exact h.elim
  | endCommand s rest ih => exact h.elim
  | attention s rest ih => exact h.elim
  | wake s rest ih => exact h.elim

theorem endsCommand_andThen_done (h : x.EndsCommand fun value => P (f value)) :
    (x.andThen fun value => .done (f value)).EndsCommand P := by
  induction x with
  | done value => exact h.elim
  | output item rest ih => exact ih h
  | inspect next ih => exact fun v => ih v (h v)
  | readByte next ih => exact fun r => ih r (h r)
  | writeByte b next ih => exact fun r => ih r (h r)
  | isComplete next ih => exact fun r => ih r (h r)
  | endCommand s rest ih => exact ⟨h.1, rests_andThen_done h.2⟩
  | attention s rest ih => exact h.elim
  | wake s rest ih => exact h.elim

end Service

namespace Channels
open ChannelProgram
variable {δ ω : Type} {c : Channels (Recorded δ) ω} {a : DeviceAddress} {now : Nat} {mem : Memory}

/-- A device without its record. -/
def forgetDevice (s : Subchannel (Recorded δ)) : Subchannel δ := ⟨s.device.device, s.program⟩

/-- The channels without the records of their devices. -/
def forget (c : Channels (Recorded δ) ω) : Channels δ ω where
  subchannels := c.subchannels.map forgetDevice
  real := c.real
  schedule := c.schedule
  loading := c.loading
  raised := c.raised
  output := c.output

/-- The channels with an empty record for each of their devices. -/
def recorded (c : Channels δ ω) : Channels (Recorded δ) ω where
  subchannels := c.subchannels.map fun s => ⟨⟨s.device, []⟩, s.program⟩
  real := c.real
  schedule := c.schedule
  loading := c.loading
  raised := c.raised
  output := c.output

theorem forget_eq {c' : Channels δ ω} (hsubchannels : c.subchannels.map forgetDevice = c'.subchannels)
    (hrest : c' = { c.forget with subchannels := c'.subchannels }) : c.forget = c' := by
  rw [hrest, ← hsubchannels]
  rfl

theorem forget_recorded (c : Channels δ ω) : c.recorded.forget = c :=
  forget_eq (Table.map_map.trans (Table.map_id fun _ => rfl)) rfl

theorem get?_recorded {c : Channels δ ω} {s : Subchannel δ} (hs : c.get? a = some s) :
    c.recorded.get? a = some ⟨⟨s.device, []⟩, s.program⟩ :=
  Table.get?_map.trans (congrArg _ hs)

theorem get?_forget : c.forget.get? a = (c.get? a).map forgetDevice := Table.get?_map

theorem program?_forget : c.forget.program? a = c.program? a := by
  rw [program?, get?_forget, Option.map_map]
  rfl

theorem addresses_forget : c.forget.addresses = c.addresses := by
  rw [addresses, forget, Table.keys_map]
  rfl

theorem forget_modifyProgram {f : ChannelProgram → ChannelProgram} :
    (c.modifyProgram a f).forget = c.forget.modifyProgram a f :=
  forget_eq (Table.map_modify (f := forgetDevice) (g := fun s => { s with program := f s.program })
    (h := fun s => { s with program := f s.program }) fun _ => rfl) rfl

theorem forget_absorb {α : Type} {r : Reaction δ ω α} {commands : List Byte} :
    (c.absorb a (r.recorded commands)).forget = c.forget.absorb a r :=
  forget_eq (Table.map_modify (f := forgetDevice) (g := fun s => { s with device := ⟨r.device, commands⟩ })
    (h := fun s => { s with device := r.device }) fun _ => rfl) rfl

theorem forget_storeStatus : (c.storeStatus a).forget = c.forget.storeStatus a := by
  rw [storeStatus, storeStatus, program?_forget]
  cases c.program? a with
  | none => rfl
  | some p =>
    have hmodify := forget_modifyProgram (c := c.queueStatus a (.of a p.next p.status p.count)) (a := a) (f := stored)
    exact congrArg raise hmodify

theorem forget_addressed {command : Byte} {place : Address} :
    (c.addressed a command place).forget = c.forget.addressed a command place := by
  rw [addressed, addressed]
  split <;> rfl

theorem forget_answered {carried : ChannelStatus} {response : CommandResponse} :
    (c.answered now a carried response).map id forget = c.forget.answered now a carried response := by
  cases response with
  | accepted delay =>
    exact Prod.ext rfl (forget_modifyProgram (c := { c with schedule := c.schedule.put a (now + delay) }))
  | done status =>
    dsimp only [answered]
    split
    · exact Prod.ext rfl (forget_modifyProgram (c := c.raise))
    split
    · exact Prod.ext rfl (forget_modifyProgram (c := c.raise))
    · exact Prod.ext rfl (forget_modifyProgram (c := c.raise))

variable [Peripheral δ ω]

theorem reactionTo_recorded (d : Recorded δ) (now : Nat) (command : Byte) : ∃ commands,
    reactionTo d now command = (reactionTo d.device now command : Reaction δ ω CommandResponse).recorded commands := by
  unfold reactionTo
  by_cases h : (ChannelCommand.isWrite command && Peripheral.writeProtected d.device) = true
  · refine ⟨d.commands, (if_pos h).trans ?_⟩
    rw [if_pos h]
    rfl
  · refine ⟨d.commands ++ [command], (if_neg h).trans ?_⟩
    rw [if_neg h]
    rfl

/-- The record tells which commands a device has been given. -/
theorem logs_recorded : Peripheral.Logs (Recorded.commands : Recorded δ → List Byte) where
  startIo _ _ := rfl
  startCommand _ _ _ := rfl
  service _ _ := Service.ends_andThen_done (Service.ends_of_forall fun _ => rfl)

theorem endsCommands_recorded {idle busy : δ → Prop} {kind : Byte → Prop} (h : Peripheral.EndsCommands idle busy kind) :
    Peripheral.EndsCommands (fun d : Recorded δ => idle d.device) (fun d => busy d.device) kind where
  startIo d now hidle := h.startIo d.device now hidle
  answers d now command hidle hkind := by
    obtain ⟨commands, hreaction⟩ := reactionTo_recorded d now command
    have hanswer := h.answers d.device now command hidle hkind
    rw [hreaction]
    exact hanswer
  service d now hbusy := Service.endsCommand_andThen_done (h.service d.device now hbusy)

theorem forget_issue {command : Byte} :
    (c.issue now a command).map id forget = c.forget.issue now a command := by
  cases hs : c.get? a with
  | none =>
    rw [issue, issue, get?_forget, hs]
    rfl
  | some s =>
    have hs' : c.forget.get? a = some (forgetDevice s) := by
      rw [get?_forget, hs]
      rfl
    obtain ⟨commands, hreaction⟩ := reactionTo_recorded s.device now command
    rw [issue_eq hs, issue_eq hs', hreaction, forget_answered, forget_absorb, forget_addressed]
    rfl

theorem forget_continueProgram {allowed : Bool} :
    (c.continueProgram now mem a allowed).map id forget = c.forget.continueProgram now mem a allowed := by
  rw [continueProgram, continueProgram, program?_forget]
  cases c.program? a with
  | none => rfl
  | some p =>
    dsimp only
    cases p.fetch mem allowed with
    | error e q =>
      dsimp only [Prod.map]
      rw [← forget_modifyProgram]
      rfl
    | ok command q =>
      cases command with
      | none =>
        dsimp only [Prod.map]
        rw [← forget_modifyProgram]
        rfl
      | some command =>
        dsimp only
        rw [forget_issue, forget_modifyProgram]

theorem forget_launch (now : Nat) (mem : Memory) : (c.launch now mem a).map id forget = c.forget.launch now mem a := by
  rw [launch, launch, ← forget_continueProgram]
  generalize c.continueProgram now mem a false = begun
  obtain ⟨_ | _, c'⟩ := begun
  · refine Prod.ext rfl ?_
    show ((c'.modifyProgram a _).storeStatus a).forget = (c'.forget.modifyProgram a _).storeStatus a
    rw [forget_storeStatus, forget_modifyProgram]
  · by_cases hasked : (c'.program? a).any (fun p => p.status.contains .programInterrupt) = true
    · have hasked' : (c'.forget.program? a).any (fun p => p.status.contains .programInterrupt) = true := by
        rw [program?_forget]
        exact hasked
      refine (congrArg (Prod.map id forget) (if_pos hasked)).trans (.trans ?_ (if_pos hasked').symm)
      refine Prod.ext rfl ?_
      show ((c'.modifyProgram a _).storeStatus a).forget = (c'.forget.modifyProgram a _).storeStatus a
      rw [forget_storeStatus, forget_modifyProgram]
    · have hasked' : ¬(c'.forget.program? a).any (fun p => p.status.contains .programInterrupt) = true := by
        rw [program?_forget]
        exact hasked
      refine (congrArg (Prod.map id forget) (if_neg hasked)).trans (.trans ?_ (if_neg hasked').symm)
      rw [program?_forget]
      cases (c'.program? a).bind ChannelProgram.command <;> rfl

theorem forget_prepared {d : Recorded δ} {first : Address} :
    (c.prepared now a first d).forget = c.forget.prepared now a first d.device := by
  rw [prepared, prepared, forget_modifyProgram]
  exact congrArg (modifyProgram · a _) forget_absorb

theorem forget_serviceDevice :
    (c.serviceDevice now mem a).map forget id = c.forget.serviceDevice now mem a := by
  rw [serviceDevice, serviceDevice, get?_forget]
  cases c.get? a with
  | none => rfl
  | some s =>
    dsimp only [Option.map_some]
    rw [show Peripheral.service s.device now =
        (Peripheral.service s.device.device now).andThen fun r => .done ((⟨r.1, s.device.commands⟩ : Recorded δ), r.2)
      from rfl, Connection.run_andThen_done]
    generalize hrun : Connection.run (Peripheral.service s.device.device now) _ _ = done
    have hplain : Connection.run (Peripheral.service (forgetDevice s).device now)
        ⟨a, ⟨(forgetDevice s).program, mem⟩, c.forget.channel a.channel, c.forget.raised⟩ c.forget.output = done := hrun
    rw [hplain]
    obtain ⟨⟨device, again⟩, ⟨address, ⟨program, mem'⟩, channel, raised⟩, output⟩ := done
    dsimp only
    refine Prod.ext (forget_eq ?_ ?_) rfl
    · exact Table.map_modify (f := forgetDevice) (g := fun _ => ⟨⟨device, s.device.commands⟩, program⟩)
        (h := fun _ => ⟨device, program⟩) fun _ => rfl
    · cases again <;> rfl

theorem forget_pollUpTo {limit : Nat} :
    (pollUpTo now limit c mem).map forget id = pollUpTo now limit c.forget mem := by
  induction limit generalizing c mem with
  | zero => rfl
  | succ limit ih =>
    rw [pollUpTo, pollUpTo]
    cases hpop : c.schedule.popDue? now with
    | none =>
      rw [show c.forget.schedule.popDue? now = none from hpop]
      rfl
    | some popped =>
      obtain ⟨b, schedule⟩ := popped
      rw [show c.forget.schedule.popDue? now = some (b, schedule) from hpop]
      refine ih.trans ?_
      have hserviced : (Channels.serviceDevice { c with schedule := schedule } now mem b).map forget id =
          (forget { c with schedule := schedule }).serviceDevice now mem b := forget_serviceDevice
      exact congrArg (fun serviced : Channels δ ω × Memory => pollUpTo now limit serviced.1 serviced.2) hserviced

theorem forget_poll : (c.poll now mem).map forget id = c.forget.poll now mem := forget_pollUpTo

theorem forget_scanDevice :
    (c.scanDevice now mem a).map id forget = c.forget.scanDevice now mem a := by
  rw [scanDevice, scanDevice, program?_forget]
  cases c.program? a with
  | none => rfl
  | some p =>
    dsimp only
    split
    · split
      · split
        · rw [← forget_continueProgram]
          generalize c.continueProgram now mem a true = continued
          obtain ⟨_ | _, c'⟩ := continued
          · exact Prod.ext rfl (congrArg raise forget_modifyProgram)
          · rfl
        · rfl
      · rw [show c.forget.loading = c.loading from rfl]
        split
        · split
          · rfl
          · exact Prod.ext rfl (forget_modifyProgram (c := { c with loading := none }))
        · exact Prod.ext rfl forget_storeStatus
    · split
      · exact Prod.ext rfl (forget_modifyProgram (c := c.queueStatus a _))
      · rfl

theorem forget_scanDevices {l : List DeviceAddress} :
    (scanDevices now mem l c).map id forget = scanDevices now mem l c.forget := by
  induction l generalizing c with
  | nil => rfl
  | cons b rest ih =>
    rw [scanDevices, scanDevices, ← forget_scanDevice]
    generalize c.scanDevice now mem b = scanned
    obtain ⟨_ | progress, c'⟩ := scanned
    · exact ih
    · rfl

theorem forget_scan : (c.scan now mem).map id forget = c.forget.scan now mem := by
  rw [scan, scan, show c.forget.raised = c.raised from rfl, addresses_forget]
  split
  · exact forget_scanDevices (c := { c with raised := false })
  · rfl

theorem forget_turn : (c.turn now mem a).forget = c.forget.turn now mem a := by
  rw [turn, turn, addresses_forget]
  exact congrArg Prod.snd (forget_scanDevices (c := { c with raised := false }))

end Channels
end Concept32
