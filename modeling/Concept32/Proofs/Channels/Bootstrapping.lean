import Concept32.Proofs.Channels.Delivering
import Concept32.Proofs.Channels.Loading

/-!
# The beginning of a load

A load resets the channels and begins with the bootstrap, which is a read when the device is a reader of a file.
-/

namespace Concept32.Channels
open ChannelProgram

section
variable {c : Channels StandardDevice Char} {a : DeviceAddress} {now : Nat} {mem : Memory} {reader : ImageReader}
  {p : ChannelProgram} {e : Entry} {next : Address}

theorem calm_reset {δ ω : Type} [Peripheral δ ω] {c : Channels δ ω} : (c.reset now).Calm a := by
  intro b _ q hq
  rw [program?, get?_reset, Option.map_map, Option.map_eq_some_iff] at hq
  obtain ⟨s, -, rfl⟩ := hq
  exact ⟨rfl, rfl⟩

theorem boot_of_ok {δ ω : Type} [Peripheral δ ω] {c c' : Channels δ ω} (hattached : c.isAttached a = true)
    (hcontinued : ((c.setChannel a.channel .idle).modifyProgram a fun _ => started a 0).continueProgram now mem a
      false = (.ok (), c')) : c.boot now mem a = (.ok (), { c' with loading := some a }) := by
  have hcontains : c.contains a = true := by
    rw [isAttached, Option.any_eq_true] at hattached
    obtain ⟨s, hs, -⟩ := hattached
    rw [contains, hs]
    rfl
  rw [boot, hcontains, hattached, if_neg (by decide), if_neg (by decide)]
  dsimp only
  rw [hcontinued]

/-- A load from a reader of a file begins with a read of the file, after a reset of the channels. -/
theorem boot_reset (hreader : c.get? a = some ⟨.imageReader reader, p⟩) (hdata : reader.data ≠ #[])
    (hentry : Progress.entryAt mem 0 false = .given next e) (hplain : e.Plain mem)
    (hcommand : e.command = ImageReader.readCommand) : ∃ c' q, (c.reset now).boot now mem a = (.ok (), c') ∧
      c'.Reading a reader.rewind next e (now + ImageReader.recordTime) q := by
  obtain ⟨hschedule, -, -⟩ : (c.reset now).schedule = c.schedule.clear ∧ _ := quiet_reset
  have hcalm : (c.reset now).Calm a := calm_reset
  have hget : (c.reset now).get? a = some ⟨.imageReader reader.rewind, .idle⟩ := by
    rw [get?_reset, hreader]
    rfl
  let begun : Channels StandardDevice Char :=
    ((c.reset now).setChannel a.channel .idle).modifyProgram a fun _ => started a 0
  have hbegun : Turns a ⟨.imageReader reader.rewind, started a 0⟩ ((c.reset now).setChannel a.channel .idle) begun :=
    (Turns.refl (c := (c.reset now).setChannel a.channel .idle) hget).program (f := fun _ => started a 0)
  have hready : Ready (started a 0) :=
    ⟨(by decide : ChannelStatus.none.hasError = false), (by decide : ChannelStatus.none.contains .modifier = false),
      (by decide : ChannelStatus.none.contains .programInterrupt = false),
      (by decide : CommandFlags.none.contains .dataChain = false), rfl⟩
  have hgiven : Given a now reader.rewind ⟨mem, 0⟩ next e begun (begun.continueProgram now mem a false) :=
    given_continueProgram hbegun.subchannel hready hentry hplain
  have hsize : 0 < reader.data.size := Array.size_pos_iff.mpr hdata
  have hattached : (c.reset now).isAttached a = true := by
    rw [isAttached, hget]
    show (!reader.data.isEmpty) = true
    rw [Array.isEmpty, decide_eq_false (Nat.ne_of_gt hsize)]
    rfl
  cases hcontinued : begun.continueProgram now mem a false with
  | mk answer c' =>
    rw [hcontinued] at hgiven
    cases hgiven with
    | carriedOut hother => exact absurd hcommand hother
    | refused hend => exact absurd hend (Nat.not_le.mpr hsize)
    | begun _ hmore hturns hreads hput =>
      refine ⟨_, _, boot_of_ok hattached hcontinued, ⟨hturns.subchannel, ?_, rfl, ?_⟩, hreads, hcommand, hmore, ?_⟩
      · exact hcalm.congr fun b hb => (hturns.others b hb).trans (hbegun.others b hb)
      · intro n
        refine (hturns.queue n).trans ((hbegun.queue n).trans ?_)
        rw [channel_setChannel]
        split
        · rfl
        · exact queue_reset
      · have hcleared : begun.schedule.entries = [] := congrArg Schedule.entries hschedule
        exact (congrArg Schedule.entries hput).trans (Schedule.entries_put_of_nil hcleared)

end

end Concept32.Channels
