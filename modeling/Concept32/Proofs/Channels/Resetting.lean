import Concept32.Proofs.Channels.Neighbours

/-!
# What a reset leaves

A reset makes every program idle, resets every device, calls off every service and empties every queue.
-/

namespace Concept32.Channels
variable {δ ω : Type} [Peripheral δ ω] {c : Channels δ ω} {a b : DeviceAddress} {now : Nat} {n : Byte}

/-! ### Devices -/

/-- A device after a reset of its own, with the program that it has. -/
def renewed (now : Nat) (s : Subchannel δ) : Subchannel δ :=
  { s with device := (Peripheral.reset s.device now false).device }

theorem get?_resetDevice : (c.resetDevice now a).get? b = if b = a then (c.get? a).map (renewed now) else c.get? b := by
  by_cases hb : b = a
  · subst hb
    rw [if_pos rfl, resetDevice]
    cases hs : c.get? b with
    | none => exact hs
    | some s => exact get?_absorb_self hs
  · rw [if_neg hb, resetDevice]
    cases c.get? a with
    | none => rfl
    | some s => exact (Touches.absorb : Touches 0 a c (c.absorb a _)).others b hb

theorem get?_foldl_resetDevice {l : List DeviceAddress} (hl : l.Nodup) :
    (l.foldl (fun c a => c.resetDevice now a) c).get? b =
      if b ∈ l then (c.get? b).map (renewed now) else c.get? b := by
  induction l generalizing c with
  | nil => rfl
  | cons a rest ih =>
    obtain ⟨ha, hrest⟩ := List.nodup_cons.mp hl
    rw [List.foldl_cons, ih hrest, get?_resetDevice]
    by_cases hb : b = a
    · subst hb
      rw [if_neg ha, if_pos rfl, if_pos List.mem_cons_self]
    · rw [if_neg hb]
      simp only [List.mem_cons, hb, false_or]

/-- A reset makes every program idle and resets every device. -/
theorem get?_reset : (c.reset now).get? b = (c.get? b).map fun s => renewed now { s with program := .idle } := by
  let idle : Channels δ ω :=
    { c with
      subchannels := c.subchannels.mapValues fun _ s => { s with program := .idle }
      real := c.real.mapValues fun _ _ => .idle
      schedule := c.schedule.clear
      loading := none
      raised := false }
  have hidle : idle.get? b = (c.get? b).map fun s => { s with program := .idle } :=
    Table.get?_mapValues c.subchannels _ b.bits
  have hreset : (c.reset now).get? b = if b ∈ idle.addresses then (idle.get? b).map (renewed now) else idle.get? b :=
    get?_foldl_resetDevice (nodup_addresses idle)
  cases hs : c.get? b with
  | none =>
    rw [hs] at hidle
    rw [hreset, hidle]
    split <;> rfl
  | some s =>
    rw [hs] at hidle
    rw [hreset, if_pos (mem_addresses (by rw [hidle]; rfl)), hidle]
    rfl

/-! ### Queues and services -/

theorem real_resetDevice : (c.resetDevice now a).real = c.real := by
  rw [resetDevice]
  split
  · rfl
  · rfl

/-- Resetting devices leaves what the reset of one of them leaves. -/
theorem foldl_resetDevice {α : Type} {f : Channels δ ω → α} (hf : ∀ c a, f (c.resetDevice now a) = f c)
    (l : List DeviceAddress) (c : Channels δ ω) : f (l.foldl (fun c a => c.resetDevice now a) c) = f c := by
  induction l generalizing c with
  | nil => rfl
  | cons a rest ih => exact (ih _).trans (hf c a)

/-- A reset calls off every service and every load, and nothing is signalled after it. -/
theorem quiet_reset :
    (c.reset now).schedule = c.schedule.clear ∧ (c.reset now).loading = none ∧ (c.reset now).raised = false := by
  have hone : ∀ (c : Channels δ ω) a, ((c.resetDevice now a).schedule, (c.resetDevice now a).loading,
      (c.resetDevice now a).raised) = (c.schedule, c.loading, c.raised) := fun c a => by
    rw [resetDevice]
    split <;> rfl
  have hall := foldl_resetDevice (f := fun c => (c.schedule, c.loading, c.raised)) hone
  simp only [Prod.mk.injEq] at hall
  rw [reset]
  exact hall _ _

theorem queue_reset : ((c.reset now).channel n).queue = [] := by
  have hreal : (c.reset now).real = c.real.mapValues fun _ _ => .idle := by
    rw [reset]
    exact foldl_resetDevice (f := Channels.real) (fun _ _ => real_resetDevice) _ _
  rw [channel, hreal, Table.get?_mapValues]
  cases c.real.get? n with
  | none => rfl
  | some channel => rfl

end Concept32.Channels
