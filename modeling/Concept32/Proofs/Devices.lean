import Concept32.Channel.Connection
import Concept32.Device.Peripheral

/-!
# What devices may do

A property of everything that a device can be done with after a service, whatever the channel answers; and
the devices that ask for service later, never at once.
-/

namespace Concept32

/-- The property holds of every value that the service can be done with. -/
def Service.Ends {ω α : Type} (P : α → Prop) : Service ω α → Prop
  | .done value => P value
  | .output _ rest => rest.Ends P
  | .inspect next => ∀ v, (next v).Ends P
  | .readByte next => ∀ r, (next r).Ends P
  | .writeByte _ next => ∀ r, (next r).Ends P
  | .isComplete next => ∀ r, (next r).Ends P
  | .endCommand _ rest => rest.Ends P
  | .attention _ rest => rest.Ends P
  | .wake _ rest => rest.Ends P

/-- A service that is carried out is done with a value that has the property. -/
theorem Connection.run_ends {ω α : Type} {P : α → Prop} {x : Service ω α} (h : x.Ends P) (c : Connection)
    (output : Array ω) : P (c.run x output).1 := by
  induction x generalizing c output with
  | done value => exact h
  | output item rest ih => exact ih h _ _
  | inspect next ih => exact ih _ (h _) _ _
  | readByte next ih => exact ih _ (h _) _ _
  | writeByte b next ih => exact ih _ (h _) _ _
  | isComplete next ih => exact ih _ (h _) _ _
  | endCommand s rest ih => exact ih h _ _
  | attention s rest ih => exact ih h _ _
  | wake s rest ih => exact ih h _ _

/-- What is done after a service goes on where that has stopped. -/
theorem Connection.run_andThen {ω α β : Type} (x : Service ω α) (f : α → Service ω β) (c : Connection)
    (output : Array ω) :
    c.run (x.andThen f) output = (c.run x output).2.1.run (f (c.run x output).1) (c.run x output).2.2 := by
  induction x generalizing c output with
  | done value => rfl
  | output item rest ih => exact ih _ _
  | inspect next ih => exact ih c.view _ _
  | readByte next ih => exact ih _ _ _
  | writeByte b next ih => exact ih _ _ _
  | isComplete next ih => exact ih _ _ _
  | endCommand s rest ih => exact ih _ _
  | attention s rest ih => exact ih _ _
  | wake s rest ih => exact ih _ _

/-- Devices that ask for service after some time, never at once. -/
structure Peripheral.AsksLater (δ : Type) {ω : Type} [Peripheral δ ω] : Prop where
  startCommand : ∀ (d : δ) (now : Nat) (c : Byte) (delay : Nat),
    (Peripheral.startCommand d now c).answer = .accepted delay → 0 < delay
  service : ∀ (d : δ) (now : Nat),
    (Peripheral.service d now).Ends fun r => ∀ delay, r.2 = some delay → 0 < delay

end Concept32
