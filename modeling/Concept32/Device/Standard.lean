import Concept32.Device.Console
import Concept32.Device.ImageReader

/-!
# The devices of a machine

The devices that a machine run from the command line can have. They put out the characters that the console
prints.
-/

namespace Concept32

inductive StandardDevice
  | console (device : Console)
  | imageReader (device : ImageReader)
  deriving DecidableEq, Repr

namespace StandardDevice

/-- A reaction of one kind of device, as one of a device of either kind. -/
def lift {δ α : Type} (wrap : δ → StandardDevice) (r : Reaction δ Char α) :
    Reaction StandardDevice Char α :=
  ⟨r.answer, wrap r.device, r.output⟩

instance : Peripheral StandardDevice Char where
  name
    | .console d => Peripheral.name d
    | .imageReader d => Peripheral.name d
  attached
    | .console d => Peripheral.attached d
    | .imageReader d => Peripheral.attached d
  writeProtected
    | .console d => Peripheral.writeProtected d
    | .imageReader d => Peripheral.writeProtected d
  reset
    | .console d, now, attaching => lift .console (Peripheral.reset d now attaching)
    | .imageReader d, now, attaching => lift .imageReader (Peripheral.reset d now attaching)
  startCommand
    | .console d, now, c => lift .console (Peripheral.startCommand d now c)
    | .imageReader d, now, c => lift .imageReader (Peripheral.startCommand d now c)
  service
    | .console d, now => do let (d, again) ← Peripheral.service d now; return (.console d, again)
    | .imageReader d, now => do let (d, again) ← Peripheral.service d now; return (.imageReader d, again)

end StandardDevice
end Concept32
