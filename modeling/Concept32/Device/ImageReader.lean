import Concept32.Device.Peripheral
import Concept32.Device.Record

/-!
# Image readers

A device that reads the contents of a file from the beginning to the end, as a tape does. It can be rewound
but not written to. A machine can be loaded from it.
-/

namespace Concept32

/-- A reader of a file. -/
structure ImageReader where
  file : String
  data : Array Byte
  /-- The place of the next byte. -/
  position : Nat
  deriving DecidableEq, Repr

namespace ImageReader

def ofFile (file : String) (data : Array Byte) : ImageReader := ⟨file, data, 0⟩

def remaining (r : ImageReader) : Nat := r.data.size - r.position

def rewind (r : ImageReader) : ImageReader := { r with position := 0 }

/-- The time that a record takes to read. -/
def recordTime : Nat := 50000

/-- Begin a command. A read at the end of the file ends with unit exception. -/
def startCommand (r : ImageReader) (c : Byte) : Reaction ImageReader Char CommandResponse :=
  let done : ChannelStatus := ChannelStatus.channelEnd.union .deviceEnd
  if c = 0x00#8 || c = 0x03#8 then .only r (.done done)
  else if c = 0x23#8 then .only r.rewind (.done done)
  else if c = 0x02#8 || c = ChannelCommand.readBackward then
    .only r (if r.remaining = 0 then .done (done.union .unitException) else .accepted recordTime)
  else .only r (.done (done.union .unitCheck))

/-- Read the next record, which is as long as the channel program has room for. A byte that finds no room is
not used up. -/
def service (r : ImageReader) : Service Char (ImageReader × Option Nat) := do
  let position ← Service.fill r.data r.remaining r.position
  .endCommand .deviceEnd (.done ({ r with position := position }, none))

instance : Peripheral ImageReader Char where
  name r := "image reader (" ++ r.file ++ ")"
  attached r := !r.data.isEmpty
  writeProtected _ := true
  reset r _ _ := .only r.rewind ()
  startCommand r _ c := r.startCommand c
  service r _ := r.service

end ImageReader
end Concept32
