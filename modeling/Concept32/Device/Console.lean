import Concept32.Device.Peripheral
import Concept32.Device.Record

/-!
# The operator's console

A console that only prints. Commands that write print their data, the parity bit stripped; there is no
keyboard, so a command that reads ends with unit exception.
-/

namespace Concept32

/-- A console; it has no state. -/
structure Console where
  deriving DecidableEq, Repr

namespace Console

/-- What is printed for a byte. Carriage returns and zeros are dropped, line feeds are kept, and any other
character that cannot be printed becomes a full stop. -/
def printed (b : Byte) : Option Char :=
  let c := Char.ofNat (b &&& 0x7F#8).toNat
  if c.toNat = 0 || c = '\r' then none
  else if c = '\n' || (0x20 ≤ c.toNat && c.toNat < 0x7F) then some c
  else some '.'

/-- The time that a line takes to print. -/
def lineTime : Nat := 1000000

def startCommand (c : Byte) : CommandResponse :=
  let done : ChannelStatus := ChannelStatus.channelEnd.union .deviceEnd
  if c = 0x00#8 || c = 0x03#8 || c = 0x04#8 then .done done
  else if c = 0x02#8 then .done (done.union .unitException)
  else if ChannelCommand.isWrite c then .accepted lineTime
  else .done (done.union .unitCheck)

/-- No list of doublewords has as many bytes as this: the list goes on in a way that its place alone
determines, so at most all its places, fewer than `2 ^ 24`, each give fewer than `2 ^ 16` bytes before it
repeats. -/
def byteLimit : Nat := 0x20000000000

def print (text : List Char) : Service Char Unit :=
  text.foldr (fun c rest => .output c rest) (.done ())

/-- Print the data of the current command and end it. -/
def service (c : Console) : Service Char (Console × Option Nat) := do
  let (bytes, _) ← Service.readBytes byteLimit #[]
  print (bytes.toList.filterMap printed)
  .endCommand .deviceEnd (.done (c, none))

instance : Peripheral Console Char where
  name _ := "console"
  reset c _ _ := .only c ()
  startCommand c _ command := .only c (startCommand command)
  service c _ := c.service

end Console
end Concept32
