import Concept32.CommandLine.Session

/-!
# The program

Reads the file that the machine runs from, keeps simulated time in step with the wall clock, and prints.
-/

namespace Concept32

def readFile (file : String) : IO (Except FileError (List Byte)) := do
  try
    let data ← IO.FS.readBinFile file
    return .ok (data.toList.map fun b => b.toBitVec)
  catch
    | .permissionDenied .. => return .error .permissionDenied
    | .inappropriateType .. => return .error .isDirectory
    | .resourceVanished .. | .noFileOrDirectory .. => return .error .notFound
    | _ => return .error .notFound

/-- The wall clock time, counted from the start, at which a simulated time is due. -/
def Pace.wallTime? : Pace → Nat → Option Nat
  | .unlimited, _ => none
  | .multiple factor, now => ((Binary64.ofInt now).div factor).truncate?.map Int.toNat

/-- A run that is ahead of the wall clock by less than this is not held up, in nanoseconds. -/
def leastSleep : Nat := 2000000

/-- Wait for the wall clock to come up to a simulated time. -/
def keepPace (pace : Pace) (origin now : Nat) : IO Unit := do
  match pace.wallTime? now with
  | none => return
  | some due =>
    let ahead := due - ((← IO.monoNanosNow) - origin)
    if leastSleep ≤ ahead then IO.sleep (ahead / 1000000).toUInt32

/-- The ticks between two looks at the wall clock. -/
def ticksAtOnce : Nat := 1024

/-- Run a machine to the end, printing what its console prints. -/
partial def runToEnd (session : Session) (origin : Nat) (run : Run StandardDevice Char) :
    IO (Run StandardDevice Char) := do
  if run.stop.isSome || session.isOver run.machine then return run
  let pausing (m : Machine StandardDevice Char) : Bool := session.isOver m || !m.channels.output.isEmpty
  let run := run.advanceUntil pausing ticksAtOnce
  keepPace session.pace origin run.now
  let (text, machine) := run.machine.takeOutput
  if !text.isEmpty then
    IO.print (String.ofList text.toList)
    (← IO.getStdout).flush
  runToEnd session origin { run with machine := machine }

/-- Run a machine to the end, from now on. -/
def runNow (session : Session) (run : Run StandardDevice Char) : IO (Run StandardDevice Char) := do
  runToEnd session (← IO.monoNanosNow) run

end Concept32

def main (arguments : List String) : IO UInt32 := do
  let outcome ← Concept32.command Concept32.readFile Concept32.runNow arguments
  IO.print outcome.output
  IO.eprint outcome.errors
  return outcome.exit.toUInt32
