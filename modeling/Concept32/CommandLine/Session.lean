import Concept32.CommandLine.Options
import Concept32.Device.Standard
import Concept32.Float.Literal
import Concept32.Machine.Run

/-!
# Runs from the command line

A machine is built as the options say, given a console and, if it is loaded from a file, a reader of that
file, and run until it halts, stops or has executed as many instructions as it may. At the end its state is
printed.
-/

namespace Concept32

inductive FileError
  | notFound
  | permissionDenied
  | notDirectory
  | isDirectory
  deriving DecidableEq, Repr

def FileError.message : FileError → String
  | .notFound => "No such file or directory (os error 2)"
  | .permissionDenied => "Permission denied (os error 13)"
  | .notDirectory => "Not a directory (os error 20)"
  | .isDirectory => "Is a directory (os error 21)"

inductive RunError
  | speedNotPositive (speed : String)
  | speedMalformed (speed : String) (error : Binary64.LiteralError)
  | nothingToRun
  | configuration (error : ConfigurationError)
  | unreadable (file : String) (error : FileError)
  | load (error : MemoryError)
  | stopped (stop : MachineStop)
  deriving DecidableEq, Repr

def RunError.message : RunError → String
  | .speedNotPositive s =>
    "invalid argument: speed multiplier " ++ s ++ " should be a positive number"
  | .speedMalformed s e => "invalid argument: speed multiplier " ++ s ++ ": " ++ e.message
  | .nothingToRun => "invalid argument: nothing to run: specify --image or --boot"
  | .configuration e => "unusable configuration: " ++ e.message
  | .unreadable file e => file ++ ": " ++ e.message
  | .load e => "failed to load memory image: " ++ e.message
  | .stopped stop => "machine stopped: " ++ stop.message

/-! ### Preparing a run -/

/-- How simulated time keeps up with the wall clock. -/
inductive Pace
  | unlimited
  /-- The machine runs as many times faster than the wall clock. -/
  | multiple (factor : Binary64)
  deriving DecidableEq, Repr

/-- The pace that is asked for: real time if none is. -/
def Pace.ofOption : Option String → Except RunError Pace
  | none => .ok (.multiple (.ofInt 1))
  | some s =>
    if s = "MAX" then .ok .unlimited
    else match Binary64.ofLiteral s with
      | .ok x => if x.isPositiveFinite then .ok (.multiple x) else .error (.speedNotPositive s)
      | .error e => .error (.speedMalformed s e)

/-- A file that a machine is run from. -/
inductive Medium
  | image (file : String)
  | boot (file : String)
  deriving DecidableEq, Repr

def Medium.file : Medium → String
  | .image file | .boot file => file

/-- A run that has been found possible. -/
structure Session where
  options : Options
  pace : Pace
  medium : Medium
  deriving DecidableEq, Repr

namespace Session

def configuration (o : Options) : Configuration := ⟨o.model, o.memory, o.history⟩

def ofOptions (o : Options) : Except RunError Session := do
  let pace ← Pace.ofOption o.speedMultiplier
  if let .error e := (configuration o).validate then throw (.configuration e)
  match o.image, o.boot with
  | some file, _ => return ⟨o, pace, .image file⟩
  | none, some file => return ⟨o, pace, .boot file⟩
  | none, none => throw .nothingToRun

/-- The machine of a run, set to work on the contents of its file. -/
def begin (s : Session) (contents : List Byte) : Except RunError (Run StandardDevice Char) := do
  let o := s.options
  let machine ← (Machine.build 0 (configuration o)).mapError RunError.configuration
  let machine := machine.attach 0 o.console (.console ⟨⟩)
  match s.medium with
  | .image _ =>
    match machine.loadImage o.loadAddress contents with
    | (.error e, _) => throw (.load e)
    | (.ok _, machine) => return .begin (machine.start 0 (o.start.getD o.loadAddress)) 0
  | .boot file =>
    let reader := ImageReader.ofFile file contents.toArray
    let machine := machine.attach 0 o.bootDevice (.imageReader reader)
    match machine.boot 0 o.bootDevice with
    | (.error e, _) => throw (.stopped (.loadFailed e))
    | (.ok _, machine) => return .begin machine 0

/-- The run has come to its end. -/
def isOver (s : Session) (m : Machine StandardDevice Char) : Bool :=
  m.isStopped || s.options.instructionLimit.any (· ≤ m.executed)

/-- What is printed of a machine at the end: the history if it is wanted, the status doubleword, the
registers and the number of instructions. -/
def stateText (s : Session) (m : Machine StandardDevice Char) : String :=
  let history := if s.options.showHistory then m.cpu.history.entries.map HistoryEntry.text else []
  let registers := (List.finRange 8).map fun n =>
    "R" ++ toString n.val ++ "=" ++ hexBits (m.cpu.gpr.get n) ++ " "
  let lines := history ++
    ["PSD " ++ m.cpu.psd.text, String.join registers, toString m.executed ++ " instructions executed"]
  String.join (lines.map (· ++ "\n"))

end Session

/-! ### The whole program -/

/-- What the program leaves: its exit code, and what it prints as output and as errors. -/
structure Outcome where
  exit : Nat
  output : String
  errors : String
  deriving DecidableEq, Repr

def Outcome.failure (output : String) (e : RunError) : Outcome := ⟨1, output, e.message ++ "\n"⟩

/-- The outcome of a run that has come to its end. -/
def Session.outcome (s : Session) (r : Run StandardDevice Char) : Outcome :=
  let output := String.ofList r.machine.channels.output.toList ++ s.stateText r.machine
  match r.stop with
  | some stop => .failure output (.stopped stop)
  | none => ⟨0, output, ""⟩

/-- The program, given how it reads a file and how it runs a machine to the end. -/
def command {m : Type → Type} [Monad m] (read : String → m (Except FileError (List Byte)))
    (runToEnd : Session → Run StandardDevice Char → m (Run StandardDevice Char))
    (arguments : List String) : m Outcome := do
  match Options.ofArguments arguments with
  | .error e => return ⟨2, "", e.message ++ "\n"⟩
  | .ok .help => return ⟨0, Options.helpText, ""⟩
  | .ok (.run options) =>
    match Session.ofOptions options with
    | .error e => return .failure "" e
    | .ok session =>
      match ← read session.medium.file with
      | .error e => return .failure "" (.unreadable session.medium.file e)
      | .ok contents =>
        match session.begin contents with
        | .error e => return .failure "" e
        | .ok run => return session.outcome (← runToEnd session run)

/-- The program, given the files that it can read, for at most `limit` ticks. -/
def commandWithin (limit : Nat) (files : String → Except FileError (List Byte))
    (arguments : List String) : Outcome :=
  Id.run (command (fun file => pure (files file))
    (fun session run => pure (run.advanceUntil session.isOver limit)) arguments)

end Concept32
