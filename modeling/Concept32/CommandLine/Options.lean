import Concept32.Configuration
import Concept32.Device.Address
import Concept32.Text.Numeral

/-!
# Command line options

The options with which the program is started. An option is a name after two dashes; its value follows as
the next argument or after an equals sign. Every option may be given once, and nothing else may stand on
the command line.
-/

namespace Concept32

/-- The options of a run. -/
structure Options where
  model : Model
  memory : MemorySize
  /-- How many executed instructions are remembered. -/
  history : Nat
  /-- Print the remembered instructions at the end. -/
  showHistory : Bool
  /-- A file to copy into memory. -/
  image : Option String
  /-- Where the image goes. -/
  loadAddress : Word
  /-- Where execution starts, if not at the image. -/
  start : Option Word
  /-- A file to load the machine from. -/
  boot : Option String
  bootDevice : DeviceAddress
  console : DeviceAddress
  /-- Stop after so many instructions. -/
  instructionLimit : Option Nat
  /-- How much faster than the wall clock the machine runs, as it was given. -/
  speedMultiplier : Option String
  deriving DecidableEq, Repr

inductive UsageError
  | unexpected (argument : String)
  | missingValue (option : String)
  | unneededValue (option : String)
  | invalidValue (option value : String)
  | repeated (option : String)
  | conflict (option other : String)
  deriving DecidableEq, Repr

def UsageError.message : UsageError → String
  | .unexpected a => "error: unexpected argument '" ++ a ++ "' found"
  | .missingValue o => "error: a value is required for '" ++ o ++ "' but none was supplied"
  | .unneededValue o => "error: unexpected value for '" ++ o ++ "' found; no more were expected"
  | .invalidValue o v => "error: invalid value '" ++ v ++ "' for '" ++ o ++ "'"
  | .repeated o => "error: the argument '" ++ o ++ "' cannot be used multiple times"
  | .conflict o p => "error: the argument '" ++ o ++ "' cannot be used with '" ++ p ++ "'"

inductive Invocation
  | help
  | run (options : Options)
  deriving DecidableEq, Repr

namespace Options

def standard : Options where
  model := Configuration.standard.model
  memory := Configuration.standard.memory
  history := Configuration.standard.history
  showHistory := false
  image := none
  loadAddress := 0
  start := none
  boot := none
  bootDevice := .ofBits 0x1000#16
  console := .ofBits 0x7E00#16
  instructionLimit := none
  speedMultiplier := none

/-! ### Single options -/

/-- How a value changes the options; a value that an option cannot have changes nothing. -/
abbrev Setter := String → Options → Option Options

/-- Set a file. Its name may not be empty. -/
def setFile (f : String → Options → Options) : Setter := fun v o =>
  if v.isEmpty then none else some (f v o)

/-- The options that take a value, with what each does. -/
def setters : List (String × Setter) :=
  [("--model", fun v o => (Model.ofName? v).map fun m => { o with model := m }),
    ("--memory", fun v o => (MemorySize.ofName? v).map fun m => { o with memory := m }),
    ("--history", fun v o => (ofNumeral? 10 64 v).map fun n => { o with history := n }),
    ("--image", setFile fun v o => { o with image := some v }),
    ("--load-address", fun v o => (ofHexNumeral? 32 v).map fun a => { o with loadAddress := a }),
    ("--start", fun v o => (ofHexNumeral? 32 v).map fun a => { o with start := some a }),
    ("--boot", setFile fun v o => { o with boot := some v }),
    ("--boot-device",
      fun v o => (ofHexNumeral? 16 v).map fun a => { o with bootDevice := .ofBits a }),
    ("--console", fun v o => (ofHexNumeral? 16 v).map fun a => { o with console := .ofBits a }),
    ("--instruction-limit",
      fun v o => (ofNumeral? 10 64 v).map fun n => { o with instructionLimit := some n }),
    ("--speed-multiplier", fun v o => some { o with speedMultiplier := some v })]

/-- The options that take no value, with what each does. -/
def switches : List (String × (Options → Options)) :=
  [("--show-history", fun o => { o with showHistory := true })]

/-! ### Whole command lines -/

/-- A long option and the value after its equals sign, if it has one. -/
def splitValue (argument : String) : String × Option String :=
  match argument.toList.span (· != '=') with
  | (name, _ :: value) => (String.ofList name, some (String.ofList value))
  | (name, []) => (String.ofList name, none)

/-- The argument is a dash and more, so it is no value. -/
def isFlag (argument : String) : Bool := argument.startsWith "-" && argument ≠ "-"

/-- Set an option that takes a value. -/
def set (name : String) (setter : Setter) (value : String) (o : Options) : Except UsageError Options :=
  match setter value o with
  | some o => .ok o
  | none => .error (.invalidValue name value)

/-- What is wrong with an image and a program load together. -/
def finish (o : Options) : Except UsageError Invocation :=
  if o.image.isSome && o.boot.isSome then .error (.conflict "--image" "--boot") else .ok (.run o)

/-- The options of a list of arguments, after those that were given already. -/
def parse (given : List String) (o : Options) : List String → Except UsageError Invocation
  | [] => o.finish
  | argument :: rest =>
    if argument = "--" then
      match rest with
      | [] => o.finish
      | other :: _ => .error (.unexpected other)
    else if argument = "--help" || argument.startsWith "-h" then .ok .help
    else
      let (name, attached) := splitValue argument
      if given.contains name then .error (.repeated name)
      else match setters.lookup name, switches.lookup name, attached with
        | some setter, _, some value => do parse (name :: given) (← set name setter value o) rest
        | some setter, _, none =>
          match rest with
          | [] => .error (.missingValue name)
          | value :: rest =>
            if isFlag value then .error (.missingValue name)
            else do parse (name :: given) (← set name setter value o) rest
        | none, some _, some _ => .error (.unneededValue name)
        | none, some switch, none => parse (name :: given) (switch o) rest
        | none, none, _ => .error (.unexpected argument)

def ofArguments (arguments : List String) : Except UsageError Invocation := parse [] standard arguments

def helpText : String :=
  "\n".intercalate
    ["Emulate a SEL-32 / Concept-32 computer",
      "",
      "Usage: sel32 [OPTIONS]",
      "",
      "Options:",
      "      --model <MODEL>",
      "          CPU model (32/27, 32/55, 32/67, 32/87, 32/97, V6 or V9) [default: 32/27]",
      "      --memory <MEMORY>",
      "          Main memory size (for example 128K or 2M) [default: 2M]",
      "      --history <HISTORY>",
      "          Number of executed instructions to remember [default: 0]",
      "      --show-history",
      "          Print the remembered instructions when the machine stops",
      "      --image <IMAGE>",
      "          Memory image to load before starting",
      "      --load-address <LOAD_ADDRESS>",
      "          Physical address (hex) at which to load the memory image [default: 0]",
      "      --start <START>",
      "          Address (hex) at which to start; defaults to the load address",
      "      --boot <BOOT>",
      "          File to boot from: the bootstrap reads it on the boot device",
      "      --boot-device <BOOT_DEVICE>",
      "          Channel and subaddress (hex) of the boot device [default: 1000]",
      "      --console <CONSOLE>",
      "          Channel and subaddress (hex) of the console [default: 7E00]",
      "      --instruction-limit <INSTRUCTION_LIMIT>",
      "          Stop after executing this many instructions",
      "      --speed-multiplier <SPEED_MULTIPLIER>",
      "          Run this many times faster than real-time ('MAX' for as-fast-as-possible)",
      "  -h, --help",
      "          Print help",
      ""]

end Options
end Concept32
