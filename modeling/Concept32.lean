import Concept32.AddressMap
import Concept32.Channel.Channels
import Concept32.Channel.Connection
import Concept32.Channel.Instructions
import Concept32.Channel.Polling
import Concept32.Channel.Program
import Concept32.Channel.RealChannel
import Concept32.Channel.Status
import Concept32.Channel.Transfer
import Concept32.CommandLine.Options
import Concept32.CommandLine.Session
import Concept32.ConditionCodes
import Concept32.Configuration
import Concept32.Cpu.Access
import Concept32.Cpu.Basic
import Concept32.Cpu.Context
import Concept32.Cpu.Delivery
import Concept32.Cpu.Operand
import Concept32.Cpu.Timing
import Concept32.Device.Address
import Concept32.Device.Console
import Concept32.Device.ImageReader
import Concept32.Device.Peripheral
import Concept32.Device.Record
import Concept32.Device.Service
import Concept32.Device.Standard
import Concept32.FieldCode
import Concept32.Float.Binary64
import Concept32.Float.Hexadecimal
import Concept32.Float.Literal
import Concept32.Hardware.Basic
import Concept32.Hardware.Execute
import Concept32.Hardware.Interrupts
import Concept32.History
import Concept32.Instruction
import Concept32.Instructions.Arithmetic
import Concept32.Instructions.Branches
import Concept32.Instructions.Dispatch
import Concept32.Instructions.Floating
import Concept32.Instructions.Loads
import Concept32.Instructions.Logic
import Concept32.Instructions.Shifts
import Concept32.Instructions.Supervisor
import Concept32.InterruptLevels
import Concept32.Machine.Basic
import Concept32.Machine.Run
import Concept32.Machine.Tick
import Concept32.Main
import Concept32.MapEntry
import Concept32.Memory
import Concept32.Model
import Concept32.Opcode
import Concept32.Proofs.AddressMap
import Concept32.Proofs.Addressing
import Concept32.Proofs.Binary64
import Concept32.Proofs.Bytes
import Concept32.Proofs.Channels.Advancing
import Concept32.Proofs.Channels.Appointments
import Concept32.Proofs.Channels.Bootstrapping
import Concept32.Proofs.Channels.Buffering
import Concept32.Proofs.Channels.Chaining
import Concept32.Proofs.Channels.CommandList
import Concept32.Proofs.Channels.Delivering
import Concept32.Proofs.Channels.Direct
import Concept32.Proofs.Channels.Ending
import Concept32.Proofs.Channels.Exhausting
import Concept32.Proofs.Channels.Extent
import Concept32.Proofs.Channels.Fetching
import Concept32.Proofs.Channels.Freeing
import Concept32.Proofs.Channels.Instructions
import Concept32.Proofs.Channels.Interrupting
import Concept32.Proofs.Channels.Issuing
import Concept32.Proofs.Channels.Loading
import Concept32.Proofs.Channels.Moving
import Concept32.Proofs.Channels.Neighbours
import Concept32.Proofs.Channels.Operations
import Concept32.Proofs.Channels.Polling
import Concept32.Proofs.Channels.Popping
import Concept32.Proofs.Channels.Presenting
import Concept32.Proofs.Channels.Ranges
import Concept32.Proofs.Channels.Recording
import Concept32.Proofs.Channels.Records
import Concept32.Proofs.Channels.Remainder
import Concept32.Proofs.Channels.Resetting
import Concept32.Proofs.Channels.Rounds
import Concept32.Proofs.Channels.Scanning
import Concept32.Proofs.Channels.Scattering
import Concept32.Proofs.Channels.Servicing
import Concept32.Proofs.Channels.Sharing
import Concept32.Proofs.Channels.Skipping
import Concept32.Proofs.Channels.SoundPrograms
import Concept32.Proofs.Channels.Staging
import Concept32.Proofs.Channels.Starting
import Concept32.Proofs.Channels.Status
import Concept32.Proofs.Channels.Stopping
import Concept32.Proofs.Channels.Tracking
import Concept32.Proofs.Channels.Unstaged
import Concept32.Proofs.Delivery
import Concept32.Proofs.Devices
import Concept32.Proofs.Exchange
import Concept32.Proofs.Exec
import Concept32.Proofs.Fields
import Concept32.Proofs.Hardware.Arbitration
import Concept32.Proofs.Hardware.Confinement
import Concept32.Proofs.Hardware.Division
import Concept32.Proofs.Hardware.Events
import Concept32.Proofs.Hardware.Execute
import Concept32.Proofs.Hardware.Halting
import Concept32.Proofs.Hardware.Indirection
import Concept32.Proofs.Hardware.Interrupts
import Concept32.Proofs.Hardware.LevelEntries
import Concept32.Proofs.Hardware.Linkage
import Concept32.Proofs.Hardware.Modes
import Concept32.Proofs.Hardware.MultiwordStores
import Concept32.Proofs.Hardware.Normalisation
import Concept32.Proofs.Hardware.OddPairs
import Concept32.Proofs.Hardware.Operands
import Concept32.Proofs.Hardware.Overflow
import Concept32.Proofs.Hardware.Parts
import Concept32.Proofs.Hardware.ProgramCounter
import Concept32.Proofs.Hardware.Raising
import Concept32.Proofs.Hardware.Returning
import Concept32.Proofs.Hardware.Shifts
import Concept32.Proofs.Hardware.StoredFields
import Concept32.Proofs.Hardware.SupervisorCalls
import Concept32.Proofs.Hardware.TrailingNop
import Concept32.Proofs.Hardware.TrapDelivery
import Concept32.Proofs.Hardware.Traps
import Concept32.Proofs.Hexadecimal
import Concept32.Proofs.Instructions.Arithmetic
import Concept32.Proofs.Instructions.Changes
import Concept32.Proofs.Instructions.Control
import Concept32.Proofs.Instructions.Dispatch
import Concept32.Proofs.Instructions.Indirection
import Concept32.Proofs.Instructions.Kinds
import Concept32.Proofs.Instructions.Loads
import Concept32.Proofs.Instructions.MemoryOperands
import Concept32.Proofs.Instructions.Places
import Concept32.Proofs.Instructions.Raising
import Concept32.Proofs.Instructions.Registers
import Concept32.Proofs.Instructions.Rights
import Concept32.Proofs.Levels
import Concept32.Proofs.LoadedMap
import Concept32.Proofs.Machine.Pace
import Concept32.Proofs.Machine.ProgramLoad
import Concept32.Proofs.Machine.Punctuality
import Concept32.Proofs.Machine.StandStill
import Concept32.Proofs.Machine.Ticks
import Concept32.Proofs.Machine.Traces
import Concept32.Proofs.Memory
import Concept32.Proofs.Normalising
import Concept32.Proofs.Recurrence
import Concept32.Proofs.RoundTrip
import Concept32.Proofs.Schedule
import Concept32.Proofs.Shifting
import Concept32.Proofs.Signed
import Concept32.Proofs.Simulation
import Concept32.Proofs.Steps
import Concept32.Proofs.Table
import Concept32.Proofs.Translation
import Concept32.Proofs.Words
import Concept32.Psd
import Concept32.Schedule
import Concept32.Scratchpad
import Concept32.Table
import Concept32.Text.Blank
import Concept32.Text.Duration
import Concept32.Text.Hex
import Concept32.Text.Numeral
import Concept32.TranslationUnit
import Concept32.Trap
import Concept32.Word
