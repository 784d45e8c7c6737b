import Concept32.Instruction

/-!
# Opcodes

The 64 opcodes of each addressing mode, the shape of the instructions that they begin, and the names
of the instructions. An opcode may stand for a group of instructions, whose member is chosen by the
augment code, by the F bit or by other bits.
-/

namespace Concept32

/-- How the operand of an instruction is found. -/
inductive Format
  /-- A halfword whose operands are registers. -/
  | halfword
  /-- A word with a 16-bit immediate operand. -/
  | immediate
  /-- A word that refers to memory. -/
  | memory
  /-- A word that refers to memory and whose index field does not name an index register. -/
  | memoryNoIndex
  deriving DecidableEq, Repr

def Format.name : Format → String
  | .halfword => "Halfword"
  | .immediate => "Immediate"
  | .memory => "Memory"
  | .memoryNoIndex => "MemoryNoIndex"

/-- The instruction or group of instructions that an opcode means. -/
inductive Opcode
  | gen | anr | orr | eor | car | cmr | sbr | zbr | abr | tbr | reg | trr | calm | la | adr | sur
  | mpr | dvr | nor | nord | scz | sra | srl | src | srad | srld
  | lear | anm | orm | eom | cam | cmm | sbm | zbm | abm | tbm | exm | l | lm | ln | adm | sum
  | mpm | dvm | imm | lf | lea | st | stm | stf | adf | mpf | arm | bct | bcf | bi | misc | io
  | xbr | srbr | srdbr | srcbr | stwbr | suabr | lwbr
  deriving DecidableEq, Repr

namespace Opcode

/-- The name of an opcode in the decode tables; groups have a name of their own. -/
def name : Opcode → String
  | .gen => "GEN" | .anr => "ANR" | .orr => "ORR" | .eor => "EOR" | .car => "CAR" | .cmr => "CMR"
  | .sbr => "SBR" | .zbr => "ZBR" | .abr => "ABR" | .tbr => "TBR" | .reg => "REG" | .trr => "TRR"
  | .calm => "CALM" | .la => "LA" | .adr => "ADR" | .sur => "SUR" | .mpr => "MPR" | .dvr => "DVR"
  | .nor => "NOR" | .nord => "NORD" | .scz => "SCZ" | .sra => "SRA" | .srl => "SRL" | .src => "SRC"
  | .srad => "SRAD" | .srld => "SRLD" | .lear => "LEAR" | .anm => "ANM" | .orm => "ORM"
  | .eom => "EOM" | .cam => "CAM" | .cmm => "CMM" | .sbm => "SBM" | .zbm => "ZBM" | .abm => "ABM"
  | .tbm => "TBM" | .exm => "EXM" | .l => "L" | .lm => "LM" | .ln => "LN" | .adm => "ADM"
  | .sum => "SUM" | .mpm => "MPM" | .dvm => "DVM" | .imm => "IMM" | .lf => "LF" | .lea => "LEA"
  | .st => "ST" | .stm => "STM" | .stf => "STF" | .adf => "ADF" | .mpf => "MPF" | .arm => "ARM"
  | .bct => "BCT" | .bcf => "BCF" | .bi => "BI" | .misc => "MISC" | .io => "IO"
  | .xbr => "XBR" | .srbr => "SRBR" | .srdbr => "SRDBR" | .srcbr => "SRCBR" | .stwbr => "STWBR"
  | .suabr => "SUABR" | .lwbr => "LWBR"

/-- The shape of the instructions that begin with an opcode. -/
def format : Opcode → Format
  | .gen | .anr | .orr | .eor | .car | .cmr | .sbr | .zbr | .abr | .tbr | .reg | .trr | .calm
  | .adr | .sur | .mpr | .dvr | .nor | .nord | .scz | .sra | .srl | .src | .srad | .srld
  | .xbr | .srbr | .srdbr | .srcbr => .halfword
  | .imm | .io => .immediate
  | .bi => .memoryNoIndex
  | .la | .lear | .anm | .orm | .eom | .cam | .cmm | .sbm | .zbm | .abm | .tbm | .exm | .l | .lm
  | .ln | .adm | .sum | .mpm | .dvm | .lf | .lea | .st | .stm | .stf | .adf | .mpf | .arm | .bct
  | .bcf | .misc | .stwbr | .suabr | .lwbr => .memory

/-- The opcodes without base registers. -/
def nonBasedTable : Vector (Option Opcode) 64 := #v[
  some .gen, some .anr, some .orr, some .eor, some .car, some .cmr, some .sbr, some .zbr,
  some .abr, some .tbr, some .reg, some .trr, some .calm, some .la, some .adr, some .sur,
  some .mpr, some .dvr, none, none, none, none, none, none,
  some .nor, some .nord, some .scz, some .sra, some .srl, some .src, some .srad, some .srld,
  some .lear, some .anm, some .orm, some .eom, some .cam, some .cmm, some .sbm, some .zbm,
  some .abm, some .tbm, some .exm, some .l, some .lm, some .ln, some .adm, some .sum,
  some .mpm, some .dvm, some .imm, some .lf, some .lea, some .st, some .stm, some .stf,
  some .adf, some .mpf, some .arm, some .bct, some .bcf, some .bi, some .misc, some .io]

/-- The opcodes with base registers. -/
def basedTable : Vector (Option Opcode) 64 := #v[
  some .gen, some .anr, some .orr, some .eor, some .car, none, some .xbr, some .srbr,
  some .srdbr, some .srcbr, some .reg, some .trr, none, none, some .adr, some .sur,
  none, none, none, none, some .la, some .stwbr, some .suabr, some .lwbr,
  none, none, none, none, none, none, none, none,
  some .lear, some .anm, some .orm, some .eom, some .cam, some .cmm, some .sbm, some .zbm,
  some .abm, some .tbm, some .exm, some .l, some .lm, some .ln, some .adm, some .sum,
  some .mpm, some .dvm, some .imm, some .lf, some .lea, some .st, some .stm, some .stf,
  some .adf, some .mpf, some .arm, some .bct, some .bcf, some .bi, some .misc, some .io]

end Opcode

namespace Instruction

/-- What the opcode means with or without base registers, if anything. -/
def opcode? (i : Instruction) (based : Bool) : Option Opcode :=
  if based then Opcode.basedTable.get i.opcodeIndex else Opcode.nonBasedTable.get i.opcodeIndex

/-- The instruction is a halfword; so is one whose opcode means nothing. -/
def isHalfword (i : Instruction) (based : Bool) : Bool :=
  match i.opcode? based with
  | some opcode => opcode.format == .halfword
  | none => true

/-- The instruction is an execute instruction, EXM or EXR: it carries out another instruction. -/
def isExecute (i : Instruction) : Bool :=
  i.opcodeByte == 0xA8#8 || (i.opcodeByte == 0xC8#8 && i.augment == 7)

/-! ### Names -/

/-- The member that `index` selects of a group written as a list of names; a blank is no member. -/
private def member (group : List String) (index : Nat) : Option String :=
  (group[index]?).filter (· ≠ "")

private def generalGroup : List String :=
  ["HALT", "WAIT", "NOP", "LCS", "ES", "RND", "BEI", "UEI", "EAE", "RDSTS", "SIPU", "", "", "SEA",
    "DAE", "CEA"]

private def andGroup : List String :=
  ["ANR", "", "", "", "", "", "", "SMC", "ANRM", "", "CMC", "RPSWT"]

private def registerGroup : List String :=
  ["TRSW", "TRBR", "XCBR", "TCCR", "TRCC", "BSUB", "", "", "CALL", "", "", "", "TPCBR", "", "RETURN"]

private def transferGroup : List String :=
  ["TRR", "TRDR", "TBRR", "TRC", "TRN", "XCR", "", "LMAP", "TRRM", "SETCPU", "TMAPR", "TRCM", "TRNM",
    "XCRM", "TRSC", "TSCR"]

private def addGroup : List String :=
  ["ADR", "ADRFW", "MPRBR", "SURFW", "DVRFW", "FIXW", "MPRFW", "FLTW", "ADRM", "ADRFD", "DVRBR",
    "SURFD", "DVRFD", "FIXD", "MPRFD", "FLTD"]

private def immediateGroup : List String :=
  ["LI", "ADI", "SUI", "MPI", "DVI", "CI", "SVC", "EXR", "SEM", "LEM", "CEMA"]

private def miscellaneousGroup : List String :=
  ["ZM", "BL", "BRI", "LPSD", "", "LPSDCM", "TRP", "TPR"]

private def interruptGroup : List String := ["EI", "DI", "RI", "AI", "DAI", "TD", "CD"]

private def channelGroup : List String :=
  ["", "", "SIO", "TIO", "STPIO", "RSCHNL", "HIO", "GRIO", "RSCTL", "ECI", "DCI", "ACI", "DACI"]

/-- The name of the instruction in assembly language, if it has one. -/
def mnemonic (i : Instruction) (based : Bool) : Option String :=
  let masked (plain withMask : String) : Option String :=
    some (if 8 ≤ i.augment then withMask else plain)
  let shift (right left : String) : Option String := some (if i.shiftsLeft then left else right)
  (i.opcode? based).bind fun opcode =>
    match opcode with
    | .gen => member generalGroup i.augment
    | .anr => member andGroup i.augment
    | .orr => masked "ORR" "ORRM"
    | .eor => masked "EOR" "EORM"
    | .car => if based then member ["CAR", "", "", "", "", "", "", "", "SACZ"] i.augment else some "CAR"
    | .xbr => member ["SBR", "ZBR", "ABR", "TBR"] (i.selector 18)
    | .srbr => member ["SRABR", "SRLBR", "SLABR", "SLLBR"] (i.selector 21)
    | .srdbr => member ["SRADBR", "SRLDBR", "SLADBR", "SLLDBR"] (i.selector 21)
    | .srcbr => shift "SRCBR" "SLCBR"
    | .reg => member registerGroup i.augment
    | .trr => member transferGroup i.augment
    | .adr => member addGroup i.augment
    | .sur => masked "SUR" "SURM"
    | .suabr => some (if i.fBit then "LABR" else "SUABR")
    | .lwbr => if i.fBit then member ["BSUBM", "CALLM"] i.register.val else some "LWBR"
    | .sra => shift "SRA" "SLA"
    | .srl => shift "SRL" "SLL"
    | .src => shift "SRC" "SLC"
    | .srad => shift "SRAD" "SLAD"
    | .srld => shift "SRLD" "SLLD"
    | .imm => member immediateGroup i.augment
    | .adf => some (if i.fBit then "ADF" else "SUF")
    | .mpf => some (if i.fBit then "MPF" else "DVF")
    | .bi => member ["BIB", "BIW", "BIH", "BID"] i.indexRegister.val
    | .misc => member miscellaneousGroup i.register.val
    | .io =>
      if i.augment % 8 = 7 then member channelGroup (i.bits.extractLsb' 19 4).toNat
      else member interruptGroup (i.augment % 8)
    | other => some other.name

end Instruction
end Concept32
