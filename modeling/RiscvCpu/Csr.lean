import RiscvCpu.Writeback

/-!
# The CSR unit

`csr_pkg.sv` and `csr.sv`.  The unit looks at the record in write-back.  It
takes traps, executes CSR accesses and `mret`, and redirects the pc.  A
redirect flushes the pipeline (`csr_flush` in `core`).

`mstatus` is kept as a word, with its fields named by bit position.
-/

namespace RiscvCpu

/-! ## Registers -/

def csrMie : BitVec 12 := 0x304#12
def csrMip : BitVec 12 := 0x344#12
def csrMtvec : BitVec 12 := 0x305#12
def csrMstatus : BitVec 12 := 0x300#12
def csrMscratch : BitVec 12 := 0x340#12
def csrMepc : BitVec 12 := 0x341#12
def csrMcause : BitVec 12 := 0x342#12
def csrMcycle : BitVec 12 := 0xb00#12
def csrMtval : BitVec 12 := 0x343#12

/-- `MACHINE_MODE`. -/
def machineMode : BitVec 2 := 0b11#2

/-- `SUPERVISOR_MODE`. -/
def supervisorMode : BitVec 2 := 0b01#2

/-- `USER_MODE`. -/
def userMode : BitVec 2 := 0b00#2

/-- `csr_regs_t`. -/
structure CsrRegs where
  mhartid : BitVec 64
  mie : BitVec 64
  mip : BitVec 64
  mtvec : BitVec 64
  mstatus : BitVec 64
  mscratch : BitVec 64
  mepc : BitVec 64
  satp : BitVec 64
  mcause : BitVec 64
  mcycle : BitVec 64
  mtval : BitVec 64
deriving DecidableEq, Repr

/-- The contents after reset: `mcause[1]` and `mepc[31]` are set. -/
def CsrRegs.initial : CsrRegs := ⟨0, 0, 0, 0, 0, 0, 0x80000000#64, 0, 0x2#64, 0, 0⟩

/-- The registers of `csr`. -/
structure Csr where
  regs : CsrRegs
  mode : BitVec 2
deriving DecidableEq, Repr

/-- The interrupt pins. -/
structure Pins where
  trint : Bool
  swint : Bool
  exint : Bool
deriving DecidableEq, Repr

/-- `x` with bit `i` replaced by `b`. -/
def setBit (x : BitVec 64) (i : Nat) (b : Bool) : BitVec 64 :=
  if b then x ||| 1#64 <<< i else x &&& ~~~(1#64 <<< i)

/-! ## Fields of `mstatus` -/

/-- `mstatus.mie`. -/
def mieBit (mstatus : BitVec 64) : Bool := mstatus.getLsbD 3

/-- `mstatus.mpie`. -/
def mpieBit (mstatus : BitVec 64) : Bool := mstatus.getLsbD 7

/-- `mstatus.mpp`. -/
def mppField (mstatus : BitVec 64) : BitVec 2 := mstatus.extractLsb' 11 2

/-- Write `mstatus.mie`. -/
def setMie (mstatus : BitVec 64) (b : Bool) : BitVec 64 := setBit mstatus 3 b

/-- Write `mstatus.mpie`. -/
def setMpie (mstatus : BitVec 64) (b : Bool) : BitVec 64 := setBit mstatus 7 b

/-- Write `mstatus.mpp`. -/
def setMpp (mstatus : BitVec 64) (v : BitVec 2) : BitVec 64 :=
  setBit (setBit mstatus 11 (v.getLsbD 0)) 12 (v.getLsbD 1)

/-- Clear `mstatus.xs`. -/
def clearXs (mstatus : BitVec 64) : BitVec 64 := setBit (setBit mstatus 15 false) 16 false

/-- Recompute `mstatus.sd` from `mstatus.fs`. -/
def setSd (mstatus : BitVec 64) : BitVec 64 :=
  setBit mstatus 63 (mstatus.extractLsb' 13 2 != 0)

/-! ## Combinational outputs -/

section Csr

variable (c : Csr) (dataM : MemoryData) (pins : Pins)

/-- `pc_w`, also `pc_stored`. -/
def MemoryData.pcW : BitVec 64 := dataM.pcAndInstr.pcO

/-- `is_swint`. -/
def Csr.isSwint : Bool :=
  mieBit c.regs.mstatus && pins.swint && c.regs.mie.getLsbD 3 && dataM.pcW != 0

/-- `is_trint`. -/
def Csr.isTrint : Bool :=
  mieBit c.regs.mstatus && pins.trint && c.regs.mie.getLsbD 7 && dataM.pcW != 0

/-- `is_interupt`. -/
def Csr.isInterupt : Bool := c.isSwint dataM pins || c.isTrint dataM pins

/-- `csr_wen` of `csr`: a write by an instruction that neither traps nor is
interrupted. -/
def Csr.csrWen : Bool :=
  dataM.csrCtlW.csrWen && !dataM.csrCtlW.isExcept && !dataM.csrCtlW.isMret &&
    !c.isInterupt dataM pins

/-- `exc_or_int`: a trap is taken. -/
def Csr.excOrInt : Bool := dataM.csrCtlW.isExcept || c.isInterupt dataM pins

/-- `rd`: the register named by the instruction. -/
def Csr.rd : BitVec 64 :=
  let name := dataM.csrCtlW.csrName
  if name = csrMie then c.regs.mie
  else if name = csrMip then c.regs.mip
  else if name = csrMtvec then c.regs.mtvec
  else if name = csrMstatus then c.regs.mstatus
  else if name = csrMscratch then c.regs.mscratch
  else if name = csrMepc then c.regs.mepc
  else if name = csrMcause then c.regs.mcause
  else if name = csrMcycle then c.regs.mcycle
  else if name = csrMtval then c.regs.mtval
  else 0

/-- `wd`: the value to write. -/
def Csr.wd : BitVec 64 :=
  let zimm : BitVec 64 := dataM.csrCtlW.zimm.setWidth 64
  match dataM.instr.op with
  | .csrrc => c.rd dataM &&& ~~~dataM.aluout
  | .csrrci => c.rd dataM &&& ~~~zimm
  | .csrrs => c.rd dataM ||| dataM.aluout
  | .csrrsi => c.rd dataM ||| zimm
  | .csrrw => dataM.aluout
  | .csrrwi => zimm
  | _ => 0

/-- `csr_write_to_reg`. -/
def Csr.csrWriteToReg : CsrWriteToReg :=
  match dataM.instr.op with
  | .csrrc | .csrrci | .csrrs | .csrrsi | .csrrw | .csrrwi => ⟨true, c.rd dataM⟩
  | _ => 0

/-- `mcause_name`.  An interrupt is named by the raw pins. -/
def Csr.mcauseName : BitVec 63 :=
  match dataM.csrCtlW.exceptName with
  | .eInstrMisalign => 0
  | .eInstrIllegal => 2
  | .eLdMisalign => 4
  | .eSdMisalign => 6
  | .eEcall =>
    if c.mode = machineMode then 0xb
    else if c.mode = supervisorMode then 9
    else if c.mode = userMode then 8
    else c.regs.mcause.extractLsb' 0 63
  | .eNoExcept =>
    if pins.trint then 7
    else if pins.swint then 3
    else c.regs.mcause.extractLsb' 0 63

/-- The registers with the pins mirrored into `mie` and `mip` and the counter
advanced. -/
def Csr.mirrored : CsrRegs :=
  let mirror (x : BitVec 64) : BitVec 64 :=
    setBit (setBit (setBit x 3 pins.swint) 7 pins.trint) 11 pins.exint
  { c.regs with
    mie := mirror c.regs.mie
    mip := mirror c.regs.mip
    mcycle := c.regs.mcycle + 1 }

/-- The register named by `name` replaced by `wd`. -/
def CsrRegs.write (regs : CsrRegs) (name : BitVec 12) (wd : BitVec 64) : CsrRegs :=
  if name = csrMie then { regs with mie := wd }
  else if name = csrMip then { regs with mip := wd }
  else if name = csrMtvec then { regs with mtvec := wd }
  else if name = csrMstatus then { regs with mstatus := wd }
  else if name = csrMscratch then { regs with mscratch := wd }
  else if name = csrMepc then { regs with mepc := wd }
  else if name = csrMcause then { regs with mcause := wd }
  else if name = csrMcycle then { regs with mcycle := wd }
  else if name = csrMtval then { regs with mtval := wd }
  else regs

/-- `regs_nxt`. -/
def Csr.regsNxt : CsrRegs :=
  let regs := c.mirrored pins
  if c.excOrInt dataM pins then
    { regs with
      mepc := dataM.pcW
      mcause := BitVec.ofBool (!dataM.csrCtlW.isExcept) ++ c.mcauseName dataM pins
      mstatus :=
        setMpp (setMie (setMpie regs.mstatus (mieBit c.regs.mstatus)) false) c.mode }
  else if c.csrWen dataM pins then
    let written := regs.write dataM.csrCtlW.csrName (c.wd dataM)
    { written with mstatus := setSd written.mstatus }
  else if dataM.csrCtlW.isMret then
    { regs with
      mstatus :=
        clearXs (setMpp (setMpie (setMie regs.mstatus (mpieBit regs.mstatus)) true) 0) }
  else regs

/-- `csr_pc_nxt`.  The target is `'x` in the source when no redirect is valid. -/
def Csr.csrPcNxt : CsrPcNxt where
  csrPcValid := c.excOrInt dataM pins || c.csrWen dataM pins || dataM.csrCtlW.isMret
  pcNxt :=
    if c.excOrInt dataM pins then c.regs.mtvec
    else if c.csrWen dataM pins then dataM.pcW + 4
    else if dataM.csrCtlW.isMret then c.regs.mepc
    else 0

/-- `mode_nxt`. -/
def Csr.modeNxt : BitVec 2 :=
  if c.excOrInt dataM pins then machineMode
  else if dataM.csrCtlW.isMret then mppField c.regs.mstatus
  else c.mode

/-- The clock edge of `csr`. -/
def Csr.step (reset : Bool) : Csr :=
  if reset then ⟨.initial, machineMode⟩ else ⟨c.regsNxt dataM pins, c.modeNxt dataM pins⟩

end Csr

end RiscvCpu
