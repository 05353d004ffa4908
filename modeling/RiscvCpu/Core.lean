import RiscvCpu.Execute
import RiscvCpu.Csr
import RiscvCpu.Fetch
import RiscvCpu.Hazard

/-!
# The core

`core.sv`: the five stages, the pipeline registers between them and the units
they share.  Every combinational signal of a cycle is a function of the
registers and the inputs of that cycle, and `Core.step` is the clock edge.
-/

namespace RiscvCpu

/-- The registers of `core`. -/
structure Core where
  fetch : Fetch
  /-- `dataF_o`. -/
  fd : FetchData
  /-- `dataD_o`. -/
  de : DecodeData
  execute : Multicycle
  /-- `dataE_o`. -/
  em : ExecuteData
  memory : Memory
  /-- `dataM_o`. -/
  mw : MemoryData
  csr : Csr
  regfile : Regs

/-- The inputs of `core`. -/
structure CoreIn where
  reset : Bool
  iresp : IbusResp
  dresp : DbusResp
  pins : Pins
deriving DecidableEq, Repr

section Core

variable (c : Core)

/-! ## Signals of the registers alone -/

/-- `dataD_instr`. -/
def Core.dataDInstr : Instr := c.fd.instr

/-- `dataW`. -/
def Core.dataW : WritebackData := c.mw.dataW (c.csr.csrWriteToReg c.mw)

/-- An operand of decode. -/
def Core.operandD (ra : BitVec 5) : BitVec 64 :=
  forwardMux (forwardD ra c.em.instr c.memory.dataM1.instr c.mw.instr)
    c.em.aluout c.memory.dataM1.aluout c.dataW.writeData (c.regfile ra)

/-- `rd1` of decode. -/
def Core.rd1 : BitVec 64 := c.operandD c.dataDInstr.ra1

/-- `rd2` of decode. -/
def Core.rd2 : BitVec 64 := c.operandD c.dataDInstr.ra2

/-- `instr_commit`. -/
def Core.instrCommit : BpResult := c.fd.instrCommit c.rd1 c.rd2

/-- `bp_hit`. -/
def Core.bpHit : Bool := c.fd.bpHit c.rd1 c.rd2

/-- `dataD`. -/
def Core.dataD : DecodeData := c.fd.dataD c.rd1 c.rd2

/-- An operand of execute, `rd` being the one read in decode. -/
def Core.operandE (ra : BitVec 5) (rd : BitVec 64) : BitVec 64 :=
  forwardMux (forwardE ra c.em.instr c.memory.dataM1.instr)
    c.em.aluout c.memory.dataM1.aluout c.dataW.writeData rd

/-- `a` of execute. -/
def Core.a : BitVec 64 := c.operandE c.de.instr.ra1 c.de.rd1

/-- `regdatab` of execute. -/
def Core.regdatab : BitVec 64 := c.operandE c.de.instr.ra2 c.de.rd2

/-- `b` of execute. -/
def Core.b : BitVec 64 := c.de.srcB c.regdatab

/-- `multicycle_doing`. -/
def Core.multicycleDoing : Bool :=
  c.execute.doing c.de.instr.op c.b && c.de.instr.ctl.aluop == .aluMulticycle

/-- `dataE`. -/
def Core.dataE : ExecuteData :=
  c.de.dataE c.a c.regdatab (c.execute.multiC c.de.instr.op c.a c.b)

/-! ## Signals that depend on the inputs -/

/-- `csr_pc_nxt`. -/
def Core.csrPcNxt (pins : Pins) : CsrPcNxt := c.csr.csrPcNxt c.mw pins

/-- `csr_flush`. -/
def Core.csrFlush (pins : Pins) : Bool := (c.csrPcNxt pins).csrPcValid

/-- `ireq`. -/
def Core.ireq (pins : Pins) : IbusReq := c.fetch.ireq (c.csrPcNxt pins)

/-- `dreq`. -/
def Core.dreq (pins : Pins) : DbusReq := c.memory.dreq c.em (c.csrFlush pins)

variable (i : CoreIn)

/-- `stall_data_ok`. -/
def Core.stallDataOk : Bool := c.memory.stallDataOk c.em (c.csrFlush i.pins) i.dresp

/-- The inputs of `hazard`. -/
def Core.hazard : HazardIn where
  fo := c.dataDInstr
  dO := c.de.instr
  eO := c.em.instr
  m1 := c.memory.dataM1.instr
  iDataOk := c.fetch.iDataOk (c.csrPcNxt i.pins) i.iresp
  dDataOk := !c.stallDataOk i
  bpHit := c.bpHit
  multicycleDoing := c.multicycleDoing

/-- `regstall_en`. -/
def Core.regstallEn : RegstallEn := (c.hazard i).regstallEn

/-- `regflush_en`. -/
def Core.regflushEn : RegflushEn := (c.hazard i).regflushEn

/-- The reset of the pipeline registers, of execute and of memory. -/
def Core.pipeReset : Bool := i.reset || c.csrFlush i.pins

/-- `dataF`. -/
def Core.dataF : FetchData := c.fetch.dataF i.iresp

/-- `dataM`. -/
def Core.dataM : MemoryData := c.memory.dataM i.dresp

/-! ## The clock edge -/

/-- The clock edge of `core`. -/
def Core.step : Core where
  fetch :=
    c.fetch.step i.reset (c.hazard i).fetchEn c.bpHit (c.regstallEn i).pc c.instrCommit
      c.dataDInstr.ctl.bj (c.csrPcNxt i.pins) i.iresp
  fd := pipereg (c.pipeReset i) (c.regflushEn i).fd (!(c.regstallEn i).fd) (c.dataF i) c.fd
  de := pipereg (c.pipeReset i) (c.regflushEn i).de (!(c.regstallEn i).de) c.dataD c.de
  execute := c.execute.step (c.pipeReset i) c.de.instr.op c.a c.b
  em := pipereg (c.pipeReset i) (c.regflushEn i).em (!(c.regstallEn i).em) c.dataE c.em
  memory := c.memory.step c.em (c.csrFlush i.pins) (c.pipeReset i) c.dataE.instr.ctl i.dresp
  mw := pipereg (c.pipeReset i) (c.regflushEn i).mw (!(c.regstallEn i).mw) (c.dataM i) c.mw
  csr := c.csr.step c.mw i.pins i.reset
  regfile := c.regfile.step i.reset c.dataW

end Core

end RiscvCpu
