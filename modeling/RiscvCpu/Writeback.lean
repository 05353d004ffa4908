import RiscvCpu.Memory

/-!
# Write-back and the register file

The write-back stage, `readdata.sv` and `writeback.sv`, and `regfile.sv`.  A
misaligned load has the value `'x` in the source.  It is zero here.
-/

namespace RiscvCpu

/-! ## Load lanes -/

/-- The outputs of `readdata`. -/
structure LoadLanes where
  rd : BitVec 64
  isLdMissalign : Bool
deriving DecidableEq, Repr

/-- `_rd[low+bits-1:low]`, zero- or sign-extended. -/
def loadLane (rdIn : BitVec 64) (low bits : Nat) (memUnsigned : Bool) : LoadLanes :=
  let lane := rdIn.extractLsb' low bits
  ⟨if memUnsigned then lane.setWidth 64 else lane.signExtend 64, false⟩

/-- The lanes of a misaligned load. -/
def misalignedLoad : LoadLanes := ⟨0, true⟩

/-- `readdata`: the value of a load from the word that holds it. -/
def readdata (rdIn : BitVec 64) (addr : BitVec 3) (msize : Msize) (memUnsigned : Bool) :
    LoadLanes :=
  match msize with
  | .msize1 =>
    match addr.toNat with
    | 0 => loadLane rdIn 0 8 memUnsigned
    | 1 => loadLane rdIn 8 8 memUnsigned
    | 2 => loadLane rdIn 16 8 memUnsigned
    | 3 => loadLane rdIn 24 8 memUnsigned
    | 4 => loadLane rdIn 32 8 memUnsigned
    | 5 => loadLane rdIn 40 8 memUnsigned
    | 6 => loadLane rdIn 48 8 memUnsigned
    | _ => loadLane rdIn 56 8 memUnsigned
  | .msize2 =>
    match addr.toNat with
    | 0 => loadLane rdIn 0 16 memUnsigned
    | 2 => loadLane rdIn 16 16 memUnsigned
    | 4 => loadLane rdIn 32 16 memUnsigned
    | 6 => loadLane rdIn 48 16 memUnsigned
    | _ => misalignedLoad
  | .msize4 =>
    match addr.toNat with
    | 0 => loadLane rdIn 0 32 memUnsigned
    | 4 => loadLane rdIn 32 32 memUnsigned
    | _ => misalignedLoad
  | .msize8 => if addr = 0 then ⟨rdIn, false⟩ else misalignedLoad

/-! ## The write-back stage -/

/-- The word a record loads, and whether its address is misaligned. -/
def MemoryData.lanes (dataM : MemoryData) : LoadLanes :=
  readdata dataM.memrData (dataM.aluout.extractLsb' 0 3) dataM.instr.ctl.msize
    dataM.instr.ctl.memUnsigned

/-- `csr_ctl` of the write-back stage: a misaligned load raises its exception
here. -/
def MemoryData.csrCtlW (dataM : MemoryData) : CsrCtl :=
  if dataM.lanes.isLdMissalign && dataM.instr.ctl.memrEn then
    { (0 : CsrCtl) with isExcept := true, exceptName := .eLdMisalign }
  else dataM.csrCtl

/-- `dataW`. -/
def MemoryData.dataW (dataM : MemoryData) (csrWriteToReg : CsrWriteToReg) : WritebackData where
  writereg := dataM.instr.writereg
  writeData :=
    match dataM.instr.ctl.writebackSrc with
    | .aluresult =>
      if csrWriteToReg.csrWriteToRegEn then csrWriteToReg.csrWriteToRegData else dataM.aluout
    | .memdata => dataM.lanes.rd
  regwriteEn := dataM.instr.ctl.regwriteEn

/-! ## The register file -/

/-- The contents of `regfile`. -/
abbrev Regs := BitVec 5 → BitVec 64

/-- The clock edge of `regfile`.  Register zero stays zero. -/
def Regs.step (regs : Regs) (reset : Bool) (dataW : WritebackData) : Regs := fun i =>
  if reset then 0
  else if i = 0 then 0
  else if i = dataW.writereg && dataW.regwriteEn then dataW.writeData
  else regs i

end RiscvCpu
