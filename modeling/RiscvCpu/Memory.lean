import RiscvCpu.Pipes

/-!
# Memory

The memory stage: `writedata.sv` and `memory.sv`.

The stage is a machine of four states.  It holds one record, `dataM1`, behind
the record in the pipeline register `em`.  A cached request is driven a second
time from `dataM1` in the cycle after it was accepted (`memory01`), since the
data of a load arrives then.  `memory10` waits for the request in `em`, and
`memory11` drives `dataM1` once more with a second request waiting in `em`.
-/

namespace RiscvCpu

/-! ## Store lanes -/

/-- The outputs of `writedata`. -/
structure StoreLanes where
  wd : BitVec 64
  strobe : BitVec 8
  isSdMissalign : Bool
deriving DecidableEq, Repr

/-- `wd[low+bits-1:low] = _wd[bits-1:0]` under a strobe. -/
def storeLane (wdIn : BitVec 64) (low bits : Nat) (strobe : BitVec 8) : StoreLanes :=
  ⟨(wdIn.extractLsb' 0 bits).setWidth 64 <<< low, strobe, false⟩

/-- The lanes of a misaligned store: no byte is enabled. -/
def misalignedStore : StoreLanes := ⟨0, 0, true⟩

/-- `writedata`: a store value moved to its lanes, with its strobe. -/
def writedata (addr : BitVec 3) (wdIn : BitVec 64) (msize : Msize) : StoreLanes :=
  match msize with
  | .msize1 =>
    match addr.toNat with
    | 0 => storeLane wdIn 0 8 0x01#8
    | 1 => storeLane wdIn 8 8 0x02#8
    | 2 => storeLane wdIn 16 8 0x04#8
    | 3 => storeLane wdIn 24 8 0x08#8
    | 4 => storeLane wdIn 32 8 0x10#8
    | 5 => storeLane wdIn 40 8 0x20#8
    | 6 => storeLane wdIn 48 8 0x40#8
    | _ => storeLane wdIn 56 8 0x80#8
  | .msize2 =>
    match addr.toNat with
    | 0 => storeLane wdIn 0 16 0x03#8
    | 2 => storeLane wdIn 16 16 0x0c#8
    | 4 => storeLane wdIn 32 16 0x30#8
    | 6 => storeLane wdIn 48 16 0xc0#8
    | _ => misalignedStore
  | .msize4 =>
    match addr.toNat with
    | 0 => storeLane wdIn 0 32 0x0f#8
    | 4 => storeLane wdIn 32 32 0xf0#8
    | _ => misalignedStore
  | .msize8 => if addr = 0 then ⟨wdIn, 0xff#8, false⟩ else misalignedStore

/-! ## The state machine -/

/-- The states of `memory`. -/
inductive MemState where
  | idle
  | memory01
  | memory10
  | memory11
deriving DecidableEq, Repr

/-- The registers of `memory`. -/
structure Memory where
  state : MemState
  dataM1 : MemoryData
deriving DecidableEq, Repr

/-- `dataMtmp`: the record in `em` as the stage passes it on.  Its `memrData` has
no driver. -/
def ExecuteData.dataMtmp (dataE : ExecuteData) : MemoryData :=
  let lanes := writedata (dataE.aluout.extractLsb' 0 3) dataE.memwData dataE.instr.ctl.msize
  { pcO := dataE.pcO
    instr := dataE.instr
    aluout := dataE.aluout
    memrData := 0
    pcAndInstr := dataE.pcAndInstr
    csrCtl :=
      if lanes.isSdMissalign && dataE.instr.ctl.memwEn then
        { (0 : CsrCtl) with isExcept := true, exceptName := .eSdMisalign }
      else dataE.csrCtl
    formattedMemwData := lanes.wd
    strobe := lanes.strobe }

/-- The request that carries a record.  The strobe is clear for a load. -/
def MemoryData.dreq (d : MemoryData) (valid : Bool) : DbusReq :=
  ⟨valid, d.aluout, d.instr.ctl.msize, if d.instr.ctl.memwEn then d.strobe else 0,
    d.formattedMemwData⟩

section Memory

variable (m : Memory) (dataE : ExecuteData) (csrWen : Bool)

/-- Is the request in `dataM1` driven, and not the one in `em`? -/
def Memory.drivesM1 : Bool := m.state == .memory01 || m.state == .memory11

/-- `dreq`. -/
def Memory.dreq : DbusReq :=
  if m.drivesM1 then m.dataM1.dreq true
  else dataE.dataMtmp.dreq (dataE.instr.ctl.isMem && !csrWen)

/-- `stall_data_ok`. -/
def Memory.stallDataOk (dresp : DbusResp) : Bool :=
  (m.state == .idle && dataE.instr.ctl.isMem && !csrWen && !dresp.addrOk) ||
    (m.state == .memory10 && !dresp.addrOk) ||
    (m.state == .memory11 && !csrWen)

/-- `dataM`: the record handed to the register `mw`.  `strobe` has no driver. -/
def Memory.dataM (dresp : DbusResp) : MemoryData :=
  { m.dataM1 with
    memrData := if m.state = .idle then m.dataM1.memrData else dresp.data
    strobe := 0 }

/-- The clock edge of `memory`.  `ctl2` is the control word of the instruction in
execute. -/
def Memory.step (reset : Bool) (ctl2 : Control) (dresp : DbusResp) : Memory :=
  let tmp := dataE.dataMtmp
  let ctl := dataE.instr.ctl
  -- the uncached arms of `MEMORY10` copy `dataMtmp` and keep the data of the bus
  let uncached := { tmp with memrData := dresp.data }
  let valid := (m.dreq dataE csrWen).valid
  if reset then ⟨.idle, 0⟩
  else
    match m.state with
    | .idle =>
      if ctl.isMem && !csrWen && dresp.addrOk then ⟨.memory01, tmp⟩
      else if ctl.isMem && !csrWen then ⟨.memory10, m.dataM1⟩
      else ⟨.idle, tmp⟩
    | .memory01 => if ctl.isMem then ⟨.memory10, tmp⟩ else ⟨.idle, tmp⟩
    | .memory10 =>
      if dresp.addrOk && !tmp.aluout.getLsbD 31 && valid && ctl2.isMem then ⟨.memory10, uncached⟩
      else if dresp.addrOk && !tmp.aluout.getLsbD 31 && valid then ⟨.idle, uncached⟩
      else if dresp.addrOk && valid && ctl2.isMem then ⟨.memory11, tmp⟩
      else if dresp.addrOk && valid then ⟨.memory01, tmp⟩
      else ⟨.memory10, m.dataM1⟩
    | .memory11 => if csrWen then ⟨.idle, tmp⟩ else ⟨.memory10, m.dataM1⟩

/-- Does `dataM1` keep its record in this cycle? -/
def Memory.keeps (dresp : DbusResp) : Bool :=
  match m.state with
  | .idle => dataE.instr.ctl.isMem && !csrWen && !dresp.addrOk
  | .memory01 => false
  | .memory10 => !(dresp.addrOk && (m.dreq dataE csrWen).valid)
  | .memory11 => !csrWen

/-- `dataM1` keeps its record or takes the one in `em`. -/
theorem Memory.step_keeps (ctl2 : Control) (dresp : DbusResp) :
    ∃ x, (m.step dataE csrWen false ctl2 dresp).dataM1 =
      if m.keeps dataE csrWen dresp then m.dataM1 else { dataE.dataMtmp with memrData := x } := by
  cases hs : m.state with
  | idle =>
    refine ⟨0, ?_⟩
    cases hm : dataE.instr.ctl.isMem <;> cases csrWen <;> cases ha : dresp.addrOk <;>
      simp [Memory.step, keeps, hs, hm, ha, ExecuteData.dataMtmp]
  | memory01 =>
    refine ⟨0, ?_⟩
    cases hm : dataE.instr.ctl.isMem <;>
      simp [Memory.step, keeps, hs, hm, ExecuteData.dataMtmp]
  | memory10 =>
    refine ⟨if dataE.dataMtmp.aluout.getLsbD 31 then 0 else dresp.data, ?_⟩
    cases hv : (m.dreq dataE csrWen).valid <;> cases ha : dresp.addrOk <;>
      cases hb : dataE.dataMtmp.aluout.getLsbD 31 <;> cases hc : ctl2.isMem <;>
      simp only [Memory.step, keeps, hs, hv, ha, hb, hc] <;> rfl
  | memory11 =>
    refine ⟨0, ?_⟩
    cases csrWen <;> simp [Memory.step, keeps, hs, ExecuteData.dataMtmp]

theorem Memory.step_pcAndInstr (ctl2 : Control) (dresp : DbusResp) :
    (m.step dataE csrWen false ctl2 dresp).dataM1.pcAndInstr =
      if m.keeps dataE csrWen dresp then m.dataM1.pcAndInstr else dataE.pcAndInstr := by
  obtain ⟨x, hx⟩ := m.step_keeps dataE csrWen ctl2 dresp
  rw [hx]
  split <;> rfl

theorem Memory.step_aluout (ctl2 : Control) (dresp : DbusResp) :
    (m.step dataE csrWen false ctl2 dresp).dataM1.aluout =
      if m.keeps dataE csrWen dresp then m.dataM1.aluout else dataE.aluout := by
  obtain ⟨x, hx⟩ := m.step_keeps dataE csrWen ctl2 dresp
  rw [hx]
  split <;> rfl

/-! ## One cycle, state by state

Without a reset, and so without a redirect of the CSR unit. -/

variable {m : Memory} {dataE : ExecuteData} {ctl2 : Control} {dresp : DbusResp}

theorem Memory.step_idle (h : m.state = .idle) :
    m.step dataE false false ctl2 dresp =
      if dataE.instr.ctl.isMem then
        if dresp.addrOk then ⟨.memory01, dataE.dataMtmp⟩ else ⟨.memory10, m.dataM1⟩
      else ⟨.idle, dataE.dataMtmp⟩ := by
  cases hm : dataE.instr.ctl.isMem <;> cases ha : dresp.addrOk <;> simp [Memory.step, h, hm, ha]

theorem Memory.step_memory01 (h : m.state = .memory01) :
    m.step dataE false false ctl2 dresp =
      if dataE.instr.ctl.isMem then ⟨.memory10, dataE.dataMtmp⟩ else ⟨.idle, dataE.dataMtmp⟩ := by
  simp [Memory.step, h]

/-- The request in `em` is answered: an uncached one is done, a cached one is driven
once more from `dataM1`. -/
theorem Memory.step_memory10 (h : m.state = .memory10) (hm : dataE.instr.ctl.isMem = true) :
    m.step dataE false false ctl2 dresp =
      if dresp.addrOk then
        if dataE.aluout.getLsbD 31 then
          ⟨if ctl2.isMem then .memory11 else .memory01, dataE.dataMtmp⟩
        else
          ⟨if ctl2.isMem then .memory10 else .idle,
            { dataE.dataMtmp with memrData := dresp.data }⟩
      else ⟨.memory10, m.dataM1⟩ := by
  have hv : (m.dreq dataE false).valid = true := by
    simp [Memory.dreq, Memory.drivesM1, h, hm, MemoryData.dreq]
  have hout : dataE.dataMtmp.aluout = dataE.aluout := rfl
  cases ha : dresp.addrOk <;> cases hb : dataE.aluout.getLsbD 31 <;> cases hc : ctl2.isMem <;>
    simp [-BitVec.getLsbD_eq_getElem, Memory.step, h, hv, hout, ha, hb, hc]

theorem Memory.step_memory10_wait (h : m.state = .memory10) (ha : dresp.addrOk = false) :
    m.step dataE false false ctl2 dresp = ⟨.memory10, m.dataM1⟩ := by
  simp [Memory.step, h, ha]

theorem Memory.step_memory11 (h : m.state = .memory11) :
    m.step dataE false false ctl2 dresp = ⟨.memory10, m.dataM1⟩ := by
  simp [Memory.step, h]

theorem Memory.stallDataOk_idle (h : m.state = .idle) :
    m.stallDataOk dataE false dresp = (dataE.instr.ctl.isMem && !dresp.addrOk) := by
  rw [Memory.stallDataOk, h]
  cases dataE.instr.ctl.isMem <;> cases dresp.addrOk <;> rfl

theorem Memory.stallDataOk_memory01 (h : m.state = .memory01) :
    m.stallDataOk dataE false dresp = false := by
  simp [Memory.stallDataOk, h]

theorem Memory.stallDataOk_memory10 (h : m.state = .memory10) :
    m.stallDataOk dataE false dresp = !dresp.addrOk := by
  rw [Memory.stallDataOk, h]
  cases dataE.instr.ctl.isMem <;> cases dresp.addrOk <;> rfl

theorem Memory.stallDataOk_memory11 (h : m.state = .memory11) :
    m.stallDataOk dataE false dresp = true := by
  simp [Memory.stallDataOk, h]

end Memory

end RiscvCpu
