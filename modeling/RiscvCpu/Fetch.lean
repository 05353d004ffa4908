import RiscvCpu.Decode

/-!
# Fetch

The fetch stage: the branch predictor under `bpb`, `pcselect.sv` and
`fetch.sv`.

The predictor reads the fetched word itself.  It knows `jal` and the
conditional branches by opcode, and predicts a branch by a two-bit counter
selected by bits 9 to 2 of the pc.
-/

namespace RiscvCpu

/-! ## The branch predictor -/

/-- The states of `TwoBitCounter`. -/
inductive CounterState where
  | sntaken
  | wntaken
  | wtaken
  | staken
deriving DecidableEq, Repr

/-- The registers of `TwoBitCounter`. -/
structure TwoBitCounter where
  jump : Bool
  state : CounterState
deriving DecidableEq, Repr

/-- `bp_pcsrc`. -/
def TwoBitCounter.bpPcsrc (t : TwoBitCounter) : Pcsrc := if t.jump then .pcjump else .pcplus4

/-- The clock edge of `TwoBitCounter`.  `wen` is the conjunction of the source's
`wen` and `en`. -/
def TwoBitCounter.step (t : TwoBitCounter) (reset wen isTaken : Bool) : TwoBitCounter :=
  if reset then ⟨false, .wtaken⟩
  else if wen then
    match t.state with
    | .sntaken => ⟨false, if isTaken then .wntaken else .sntaken⟩
    | .wntaken => ⟨false, if isTaken then .staken else .sntaken⟩
    | .wtaken => ⟨true, if isTaken then .staken else .sntaken⟩
    | .staken => ⟨true, if isTaken then .staken else .wtaken⟩
  else t

/-- The counters of `branchpredict`. -/
abbrev Bpb := BitVec 8 → TwoBitCounter

/-- The entry of a pc. -/
def bpbEntry (pc : BitVec 64) : BitVec 8 := pc.extractLsb' 2 8

/-- `bp_result` for the word fetched at `pc`. -/
def Bpb.bpResult (bpb : Bpb) (raw : BitVec 32) (pc : BitVec 64) : BpResult :=
  let isJal := opOf raw == opJal
  let isBranch := opOf raw == opBeq
  let pcJump := if isJal then pc + immJ raw else if isBranch then pc + immB raw else pc + 4
  let pcsrc :=
    if isJal then .pcjump else if isBranch then (bpb (bpbEntry pc)).bpPcsrc else .pcplus4
  ⟨pc, if pcsrc = .pcjump then pcJump else pc + 4, pcsrc⟩

/-- The clock edge of `branchpredict`: a branch that leaves decode trains the
counter of its pc. -/
def Bpb.step (bpb : Bpb) (reset en : Bool) (commitInstrBj : BranchOrJump)
    (instrCommit : BpResult) : Bpb := fun j =>
  (bpb j).step reset (commitInstrBj == .bBeq && bpbEntry instrCommit.pc == j && en)
    (instrCommit.pcsrc == .pcjump)

/-! ## The fetch stage -/

/-- `pcselect`. -/
def pcselect (reset pcHold : Bool) (pc : BitVec 64) (csrPcNxt : CsrPcNxt)
    (pcJump : BitVec 64) : BitVec 64 :=
  if reset then pcInit
  else if csrPcNxt.csrPcValid then csrPcNxt.pcNxt
  else if pcHold then pc
  else pcJump

/-- The registers of `fetch`. -/
structure Fetch where
  pc : BitVec 64
  icacheReqO : Bool
  rawInstr : BitVec 32
  bpb : Bpb

section Fetch

variable (f : Fetch)

/-- `ireq`. -/
def Fetch.ireq (csrPcNxt : CsrPcNxt) : IbusReq := ⟨f.icacheReqO && !csrPcNxt.csrPcValid, f.pc⟩

/-- `i_data_ok`: the word has arrived, or none is asked for. -/
def Fetch.iDataOk (csrPcNxt : CsrPcNxt) (iresp : IbusResp) : Bool :=
  iresp.dataOk || !(f.ireq csrPcNxt).valid

/-- `dataF_raw_instr`: the live answer of the cache, or the latched one. -/
def Fetch.dataFRawInstr (iresp : IbusResp) : BitVec 32 :=
  if iresp.dataOk then iresp.data else f.rawInstr

/-- `bp_result`. -/
def Fetch.bpResult (iresp : IbusResp) : BpResult := f.bpb.bpResult (f.dataFRawInstr iresp) f.pc

/-- `dataF`. -/
def Fetch.dataF (iresp : IbusResp) : FetchData :=
  ⟨f.pc, f.dataFRawInstr iresp, (f.bpResult iresp).pcsrc⟩

/-- `pc_jump_tar`: the predicted target of the word being fetched if the
prediction of the word in decode was right, else the resolved target. -/
def Fetch.pcJumpTar (iresp : IbusResp) (bpHit : Bool) (instrCommit : BpResult) : BitVec 64 :=
  if bpHit then (f.bpResult iresp).targetPc else instrCommit.targetPc

/-- The clock edge of `fetch`. -/
def Fetch.step (reset fetchEn bpHit pcHold : Bool) (instrCommit : BpResult)
    (commitInstrBj : BranchOrJump) (csrPcNxt : CsrPcNxt) (iresp : IbusResp) : Fetch where
  pc :=
    if reset then pcInit
    else pcselect reset pcHold f.pc csrPcNxt (f.pcJumpTar iresp bpHit instrCommit)
  icacheReqO :=
    if reset || csrPcNxt.csrPcValid then true
    else if f.iDataOk csrPcNxt iresp then fetchEn
    else f.icacheReqO
  rawInstr := if reset then 0 else if iresp.dataOk then iresp.data else f.rawInstr
  bpb := f.bpb.step reset (!pcHold) commitInstrBj instrCommit

end Fetch

end RiscvCpu
