import RiscvCpu.Pipes

/-!
# Hazards and forwarding

`hazard.sv` decides which pipeline registers stall or flush in a cycle, and
`forward_unit.sv` where the operands of decode and execute come from.

`Do`, `Eo` and `M1` name the instructions held by the registers `de`, `em` and
`dataM1`.  `Fo` names the instruction in decode.
-/

namespace RiscvCpu

/-! ## Hazards -/

/-- Does `instr` write the register `ra`?  Writes to register zero do not
count. -/
def Instr.writes (instr : Instr) (en : Bool) (ra : BitVec 5) : Bool :=
  en && instr.writereg != 0 && ra == instr.writereg

/-- `lustall`: a load is in flight whose register the instruction in decode
reads. -/
def lustall (fo dO eO m1 : Instr) : Bool :=
  let waits (i : Instr) : Bool :=
    i.writes i.ctl.memrEn fo.ra1 || i.writes i.ctl.memrEn fo.ra2
  waits dO || waits eO || waits m1

/-- `bjstall`: a branch or jump in decode reads a register that execute is about
to produce or a load in `em` has not produced yet. -/
def bjstall (fo dO eO : Instr) : Bool :=
  let waits (ra : BitVec 5) : Bool :=
    dO.writes dO.ctl.regwriteEn ra || eO.writes eO.ctl.memrEn ra
  fo.ctl.bj != .nothing && (waits fo.ra1 || (fo.ctl.bj == .bBeq && waits fo.ra2))

/-- The inputs of `hazard`. -/
structure HazardIn where
  fo : Instr
  dO : Instr
  eO : Instr
  m1 : Instr
  iDataOk : Bool
  dDataOk : Bool
  bpHit : Bool
  multicycleDoing : Bool

section Hazard

variable (h : HazardIn)

/-- Does the instruction in decode wait for an operand? -/
def HazardIn.operandStall : Bool := lustall h.fo h.dO h.eO h.m1 || bjstall h.fo h.dO h.eO

/-- `fetch_en`. -/
def HazardIn.fetchEn : Bool := h.dDataOk && !h.operandStall

/-- `regstall_en`. -/
def HazardIn.regstallEn : RegstallEn :=
  let front := !h.dDataOk || !h.iDataOk || h.operandStall || h.multicycleDoing
  { pc := front
    fd := front
    de := !h.dDataOk || h.multicycleDoing
    em := !h.dDataOk
    mw := false }

/-- `regflush_en`. -/
def HazardIn.regflushEn : RegflushEn where
  fd :=
    (h.fo.ctl.bj == .bBeq || h.fo.ctl.bj == .jJal || h.fo.ctl.bj == .iJalr) && !h.bpHit
  de := h.operandStall || !h.iDataOk
  em := h.multicycleDoing
  mw := !h.dDataOk

end Hazard

/-! ## Forwarding -/

/-- `ae` and `be`: the source of an operand of execute. -/
def forwardE (ra : BitVec 5) (eO m1 : Instr) : ForwardType :=
  if eO.writes eO.ctl.regwriteEn ra then .forwardM
  else if m1.writes m1.ctl.regwriteEn ra then .forwardM1
  else .noforward

/-- `ad` and `bd`: the source of an operand of decode. -/
def forwardD (ra : BitVec 5) (eO m1 mO : Instr) : ForwardType :=
  if eO.writes eO.ctl.regwriteEn ra then .forwardM
  else if m1.writes m1.ctl.regwriteEn ra then .forwardM1
  else if mO.writes mO.ctl.regwriteEn ra then .forwardW
  else .noforward

/-- The operand multiplexer `fad`, `fbd`, `fae` and `fbe` share. -/
def forwardMux (src : ForwardType) (dataEO dataM1 dataW rd : BitVec 64) : BitVec 64 :=
  match src with
  | .forwardM => dataEO
  | .forwardM1 => dataM1
  | .forwardW => dataW
  | .noforward => rd

end RiscvCpu
