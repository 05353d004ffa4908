import RiscvCpu.Pipes

/-!
# Execute

The execute stage: `alu.sv`, the multicycle unit under `execute/mult` and
`execute.sv`.

The multicycle unit is a two-cycle multiplier and a sixty-six-cycle restoring
divider.  Both run on the absolute values of their operands, and both keep the
operands of the first cycle in a store, since the forwarded values disappear
while the instruction waits.

The bits `e[24:14]` of `multiplier` have no driver.  They are read here as
zero.  Outputs the source leaves unassigned in some arm are zero in that arm.
-/

namespace RiscvCpu

/-! ## The ALU -/

/-- `alu`.  The 32-bit operations sign-extend their lower half. -/
def alu (a b : BitVec 64) (alufunc : AluFunc) (is32instr : Bool) : BitVec 64 :=
  let cout : BitVec 64 :=
    match alufunc with
    | .aluAdd => a + b
    | .aluSub => a - b
    | .aluAnd => a &&& b
    | .aluOr => a ||| b
    | .aluXor => a ^^^ b
    | .aluSll => a <<< (b.extractLsb' 0 6).toNat
    | .aluSllw => a <<< (b.extractLsb' 0 5).toNat
    | .aluSra => a.sshiftRight (b.extractLsb' 0 6).toNat
    | .aluSrl => a >>> (b.extractLsb' 0 6).toNat
    | .aluSraw =>
      ((a.extractLsb' 0 32).sshiftRight (b.extractLsb' 0 5).toNat).setWidth 64
    | .aluSrlw => ((a.extractLsb' 0 32) >>> (b.extractLsb' 0 5).toNat).setWidth 64
    | .aluSlt => if a.slt b then 1 else 0
    | .aluSltu => if a.ult b then 1 else 0
    | .aluCsr => a
    | .aluMulticycle => 0
  if is32instr then (cout.extractLsb' 0 32).signExtend 64 else cout

/-! ## Absolute values -/

/-- `a[63] ? -a : a`. -/
def abs64 (a : BitVec 64) : BitVec 64 := if a.msb then -a else a

/-- The absolute value of the lower half, zero-extended. -/
def abs32 (a : BitVec 64) : BitVec 64 :=
  let lo := a.extractLsb' 0 32
  (if lo.msb then -lo else lo).setWidth 64

/-- `neg ? -x : x`. -/
def negIf {n : Nat} (neg : Bool) (x : BitVec n) : BitVec n := if neg then -x else x

/-! ## The multiplier -/

/-- The twelve partial product registers of `multiplier`. -/
structure PartialProducts where
  p0 : BitVec 41
  p1 : BitVec 41
  p2 : BitVec 41
  p3 : BitVec 41
  p4 : BitVec 41
  p5 : BitVec 41
  p6 : BitVec 41
  p7 : BitVec 41
  p8 : BitVec 41
  p9 : BitVec 41
  p10 : BitVec 41
  p11 : BitVec 41
deriving DecidableEq, Repr

instance : Zero PartialProducts := ⟨⟨0, 0, 0, 0, 0, 0, 0, 0, 0, 0, 0, 0⟩⟩

/-- The partial products of a 14/25/25-bit and a 16/16/16/16-bit split. -/
def partialProducts (A B : BitVec 64) : PartialProducts :=
  let e : BitVec 41 := (A.extractLsb' 50 14).setWidth 41
  let f : BitVec 41 := (A.extractLsb' 25 25).setWidth 41
  let g : BitVec 41 := (A.extractLsb' 0 25).setWidth 41
  let m : BitVec 41 := (B.extractLsb' 48 16).setWidth 41
  let n : BitVec 41 := (B.extractLsb' 32 16).setWidth 41
  let p : BitVec 41 := (B.extractLsb' 16 16).setWidth 41
  let q : BitVec 41 := (B.extractLsb' 0 16).setWidth 41
  ⟨e * m, f * m, g * m, e * n, f * n, g * n, e * p, f * p, g * p, e * q, f * q, g * q⟩

/-- The output `c` of `multiplier`. -/
def PartialProducts.sum (x : PartialProducts) : BitVec 128 :=
  let r0 : BitVec 128 := x.p0.extractLsb' 0 30 ++ 0#98
  let r1 : BitVec 128 := 0#14 ++ x.p1 ++ 0#73
  let r2 : BitVec 128 := 0#39 ++ x.p2 ++ 0#48
  let r3 : BitVec 128 := 0#5 ++ x.p3 ++ 0#82
  let r4 : BitVec 128 := 0#30 ++ x.p4 ++ 0#57
  let r5 : BitVec 128 := 0#55 ++ x.p5 ++ 0#32
  let r6 : BitVec 128 := 0#21 ++ x.p6 ++ 0#66
  let r7 : BitVec 128 := 0#46 ++ x.p7 ++ 0#41
  let r8 : BitVec 128 := 0#71 ++ x.p8 ++ 0#16
  let r9 : BitVec 128 := 0#37 ++ x.p9 ++ 0#50
  let r10 : BitVec 128 := 0#62 ++ x.p10 ++ 0#25
  let r11 : BitVec 128 := 0#87 ++ x.p11
  (r0 + r1 + r2) + (r3 + r4 + r5) + (r6 + r7 + r8) + (r9 + r10 + r11)

/-- The registers of `multiplier`. -/
structure Multiplier where
  products : PartialProducts
  state : MulticycleState
deriving DecidableEq, Repr

/-- `state_nxt` of `multiplier`. -/
def Multiplier.stateNxt (mul0 : Multiplier) (valid : Bool) : MulticycleState :=
  if mul0.state = .doing then .init
  else if valid then .doing
  else mul0.state

/-- `done` of `multiplier`. -/
def Multiplier.done (mul0 : Multiplier) (valid : Bool) : Bool :=
  mul0.stateNxt valid == .init

/-- The clock edge of `multiplier`. -/
def Multiplier.step (mul0 : Multiplier) (reset valid : Bool) (A B : BitVec 64) : Multiplier :=
  if reset then ⟨0, .init⟩ else ⟨partialProducts A B, mul0.stateNxt valid⟩

/-- The registers of `multiplier_top`. -/
structure MultiplierTop where
  aStore : BitVec 64
  bStore : BitVec 64
  mul0 : Multiplier
deriving DecidableEq, Repr

/-- `mulvalid`. -/
def mulvalid (op : Op) : Bool := op == .mul || op == .mulw

/-- `muldone`. -/
def MultiplierTop.done (mulT : MultiplierTop) (op : Op) : Bool := mulT.mul0.done (mulvalid op)

/-- The operand of this cycle: the input in the first cycle, then the store. -/
def MultiplierTop.operand (mulT : MultiplierTop) (op : Op) (inp stored : BitVec 64) : BitVec 64 :=
  if !mulT.done op && mulvalid op then inp else stored

/-- The factors `A` and `B` handed to `multiplier`. -/
def mulFactor (op : Op) (a : BitVec 64) : BitVec 64 :=
  match op with
  | .mul => abs64 a
  | .mulw => abs32 a
  | _ => 0

/-- `c` of `multiplier_top` for operands `a` and `b`. -/
def MultiplierTop.result (mulT : MultiplierTop) (op : Op) (a b : BitVec 64) : BitVec 64 :=
  let mulC := mulT.mul0.products.sum
  match op with
  | .mul => negIf (a.msb ^^ b.msb) (mulC.extractLsb' 0 64)
  | .mulw => (negIf (a.getLsbD 31 ^^ b.getLsbD 31) (mulC.extractLsb' 0 32)).signExtend 64
  | _ => 0

/-- `c` of `multiplier_top`. -/
def MultiplierTop.c (mulT : MultiplierTop) (op : Op) (aIn bIn : BitVec 64) : BitVec 64 :=
  mulT.result op (mulT.operand op aIn mulT.aStore) (mulT.operand op bIn mulT.bStore)

/-- The clock edge of `multiplier_top`. -/
def MultiplierTop.step (mulT : MultiplierTop) (reset : Bool) (op : Op) (aIn bIn : BitVec 64) :
    MultiplierTop where
  aStore := if reset then 0 else if !mulT.done op then aIn else mulT.aStore
  bStore := if reset then 0 else if !mulT.done op then bIn else mulT.bStore
  mul0 := mulT.mul0.step reset (mulvalid op)
    (mulFactor op (mulT.operand op aIn mulT.aStore))
    (mulFactor op (mulT.operand op bIn mulT.bStore))

/-! ## The divider -/

/-- The registers of `divider`. -/
structure Divider where
  state : MulticycleState
  count : BitVec 67
  p : BitVec 128
deriving DecidableEq, Repr

/-- `DIV_DELAY`: one bit, shifted out after 65 cycles. -/
def divDelay : BitVec 67 := 1#67 <<< 64

/-- `{state_nxt, count_nxt}` of `divider`. -/
def Divider.stateNxt (div0 : Divider) (valid : Bool) : MulticycleState × BitVec 67 :=
  match div0.state with
  | .init => if valid then (.doing, divDelay) else (.init, div0.count)
  | .doing => if div0.count >>> 1 = 0 then (.init, div0.count >>> 1) else (.doing, div0.count >>> 1)

/-- `done` of `divider`. -/
def Divider.done (div0 : Divider) (valid : Bool) : Bool := (div0.stateNxt valid).1 == .init

/-- One step of restoring division on `{remainder, quotient}`. -/
def restore (p : BitVec 128) (b : BitVec 64) : BitVec 128 :=
  let q := p <<< 1
  if b ≤ q.extractLsb' 64 64 then (q.extractLsb' 64 64 - b) ++ (q.extractLsb' 0 64 ||| 1#64)
  else q

/-- `p_nxt` of `divider`. -/
def Divider.pNxt (div0 : Divider) (A B : BitVec 64) : BitVec 128 :=
  match div0.state with
  | .init => 0#64 ++ A
  | .doing => restore div0.p B

/-- The clock edge of `divider`. -/
def Divider.step (div0 : Divider) (reset valid : Bool) (A B : BitVec 64) : Divider :=
  if reset then ⟨.init, 0, 0⟩
  else ⟨(div0.stateNxt valid).1, (div0.stateNxt valid).2, div0.pNxt A B⟩

/-- The registers of `divider_top`. -/
structure DividerTop where
  aStore : BitVec 64
  bStore : BitVec 64
  div0 : Divider
deriving DecidableEq, Repr

/-- `input_init`. -/
def DividerTop.inputInit (divT : DividerTop) : Bool := divT.div0.state == .init

/-- `divvalid`: a division with a nonzero divisor, or one that is under way. -/
def DividerTop.divvalid (divT : DividerTop) (op : Op) (bIn : BitVec 64) : Bool :=
  match op with
  | .div | .divu | .rem | .remu => !(bIn == 0 && divT.inputInit)
  | .divw | .divuw | .remw | .remuw => !(bIn.extractLsb' 0 32 == 0 && divT.inputInit)
  | _ => false

/-- `divdone`. -/
def DividerTop.done (divT : DividerTop) (op : Op) (bIn : BitVec 64) : Bool :=
  divT.div0.done (divT.divvalid op bIn)

/-- The operand of this cycle: the input in the first cycle, then the store. -/
def DividerTop.operand (divT : DividerTop) (op : Op) (bIn inp stored : BitVec 64) : BitVec 64 :=
  if divT.divvalid op bIn && divT.inputInit then inp else stored

/-- The operands `A` and `B` handed to `divider`. -/
def divOperand (op : Op) (a : BitVec 64) : BitVec 64 :=
  match op with
  | .div | .rem => abs64 a
  | .divu | .remu => a
  | .divw | .remw => abs32 a
  | .divuw | .remuw => (a.extractLsb' 0 32).setWidth 64
  | _ => 0

/-- `c` of `divider_top` when `divvalid` is set, from `{a % b, a / b}`. -/
def divResult (op : Op) (a b : BitVec 64) (divC : BitVec 128) : BitVec 64 :=
  match op with
  | .div => negIf (a.msb ^^ b.msb) (divC.extractLsb' 0 64)
  | .divu => divC.extractLsb' 0 64
  | .rem => negIf (a.msb ^^ divC.msb) (divC.extractLsb' 64 64)
  | .remu => divC.extractLsb' 64 64
  | .divw => (negIf (a.getLsbD 31 ^^ b.getLsbD 31) (divC.extractLsb' 0 32)).signExtend 64
  | .divuw => (divC.extractLsb' 0 32).signExtend 64
  | .remw => (negIf (a.getLsbD 31 ^^ divC.getLsbD 95) (divC.extractLsb' 64 32)).signExtend 64
  | .remuw => (divC.extractLsb' 64 32).signExtend 64
  | _ => 0

/-- `c` of `divider_top` for a zero divisor. -/
def divZero (op : Op) (aIn : BitVec 64) : BitVec 64 :=
  match op with
  | .div | .divu | .divw | .divuw => BitVec.allOnes 64
  | .rem | .remu => aIn
  | .remw | .remuw => (aIn.extractLsb' 0 32).signExtend 64
  | _ => 0

/-- `c` of `divider_top`. -/
def DividerTop.c (divT : DividerTop) (op : Op) (aIn bIn : BitVec 64) : BitVec 64 :=
  if divT.divvalid op bIn then
    divResult op (divT.operand op bIn aIn divT.aStore) (divT.operand op bIn bIn divT.bStore)
      divT.div0.p
  else divZero op aIn

/-- The clock edge of `divider_top`. -/
def DividerTop.step (divT : DividerTop) (reset : Bool) (op : Op) (aIn bIn : BitVec 64) :
    DividerTop :=
  let valid := divT.divvalid op bIn
  -- a zero divisor clears both operands
  let arg (x : BitVec 64) : BitVec 64 := if valid then divOperand op x else 0
  { aStore := if reset then 0 else if valid && divT.inputInit then aIn else divT.aStore
    bStore := if reset then 0 else if valid && divT.inputInit then bIn else divT.bStore
    div0 := divT.div0.step reset valid
      (arg (divT.operand op bIn aIn divT.aStore)) (arg (divT.operand op bIn bIn divT.bStore)) }

/-! ## The multicycle unit -/

/-- The registers of the execute stage. -/
structure Multicycle where
  mulT : MultiplierTop
  divT : DividerTop
deriving DecidableEq, Repr

/-- `multi_c`. -/
def Multicycle.multiC (m : Multicycle) (op : Op) (a b : BitVec 64) : BitVec 64 :=
  if op = .mul ∨ op = .mulw then m.mulT.c op a b else m.divT.c op a b

/-- `doing` of `multicycle`. -/
def Multicycle.doing (m : Multicycle) (op : Op) (b : BitVec 64) : Bool :=
  !(m.mulT.done op && m.divT.done op b)

/-- The clock edge of `multicycle`. -/
def Multicycle.step (m : Multicycle) (reset : Bool) (op : Op) (a b : BitVec 64) : Multicycle where
  mulT := m.mulT.step reset op a b
  divT := m.divT.step reset op a b

/-! ## The execute stage -/

/-- Operand `b` of the ALU. -/
def DecodeData.srcB (dataD : DecodeData) (regdatab : BitVec 64) : BitVec 64 :=
  match dataD.instr.ctl.alusrc with
  | .rd2 => regdatab
  | .imm => dataD.instr.imm

/-- `aluout`: the multicycle result, the link of a jump, the sum of `auipc`, or
the ALU result `c`. -/
def DecodeData.aluout (dataD : DecodeData) (c multiC : BitVec 64) : BitVec 64 :=
  if dataD.instr.ctl.aluop = .aluMulticycle then multiC
  else
    match dataD.instr.ctl.bj with
    | .jJal | .iJalr => dataD.pcAndInstr.pcO + 4
    | .uAuipc => dataD.pcAndInstr.pcO + dataD.instr.imm
    | .nothing | .bBeq => c

/-- `dataE` for operands `a` and `regdatab` and the multicycle result. -/
def DecodeData.dataE (dataD : DecodeData) (a regdatab multiC : BitVec 64) : ExecuteData where
  pcO := dataD.pcAndInstr.pcO
  instr := dataD.instr
  aluout := dataD.aluout
    (alu a (dataD.srcB regdatab) dataD.instr.ctl.aluop dataD.instr.ctl.is32instr) multiC
  memwData := regdatab
  pcAndInstr := dataD.pcAndInstr
  csrCtl := dataD.csrCtl

end RiscvCpu
