import RiscvCpu.Pipes

/-!
# Decode

The decode stage: `decoder.sv`, `change_pcsrc.sv` and `decode.sv`.

The decoder is one nested case over opcode, `F3` and `F7`.  An arm that the
source leaves to a `default` clears every output, so here it is the zero
record.  Some arms check `F7` and some do not, as in the source.

The nets `op`, `F3` and `F7` of `decoder` are declared with an initialiser.
They are read here as continuous assignments.
-/

namespace RiscvCpu

/-! ## Fields and immediates of an instruction word -/

/-- `raw_instr[6:0]`. -/
def opOf (raw : BitVec 32) : BitVec 7 := raw.extractLsb' 0 7

/-- `raw_instr[14:12]`. -/
def f3Of (raw : BitVec 32) : BitVec 3 := raw.extractLsb' 12 3

/-- `raw_instr[31:25]`. -/
def f7Of (raw : BitVec 32) : BitVec 7 := raw.extractLsb' 25 7

/-- `raw_instr[19:15]`. -/
def ra1Of (raw : BitVec 32) : BitVec 5 := raw.extractLsb' 15 5

/-- `raw_instr[24:20]`. -/
def ra2Of (raw : BitVec 32) : BitVec 5 := raw.extractLsb' 20 5

/-- `raw_instr[11:7]`. -/
def writeregOf (raw : BitVec 32) : BitVec 5 := raw.extractLsb' 7 5

/-- The immediate of loads and register-immediate operations. -/
def immI (raw : BitVec 32) : BitVec 64 := (raw.extractLsb' 20 12).signExtend 64

/-- The immediate of stores. -/
def immS (raw : BitVec 32) : BitVec 64 :=
  (raw.extractLsb' 25 7 ++ raw.extractLsb' 7 5).signExtend 64

/-- The immediate of conditional branches. -/
def immB (raw : BitVec 32) : BitVec 64 :=
  (raw.extractLsb' 31 1 ++ raw.extractLsb' 7 1 ++ raw.extractLsb' 25 6 ++
    raw.extractLsb' 8 4 ++ 0#1).signExtend 64

/-- The immediate of `lui` and `auipc`. -/
def immU (raw : BitVec 32) : BitVec 64 := (raw.extractLsb' 12 20 ++ 0#12).signExtend 64

/-- The immediate of `jal`. -/
def immJ (raw : BitVec 32) : BitVec 64 :=
  (raw.extractLsb' 31 1 ++ raw.extractLsb' 12 8 ++ raw.extractLsb' 20 1 ++
    raw.extractLsb' 21 10 ++ 0#1).signExtend 64

/-- `{58'b0, F7[0], ra2}`: a six-bit shift amount. -/
def shamt6 (raw : BitVec 32) : BitVec 64 := (raw.extractLsb' 20 6).setWidth 64

/-- `{59'b0, ra2}`: a five-bit shift amount. -/
def shamt5 (raw : BitVec 32) : BitVec 64 := (ra2Of raw).setWidth 64

/-! ## Opcodes and function codes -/

def opAddi : BitVec 7 := 0b0010011#7
def opAdd : BitVec 7 := 0b0110011#7
def opJalr : BitVec 7 := 0b1100111#7
def opBeq : BitVec 7 := 0b1100011#7
def opLd : BitVec 7 := 0b0000011#7
def opSd : BitVec 7 := 0b0100011#7
def opLui : BitVec 7 := 0b0110111#7
def opAuipc : BitVec 7 := 0b0010111#7
def opJal : BitVec 7 := 0b1101111#7
def opAddiw : BitVec 7 := 0b0011011#7
def opAddw : BitVec 7 := 0b0111011#7
def opCsrrc : BitVec 7 := 0b1110011#7

/-- `F7_ADD` and its equals: the plain form. -/
def f7Add : BitVec 7 := 0b0000000#7

/-- `F7_SUB` and its equals: subtraction and arithmetic right shift. -/
def f7Sub : BitVec 7 := 0b0100000#7

/-- `F7_MUL` and its equals: multiplication and division. -/
def f7Mul : BitVec 7 := 0b0000001#7

/-- `F7_MRET`. -/
def f7Mret : BitVec 7 := 0b0011000#7

/-! ## The decoder -/

/-- The two outputs of `decoder`. -/
structure Decoded where
  instr : Instr
  csrCtl : CsrCtl
deriving DecidableEq, Repr

instance : Zero Decoded := ⟨⟨0, 0⟩⟩

/-- A register-immediate operation of the ALU. -/
def aluImm (raw : BitVec 32) (op : Op) (aluop : AluFunc) (imm : BitVec 64)
    (is32instr : Bool) : Decoded :=
  ⟨⟨op, ra1Of raw, 0, writeregOf raw, imm,
    { (0 : Control) with alusrc := .imm, aluop, is32instr, regwriteEn := true }⟩, 0⟩

/-- A register-register operation of the ALU or the multicycle unit. -/
def aluReg (raw : BitVec 32) (op : Op) (aluop : AluFunc) (is32instr : Bool) : Decoded :=
  ⟨⟨op, ra1Of raw, ra2Of raw, writeregOf raw, 0,
    { (0 : Control) with aluop, is32instr, regwriteEn := true }⟩, 0⟩

/-- The arm `OP_ADDI`. -/
def decodeAddi (raw : BitVec 32) : Decoded :=
  if f3Of raw = 0b000#3 then aluImm raw .addi .aluAdd (immI raw) false
  else if f3Of raw = 0b100#3 then aluImm raw .xori .aluXor (immI raw) false
  else if f3Of raw = 0b110#3 then aluImm raw .ori .aluOr (immI raw) false
  else if f3Of raw = 0b111#3 then aluImm raw .andi .aluAnd (immI raw) false
  else if f3Of raw = 0b010#3 then aluImm raw .slti .aluSlt (immI raw) false
  else if f3Of raw = 0b011#3 then aluImm raw .sltiu .aluSltu (immI raw) false
  else if f3Of raw = 0b001#3 then aluImm raw .slli .aluSll (shamt6 raw) false
  else
    -- `F3_SRLI`: bit 0 of `F7` belongs to the shift amount
    if (f7Of raw).extractLsb' 1 6 ++ 0#1 = f7Add then
      aluImm raw .srli .aluSrl (shamt6 raw) false
    else if (f7Of raw).extractLsb' 1 6 ++ 0#1 = f7Sub then
      aluImm raw .srai .aluSra (shamt6 raw) false
    else 0

/-- The arm `OP_ADD`.  The shifts and comparisons `SLL`, `SLT` and `SLTU` do not
check `F7`. -/
def decodeAdd (raw : BitVec 32) : Decoded :=
  if f3Of raw = 0b000#3 then
    if f7Of raw = f7Add then aluReg raw .add .aluAdd false
    else if f7Of raw = f7Sub then aluReg raw .sub .aluSub false
    else if f7Of raw = f7Mul then aluReg raw .mul .aluMulticycle false
    else 0
  else if f3Of raw = 0b111#3 then
    if f7Of raw = f7Add then aluReg raw .and .aluAnd false
    else if f7Of raw = f7Mul then aluReg raw .remu .aluMulticycle false
    else 0
  else if f3Of raw = 0b100#3 then
    if f7Of raw = f7Add then aluReg raw .xor .aluXor false
    else if f7Of raw = f7Mul then aluReg raw .div .aluMulticycle false
    else 0
  else if f3Of raw = 0b110#3 then
    if f7Of raw = f7Add then aluReg raw .or .aluOr false
    else if f7Of raw = f7Mul then aluReg raw .rem .aluMulticycle false
    else 0
  else if f3Of raw = 0b001#3 then aluReg raw .sll .aluSll false
  else if f3Of raw = 0b010#3 then aluReg raw .slt .aluSlt false
  else if f3Of raw = 0b011#3 then aluReg raw .sltu .aluSltu false
  else
    if f7Of raw = f7Add then aluReg raw .srl .aluSrl false
    else if f7Of raw = f7Sub then aluReg raw .sra .aluSra false
    else if f7Of raw = f7Mul then aluReg raw .divu .aluMulticycle false
    else 0

/-- The arm `OP_JALR`. -/
def decodeJalr (raw : BitVec 32) : Decoded :=
  ⟨⟨.jalr, ra1Of raw, 0, writeregOf raw, immI raw,
    { (0 : Control) with alusrc := .imm, bj := .iJalr, regwriteEn := true }⟩, 0⟩

/-- A conditional branch. -/
def branch (raw : BitVec 32) (op : Op) : Decoded :=
  ⟨⟨op, ra1Of raw, ra2Of raw, 0, immB raw,
    { (0 : Control) with alusrc := .imm, bj := .bBeq }⟩, 0⟩

/-- The arm `OP_BEQ`. -/
def decodeBeq (raw : BitVec 32) : Decoded :=
  if f3Of raw = 0b000#3 then branch raw .beq
  else if f3Of raw = 0b001#3 then branch raw .bne
  else if f3Of raw = 0b100#3 then branch raw .blt
  else if f3Of raw = 0b101#3 then branch raw .bge
  else if f3Of raw = 0b110#3 then branch raw .bltu
  else if f3Of raw = 0b111#3 then branch raw .bgeu
  else 0

/-- A load. -/
def load (raw : BitVec 32) (op : Op) (msize : Msize) (memUnsigned : Bool) : Decoded :=
  ⟨⟨op, ra1Of raw, 0, writeregOf raw, immI raw,
    { (0 : Control) with
      alusrc := .imm, memrEn := true, msize, memUnsigned, regwriteEn := true,
      writebackSrc := .memdata }⟩, 0⟩

/-- The arm `OP_LD`. -/
def decodeLd (raw : BitVec 32) : Decoded :=
  if f3Of raw = 0b011#3 then load raw .ld .msize8 false
  else if f3Of raw = 0b000#3 then load raw .lb .msize1 false
  else if f3Of raw = 0b001#3 then load raw .lh .msize2 false
  else if f3Of raw = 0b010#3 then load raw .lw .msize4 false
  else if f3Of raw = 0b100#3 then load raw .lbu .msize1 true
  else if f3Of raw = 0b101#3 then load raw .lhu .msize2 true
  else if f3Of raw = 0b110#3 then load raw .lwu .msize4 true
  else 0

/-- A store. -/
def store (raw : BitVec 32) (op : Op) (msize : Msize) : Decoded :=
  ⟨⟨op, ra1Of raw, ra2Of raw, 0, immS raw,
    { (0 : Control) with alusrc := .imm, memwEn := true, msize }⟩, 0⟩

/-- The arm `OP_SD`. -/
def decodeSd (raw : BitVec 32) : Decoded :=
  if f3Of raw = 0b000#3 then store raw .sb .msize1
  else if f3Of raw = 0b001#3 then store raw .sh .msize2
  else if f3Of raw = 0b010#3 then store raw .sw .msize4
  else if f3Of raw = 0b011#3 then store raw .sd .msize8
  else 0

/-- An operation on an upper immediate or a link: no source register. -/
def upper (raw : BitVec 32) (op : Op) (imm : BitVec 64) (bj : BranchOrJump) : Decoded :=
  ⟨⟨op, 0, 0, writeregOf raw, imm,
    { (0 : Control) with alusrc := .imm, bj, regwriteEn := true }⟩, 0⟩

/-- The arm `OP_LUI`. -/
def decodeLui (raw : BitVec 32) : Decoded := upper raw .lui (immU raw) .nothing

/-- The arm `OP_AUIPC`. -/
def decodeAuipc (raw : BitVec 32) : Decoded := upper raw .auipc (immU raw) .uAuipc

/-- The arm `OP_JAL`. -/
def decodeJal (raw : BitVec 32) : Decoded := upper raw .jal (immJ raw) .jJal

/-- The arm `OP_ADDIW`. -/
def decodeAddiw (raw : BitVec 32) : Decoded :=
  if f3Of raw = 0b000#3 then aluImm raw .addiw .aluAdd (immI raw) true
  else if f3Of raw = 0b001#3 then aluImm raw .slliw .aluSllw (shamt5 raw) true
  else if f3Of raw = 0b101#3 then
    if f7Of raw = f7Add then aluImm raw .srliw .aluSrlw (shamt5 raw) true
    else if f7Of raw = f7Sub then aluImm raw .sraiw .aluSraw (shamt5 raw) true
    else 0
  else 0

/-- The arm `OP_ADDW`.  `SLLW`, `DIVW`, `REMW` and `REMUW` do not check `F7`, and
`SRAW` is labelled `SRAIW`. -/
def decodeAddw (raw : BitVec 32) : Decoded :=
  if f3Of raw = 0b000#3 then
    if f7Of raw = f7Add then aluReg raw .addw .aluAdd true
    else if f7Of raw = f7Sub then aluReg raw .subw .aluSub true
    else if f7Of raw = f7Mul then aluReg raw .mulw .aluMulticycle true
    else 0
  else if f3Of raw = 0b001#3 then aluReg raw .sllw .aluSllw true
  else if f3Of raw = 0b100#3 then aluReg raw .divw .aluMulticycle true
  else if f3Of raw = 0b101#3 then
    if f7Of raw = f7Add then aluReg raw .srlw .aluSrlw true
    else if f7Of raw = f7Sub then aluReg raw .sraiw .aluSraw true
    else if f7Of raw = f7Mul then aluReg raw .divuw .aluMulticycle true
    else 0
  else if f3Of raw = 0b110#3 then aluReg raw .remw .aluMulticycle true
  else if f3Of raw = 0b111#3 then aluReg raw .remuw .aluMulticycle true
  else 0

/-- A CSR access with the source in a register (`zimm` zero) or in the
instruction word (`ra1` zero). -/
def csrAccess (raw : BitVec 32) (op : Op) (ra1 zimm : BitVec 5) : Decoded :=
  ⟨⟨op, ra1, 0, writeregOf raw, 0, { (0 : Control) with aluop := .aluCsr, regwriteEn := true }⟩,
    { (0 : CsrCtl) with csrWen := true, csrName := raw.extractLsb' 20 12, zimm }⟩

/-- An instruction that only acts on the CSR unit. -/
def csrSystem (raw : BitVec 32) (op : Op) (isExcept isMret : Bool) (exceptName : ExceptName) :
    Decoded :=
  ⟨⟨op, 0, 0, 0, 0, { (0 : Control) with aluop := .aluCsr }⟩,
    { (0 : CsrCtl) with
      csrWen := true, csrName := raw.extractLsb' 20 12, isExcept, isMret, exceptName }⟩

/-- The arm `OP_CSRRC`. -/
def decodeCsrrc (raw : BitVec 32) : Decoded :=
  if f3Of raw = 0b011#3 then csrAccess raw .csrrc (ra1Of raw) 0
  else if f3Of raw = 0b111#3 then csrAccess raw .csrrci 0 (ra1Of raw)
  else if f3Of raw = 0b010#3 then csrAccess raw .csrrs (ra1Of raw) 0
  else if f3Of raw = 0b110#3 then csrAccess raw .csrrsi 0 (ra1Of raw)
  else if f3Of raw = 0b001#3 then csrAccess raw .csrrw (ra1Of raw) 0
  else if f3Of raw = 0b101#3 then csrAccess raw .csrrwi 0 (ra1Of raw)
  else if f3Of raw = 0b000#3 then
    if f7Of raw = f7Add then csrSystem raw .ecall true false .eEcall
    else if f7Of raw = f7Mret then csrSystem raw .mret false true .eNoExcept
    else 0
  else 0

/-- `decoder`. -/
def decoder (raw : BitVec 32) : Decoded :=
  if opOf raw = opAddi then decodeAddi raw
  else if opOf raw = opAdd then decodeAdd raw
  else if opOf raw = opJalr then decodeJalr raw
  else if opOf raw = opBeq then decodeBeq raw
  else if opOf raw = opLd then decodeLd raw
  else if opOf raw = opSd then decodeSd raw
  else if opOf raw = opLui then decodeLui raw
  else if opOf raw = opAuipc then decodeAuipc raw
  else if opOf raw = opJal then decodeJal raw
  else if opOf raw = opAddiw then decodeAddiw raw
  else if opOf raw = opAddw then decodeAddw raw
  else if opOf raw = opCsrrc then decodeCsrrc raw
  else 0

/-- `0x5006b`: the word that ends a simulation.  It is no illegal instruction. -/
def simEnd : BitVec 32 := 0x5006b#32

/-! ## Branch resolution -/

/-- The direction `change_pcsrc` resolves. -/
def resolvePcsrc (op : Op) (rd1 rd2 : BitVec 64) : Pcsrc :=
  let jumpIf (b : Bool) : Pcsrc := if b then .pcjump else .pcplus4
  match op with
  | .jal => .pcjump
  | .jalr => .pcjump
  | .beq => jumpIf (rd1 == rd2)
  | .bne => jumpIf (rd1 != rd2)
  | .blt => jumpIf (rd1.slt rd2)
  | .bltu => jumpIf (rd1.ult rd2)
  | .bgeu => jumpIf (!rd1.ult rd2)
  | .bge => jumpIf (!rd1.slt rd2)
  | _ => .pcplus4

/-- `change_pcsrc`: direction and target of the instruction in decode.  The
target of `jalr` keeps bit 0. -/
def changePcsrc (pcO : BitVec 64) (instr : Instr) (rd1 rd2 : BitVec 64) : BpResult :=
  let pcsrc := resolvePcsrc instr.op rd1 rd2
  ⟨pcO,
    if pcsrc = .pcplus4 then pcO + 4
    else if instr.op ≠ .jalr then pcO + instr.imm
    else rd1 + instr.imm,
    pcsrc⟩

/-! ## The decode stage -/

/-- The word the decoder sees: nothing at a misaligned pc. -/
def FetchData.word (dataF : FetchData) : BitVec 32 :=
  if dataF.pcO.extractLsb' 0 2 = 0 then dataF.rawInstr else 0

/-- `dataD_instr`. -/
def FetchData.instr (dataF : FetchData) : Instr := (decoder dataF.word).instr

/-- `csr_ctl0`: the exception of a misaligned fetch or an illegal word, else
what the decoder asks for. -/
def FetchData.csrCtl (dataF : FetchData) : CsrCtl :=
  if dataF.pcO.extractLsb' 0 2 ≠ 0 then
    { (0 : CsrCtl) with isExcept := true, exceptName := .eInstrMisalign }
  else if dataF.instr.op = .undefined ∧ dataF.word ≠ 0 ∧ dataF.word ≠ simEnd then
    { (0 : CsrCtl) with isExcept := true, exceptName := .eInstrIllegal }
  else (decoder dataF.word).csrCtl

/-- `instr_commit` for resolved operands. -/
def FetchData.instrCommit (dataF : FetchData) (rd1 rd2 : BitVec 64) : BpResult :=
  changePcsrc dataF.pcO dataF.instr rd1 rd2

/-- `bp_hit`: the direction predicted at fetch is the resolved one. -/
def FetchData.bpHit (dataF : FetchData) (rd1 rd2 : BitVec 64) : Bool :=
  dataF.predictPcsrc == (dataF.instrCommit rd1 rd2).pcsrc

/-- `dataD`. -/
def FetchData.dataD (dataF : FetchData) (rd1 rd2 : BitVec 64) : DecodeData where
  pcsrc := (dataF.instrCommit rd1 rd2).pcsrc
  pcO := dataF.pcO
  instr := dataF.instr
  rd1 := rd1
  rd2 := rd2
  pcAndInstr := dataF
  csrCtl := dataF.csrCtl

end RiscvCpu
