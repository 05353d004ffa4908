import RiscvCpu.Common

/-!
# Pipeline structures

The types of `decode_pkg.sv` and `pipes.sv`: the operation and control words
the decoder produces, and the records held by the pipeline registers.  The
zero record of each type is the bubble the pipeline registers load on a flush.
-/

namespace RiscvCpu

/-! ## Operations and control words -/

/-- `alufunc_t`. -/
inductive AluFunc where
  | aluAdd
  | aluSub
  | aluAnd
  | aluOr
  | aluXor
  | aluSll
  | aluSllw
  | aluSra
  | aluSrl
  | aluSraw
  | aluSrlw
  | aluSlt
  | aluSltu
  | aluMulticycle
  | aluCsr
deriving DecidableEq, Repr

/-- `op_t`.  `undefined` is a bubble or an instruction the decoder does not
know. -/
inductive Op where
  | undefined
  | addi | xori | ori | andi | lui
  | jal | beq | ld | sd | add
  | sub | and | or | xor | auipc
  | jalr
  | bne | blt | bge | bltu | bgeu
  | slti | sltiu | slli | srli | srai
  | sll | slt | sltu | srl | sra
  | addiw | slliw | srliw | sraiw | addw
  | subw | sllw | srlw | sraw
  | lb | lh | lw | lbu | lhu
  | lwu | sb | sh | sw
  | mul | div | divu | rem | remu
  | mulw | divw | divuw | remw | remuw
  | csrrc | csrrci | csrrs | csrrsi | csrrw
  | csrrwi | ecall | mret
deriving DecidableEq, Repr

/-- `pcsrc_t`: fall through or jump. -/
inductive Pcsrc where
  | pcplus4
  | pcjump
deriving DecidableEq, Repr

/-- `writeback_src_t`. -/
inductive WritebackSrc where
  | aluresult
  | memdata
deriving DecidableEq, Repr

/-- `branchorjump_t`. -/
inductive BranchOrJump where
  | nothing
  | bBeq
  | jJal
  | iJalr
  | uAuipc
deriving DecidableEq, Repr

/-- `alusrc_t`. -/
inductive Alusrc where
  | rd2
  | imm
deriving DecidableEq, Repr

/-- `except_name_t`. -/
inductive ExceptName where
  | eNoExcept
  | eInstrMisalign
  | eInstrIllegal
  | eEcall
  | eLdMisalign
  | eSdMisalign
deriving DecidableEq, Repr

/-- `control_t`. -/
structure Control where
  alusrc : Alusrc
  aluop : AluFunc
  bj : BranchOrJump
  is32instr : Bool
  memrEn : Bool
  memwEn : Bool
  msize : Msize
  memUnsigned : Bool
  regwriteEn : Bool
  writebackSrc : WritebackSrc
deriving DecidableEq, Repr

instance : Zero Control :=
  ⟨⟨.rd2, .aluAdd, .nothing, false, false, false, .msize1, false, false, .aluresult⟩⟩

/-- Does the control word drive a load or a store? -/
def Control.isMem (ctl : Control) : Bool := ctl.memrEn || ctl.memwEn

/-- `instr_t`: a decoded instruction. -/
structure Instr where
  op : Op
  ra1 : BitVec 5
  ra2 : BitVec 5
  writereg : BitVec 5
  imm : BitVec 64
  ctl : Control
deriving DecidableEq, Repr

instance : Zero Instr := ⟨⟨.undefined, 0, 0, 0, 0, 0⟩⟩

/-- `csr_ctl_t`: what an instruction asks of the CSR unit. -/
structure CsrCtl where
  isExcept : Bool
  csrWen : Bool
  isMret : Bool
  zimm : BitVec 5
  csrName : BitVec 12
  exceptName : ExceptName
deriving DecidableEq, Repr

instance : Zero CsrCtl := ⟨⟨false, false, false, 0, 0, .eNoExcept⟩⟩

/-! ## Pipeline records -/

/-- `fetch_data_t`. -/
structure FetchData where
  pcO : BitVec 64
  rawInstr : BitVec 32
  predictPcsrc : Pcsrc
deriving DecidableEq, Repr

instance : Zero FetchData := ⟨⟨0, 0, .pcplus4⟩⟩

/-- `decode_data_t`. -/
structure DecodeData where
  pcsrc : Pcsrc
  pcO : BitVec 64
  instr : Instr
  rd1 : BitVec 64
  rd2 : BitVec 64
  pcAndInstr : FetchData
  csrCtl : CsrCtl
deriving DecidableEq, Repr

instance : Zero DecodeData := ⟨⟨.pcplus4, 0, 0, 0, 0, 0, 0⟩⟩

/-- `execute_data_t`. -/
structure ExecuteData where
  pcO : BitVec 64
  instr : Instr
  aluout : BitVec 64
  memwData : BitVec 64
  pcAndInstr : FetchData
  csrCtl : CsrCtl
deriving DecidableEq, Repr

instance : Zero ExecuteData := ⟨⟨0, 0, 0, 0, 0, 0⟩⟩

/-- `memory_data_t`. -/
structure MemoryData where
  pcO : BitVec 64
  instr : Instr
  aluout : BitVec 64
  memrData : BitVec 64
  pcAndInstr : FetchData
  csrCtl : CsrCtl
  formattedMemwData : BitVec 64
  strobe : BitVec 8
deriving DecidableEq, Repr

instance : Zero MemoryData := ⟨⟨0, 0, 0, 0, 0, 0, 0, 0⟩⟩

/-- `writeback_data_t`. -/
structure WritebackData where
  writereg : BitVec 5
  writeData : BitVec 64
  regwriteEn : Bool
deriving DecidableEq, Repr

/-! ## Control between the stages -/

/-- `csr_write_to_reg_t`. -/
structure CsrWriteToReg where
  csrWriteToRegEn : Bool
  csrWriteToRegData : BitVec 64
deriving DecidableEq, Repr

instance : Zero CsrWriteToReg := ⟨⟨false, 0⟩⟩

/-- `csr_pc_nxt_t`: the redirect of the CSR unit. -/
structure CsrPcNxt where
  csrPcValid : Bool
  pcNxt : BitVec 64
deriving DecidableEq, Repr

/-- `regflush_en_t`. -/
structure RegflushEn where
  fd : Bool
  de : Bool
  em : Bool
  mw : Bool
deriving DecidableEq, Repr

/-- `regstall_en_t`. -/
structure RegstallEn where
  pc : Bool
  fd : Bool
  de : Bool
  em : Bool
  mw : Bool
deriving DecidableEq, Repr

/-- `forward_type_t`. -/
inductive ForwardType where
  | noforward
  | forwardM
  | forwardW
  | forwardM1
deriving DecidableEq, Repr

/-- `bp_result_t`. -/
structure BpResult where
  pc : BitVec 64
  targetPc : BitVec 64
  pcsrc : Pcsrc
deriving DecidableEq, Repr

/-- `multicycle_state_t`. -/
inductive MulticycleState where
  | init
  | doing
deriving DecidableEq, Repr

/-! ## Pipeline registers -/

/-- `pipereg`: one pipeline register.  A stall wins over a flush. -/
def pipereg {α : Type} [Zero α] (reset flushEn en : Bool) (inp out : α) : α :=
  if reset then 0
  else if !en then out
  else if flushEn then 0
  else inp

section Pipereg

variable {α : Type} [Zero α] {flushEn : Bool} {inp out : α}

@[simp] theorem pipereg_reset {en : Bool} : pipereg true flushEn en inp out = 0 := rfl

@[simp] theorem pipereg_stall : pipereg false flushEn false inp out = out := rfl

@[simp] theorem pipereg_flush : pipereg false true true inp out = 0 := rfl

@[simp] theorem pipereg_load : pipereg false false true inp out = inp := rfl

end Pipereg

end RiscvCpu
