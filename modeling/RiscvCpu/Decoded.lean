import RiscvCpu.Core

/-!
# What the decoder produces

Every decoded word has one of a few shapes (`DecodeShape`).  The facts the later
proofs need about control words are read off the shape.

A record keeps the fetched word it stands for, and its instruction and what it
asks of the CSR unit are functions of that word (`Core.Decoded`).
-/

namespace RiscvCpu

/-- Is the operation a multiplication or a division? -/
def Op.isMulDiv (op : Op) : Bool :=
  match op with
  | .mul | .div | .divu | .rem | .remu | .mulw | .divw | .divuw | .remw | .remuw => true
  | _ => false

/-- Is the operation an access to a CSR? -/
def Op.isCsr (op : Op) : Bool :=
  match op with
  | .csrrc | .csrrci | .csrrs | .csrrsi | .csrrw | .csrrwi => true
  | _ => false

/-! ## Shapes -/

/-- The shapes of a decoded word. -/
inductive DecodeShape (raw : BitVec 32) : Decoded → Prop where
| aluImm {op : Op} {aluop : AluFunc} {imm : BitVec 64} {w : Bool} :
  op ≠ .undefined →
  aluop ≠ .aluMulticycle →
  DecodeShape raw (aluImm raw op aluop imm w)
| aluReg {op : Op} {aluop : AluFunc} {w : Bool} :
  op ≠ .undefined →
  (aluop = .aluMulticycle ↔ op.isMulDiv = true) →
  DecodeShape raw (aluReg raw op aluop w)
| jalr : DecodeShape raw (decodeJalr raw)
| branch {op : Op} :
  op ≠ .undefined →
  DecodeShape raw (branch raw op)
| load {op : Op} {msize : Msize} {u : Bool} :
  op ≠ .undefined →
  DecodeShape raw (load raw op msize u)
| store {op : Op} {msize : Msize} :
  op ≠ .undefined →
  DecodeShape raw (store raw op msize)
| upper {op : Op} {imm : BitVec 64} {bj : BranchOrJump} :
  op ≠ .undefined →
  DecodeShape raw (upper raw op imm bj)
| csrAccess {op : Op} {ra1 zimm : BitVec 5} :
  op.isCsr = true →
  DecodeShape raw (csrAccess raw op ra1 zimm)
| ecall : DecodeShape raw (csrSystem raw .ecall true false .eEcall)
| mret : DecodeShape raw (csrSystem raw .mret false true .eNoExcept)
| none : DecodeShape raw 0

theorem DecodeShape.ite {raw : BitVec 32} {d e : Decoded} (p : Prop) [Decidable p]
    (hd : DecodeShape raw d) (he : DecodeShape raw e) :
    DecodeShape raw (if p then d else e) := by
  split
  · exact hd
  · exact he

theorem decodeAddi_shape (raw : BitVec 32) : DecodeShape raw (decodeAddi raw) := by
  unfold decodeAddi
  split_ifs <;> first | exact .none | exact .aluImm (by decide) (by decide)

theorem decodeAdd_shape (raw : BitVec 32) : DecodeShape raw (decodeAdd raw) := by
  unfold decodeAdd
  split_ifs <;> first | exact .none | exact .aluReg (by decide) (by decide)

theorem decodeBeq_shape (raw : BitVec 32) : DecodeShape raw (decodeBeq raw) := by
  unfold decodeBeq
  split_ifs <;> first | exact .none | exact .branch (by decide)

theorem decodeLd_shape (raw : BitVec 32) : DecodeShape raw (decodeLd raw) := by
  unfold decodeLd
  split_ifs <;> first | exact .none | exact .load (by decide)

theorem decodeSd_shape (raw : BitVec 32) : DecodeShape raw (decodeSd raw) := by
  unfold decodeSd
  split_ifs <;> first | exact .none | exact .store (by decide)

theorem decodeAddiw_shape (raw : BitVec 32) : DecodeShape raw (decodeAddiw raw) := by
  unfold decodeAddiw
  split_ifs <;> first | exact .none | exact .aluImm (by decide) (by decide)

theorem decodeAddw_shape (raw : BitVec 32) : DecodeShape raw (decodeAddw raw) := by
  unfold decodeAddw
  split_ifs <;> first | exact .none | exact .aluReg (by decide) (by decide)

theorem decodeCsrrc_shape (raw : BitVec 32) : DecodeShape raw (decodeCsrrc raw) := by
  unfold decodeCsrrc
  split_ifs <;> first | exact .none | exact .csrAccess rfl | exact .ecall | exact .mret

theorem decodeLui_shape (raw : BitVec 32) : DecodeShape raw (decodeLui raw) := .upper (by decide)

theorem decodeAuipc_shape (raw : BitVec 32) : DecodeShape raw (decodeAuipc raw) := .upper (by decide)

theorem decodeJal_shape (raw : BitVec 32) : DecodeShape raw (decodeJal raw) := .upper (by decide)

/-- Every word decodes to one of the shapes. -/
theorem decoder_shape (raw : BitVec 32) : DecodeShape raw (decoder raw) := by
  rw [decoder]
  refine .ite _ (decodeAddi_shape raw) ?_
  refine .ite _ (decodeAdd_shape raw) ?_
  refine .ite _ .jalr ?_
  refine .ite _ (decodeBeq_shape raw) ?_
  refine .ite _ (decodeLd_shape raw) ?_
  refine .ite _ (decodeSd_shape raw) ?_
  refine .ite _ (decodeLui_shape raw) ?_
  refine .ite _ (decodeAuipc_shape raw) ?_
  refine .ite _ (decodeJal_shape raw) ?_
  refine .ite _ (decodeAddiw_shape raw) ?_
  refine .ite _ (decodeAddw_shape raw) ?_
  exact .ite _ (decodeCsrrc_shape raw) .none

@[simp] theorem decoder_zero : decoder 0 = 0 := by decide

/-- The word is decoded to an access to a CSR. -/
def Decoded.IsCsrAccess (raw : BitVec 32) (d : Decoded) : Prop :=
  ∃ ra1 zimm, d = csrAccess raw d.instr.op ra1 zimm

theorem Decoded.isCsrAccess_ite {raw : BitVec 32} {p : Prop} [Decidable p] {d e : Decoded}
    (hd : d.instr.op.isCsr = true → d.IsCsrAccess raw)
    (he : e.instr.op.isCsr = true → e.IsCsrAccess raw)
    (h : (if p then d else e).instr.op.isCsr = true) : (if p then d else e).IsCsrAccess raw := by
  split at h
  · rw [if_pos ‹_›]
    exact hd h
  · rw [if_neg ‹_›]
    exact he h

theorem decoder_isCsr {raw : BitVec 32} :
    (decoder raw).instr.op.isCsr = true → (decoder raw).IsCsrAccess raw := by
  rw [decoder]
  repeat' first
    | exact fun h => Bool.noConfusion h
    | exact fun _ => ⟨_, _, rfl⟩
    | refine Decoded.isCsrAccess_ite ?_ ?_

/-- Multiplications and divisions ask for the multicycle unit. -/
theorem Decoded.isMulDiv_ite {p : Prop} [Decidable p] {d e : Decoded}
    (hd : d.instr.op.isMulDiv = true → d.instr.ctl.aluop = .aluMulticycle)
    (he : e.instr.op.isMulDiv = true → e.instr.ctl.aluop = .aluMulticycle)
    (h : (if p then d else e).instr.op.isMulDiv = true) :
    (if p then d else e).instr.ctl.aluop = .aluMulticycle := by
  split at h
  · rw [if_pos ‹_›]
    exact hd h
  · rw [if_neg ‹_›]
    exact he h

theorem decoder_isMulDiv {raw : BitVec 32} :
    (decoder raw).instr.op.isMulDiv = true →
      (decoder raw).instr.ctl.aluop = .aluMulticycle := by
  rw [decoder]
  repeat' first
    | exact fun h => Bool.noConfusion h
    | exact fun _ => rfl
    | refine Decoded.isMulDiv_ite ?_ ?_

/-! ## Facts about decoded words -/

section Facts

variable {raw : BitVec 32} {d : Decoded}

/-- The multicycle unit is asked for by multiplications and divisions alone. -/
theorem DecodeShape.multicycle_isMulDiv (h : DecodeShape raw d)
    (hm : d.instr.ctl.aluop = .aluMulticycle) : d.instr.op.isMulDiv = true := by
  cases h with
  | aluImm _ hne => exact absurd hm hne
  | aluReg _ hiff => exact hiff.mp hm
  | _ => cases hm

/-- The multicycle unit takes both operands from registers. -/
theorem DecodeShape.multicycle_alusrc (h : DecodeShape raw d)
    (hm : d.instr.ctl.aluop = .aluMulticycle) : d.instr.ctl.alusrc = .rd2 := by
  cases h with
  | aluImm _ hne => exact absurd hm hne
  | aluReg => rfl
  | _ => cases hm

/-- A load or store computes its address with the adder. -/
theorem DecodeShape.isMem_aluop (h : DecodeShape raw d) (hm : d.instr.ctl.isMem = true) :
    d.instr.ctl.aluop = .aluAdd := by
  cases h with
  | load => rfl
  | store => rfl
  | _ => cases hm

/-- A word without an operation decodes to nothing at all. -/
theorem DecodeShape.undefined (h : DecodeShape raw d) (hu : d.instr.op = .undefined) : d = 0 := by
  cases h with
  | none => rfl
  | aluImm hne => exact absurd hu hne
  | aluReg hne => exact absurd hu hne
  | branch hne => exact absurd hu hne
  | load hne => exact absurd hu hne
  | store hne => exact absurd hu hne
  | upper hne => exact absurd hu hne
  | csrAccess hcsr =>
    change _ = Op.undefined at hu
    subst hu
    cases hcsr
  | _ => cases hu

/-- A multiplication or division asks nothing of the CSR unit. -/
theorem DecodeShape.multicycle_csrCtl (h : DecodeShape raw d)
    (hm : d.instr.ctl.aluop = .aluMulticycle) : d.csrCtl = 0 := by
  cases h with
  | aluReg => rfl
  | aluImm => rfl
  | _ => cases hm

/-- A multiplication or division does not access memory. -/
theorem DecodeShape.multicycle_mem (h : DecodeShape raw d)
    (hm : d.instr.ctl.aluop = .aluMulticycle) :
    d.instr.ctl.memrEn = false ∧ d.instr.ctl.memwEn = false := by
  cases h with
  | aluReg => exact ⟨rfl, rfl⟩
  | aluImm => exact ⟨rfl, rfl⟩
  | _ => cases hm

/-- The only exception the decoder raises is that of `ecall`, which writes no
register. -/
theorem DecodeShape.isExcept_regwriteEn (h : DecodeShape raw d)
    (he : d.csrCtl.isExcept = true) : d.instr.ctl.regwriteEn = false := by
  cases h with
  | ecall => rfl
  | _ => cases he

/-- The decoder names an exception only where it raises one. -/
theorem DecodeShape.exceptName (h : DecodeShape raw d) (he : d.csrCtl.isExcept = false) :
    d.csrCtl.exceptName = .eNoExcept := by
  cases h with
  | ecall => cases he
  | _ => rfl

/-- A store writes no register. -/
theorem DecodeShape.memwEn_regwriteEn (h : DecodeShape raw d)
    (hw : d.instr.ctl.memwEn = true) : d.instr.ctl.regwriteEn = false := by
  cases h with
  | store => rfl
  | _ => cases hw

end Facts

end RiscvCpu
