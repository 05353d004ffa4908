import RiscvCpu.Decoded
import RiscvCpu.Isa

/-!
# The decoder against the instruction set

Every word that encodes an operation is decoded to the control word of the operation
(`decoder_of_encodes`).  The converse holds but for the arms of the decoder that leave
part of `funct7`, `funct3` or a whole SYSTEM word unchecked: there a reserved word runs
as its neighbour.
-/

namespace RiscvCpu

/-! ## Control words -/

/-- The control word of an operation. -/
def Op.control (op : Op) (w : BitVec 32) : Decoded :=
  match op with
  | .undefined => 0
  | .lui => decodeLui w
  | .auipc => decodeAuipc w
  | .jal => decodeJal w
  | .jalr => decodeJalr w
  | .beq | .bne | .blt | .bge | .bltu | .bgeu => branch w op
  | .lb => load w op .msize1 false
  | .lh => load w op .msize2 false
  | .lw => load w op .msize4 false
  | .ld => load w op .msize8 false
  | .lbu => load w op .msize1 true
  | .lhu => load w op .msize2 true
  | .lwu => load w op .msize4 true
  | .sb => store w op .msize1
  | .sh => store w op .msize2
  | .sw => store w op .msize4
  | .sd => store w op .msize8
  | .addi => aluImm w op .aluAdd (immI w) false
  | .slti => aluImm w op .aluSlt (immI w) false
  | .sltiu => aluImm w op .aluSltu (immI w) false
  | .xori => aluImm w op .aluXor (immI w) false
  | .ori => aluImm w op .aluOr (immI w) false
  | .andi => aluImm w op .aluAnd (immI w) false
  | .slli => aluImm w op .aluSll (shamt6 w) false
  | .srli => aluImm w op .aluSrl (shamt6 w) false
  | .srai => aluImm w op .aluSra (shamt6 w) false
  | .add => aluReg w op .aluAdd false
  | .sub => aluReg w op .aluSub false
  | .sll => aluReg w op .aluSll false
  | .slt => aluReg w op .aluSlt false
  | .sltu => aluReg w op .aluSltu false
  | .xor => aluReg w op .aluXor false
  | .srl => aluReg w op .aluSrl false
  | .sra => aluReg w op .aluSra false
  | .or => aluReg w op .aluOr false
  | .and => aluReg w op .aluAnd false
  | .mul | .div | .divu | .rem | .remu => aluReg w op .aluMulticycle false
  | .addiw => aluImm w op .aluAdd (immI w) true
  | .slliw => aluImm w op .aluSllw (shamt5 w) true
  | .srliw => aluImm w op .aluSrlw (shamt5 w) true
  | .sraiw => aluImm w op .aluSraw (shamt5 w) true
  | .addw => aluReg w op .aluAdd true
  | .subw => aluReg w op .aluSub true
  | .sllw => aluReg w op .aluSllw true
  | .srlw => aluReg w op .aluSrlw true
  -- the label of `sraw` is that of its immediate form
  | .sraw => aluReg w .sraiw .aluSraw true
  | .mulw | .divw | .divuw | .remw | .remuw => aluReg w op .aluMulticycle true
  | .csrrw | .csrrs | .csrrc => csrAccess w op (ra1Of w) 0
  | .csrrwi | .csrrsi | .csrrci => csrAccess w op 0 (ra1Of w)
  | .ecall => csrSystem w op true false .eEcall
  | .mret => csrSystem w op false true .eNoExcept

/-- The operation an arithmetic control word carries out. -/
def Control.aluOperation (ctl : Control) : Op :=
  match ctl.aluop, ctl.alusrc, ctl.is32instr with
  | .aluAdd, .rd2, false => .add
  | .aluSub, .rd2, false => .sub
  | .aluAnd, .rd2, false => .and
  | .aluOr, .rd2, false => .or
  | .aluXor, .rd2, false => .xor
  | .aluSll, .rd2, false => .sll
  | .aluSra, .rd2, false => .sra
  | .aluSrl, .rd2, false => .srl
  | .aluSlt, .rd2, false => .slt
  | .aluSltu, .rd2, false => .sltu
  | .aluAdd, .imm, false => .addi
  | .aluAnd, .imm, false => .andi
  | .aluOr, .imm, false => .ori
  | .aluXor, .imm, false => .xori
  | .aluSll, .imm, false => .slli
  | .aluSra, .imm, false => .srai
  | .aluSrl, .imm, false => .srli
  | .aluSlt, .imm, false => .slti
  | .aluSltu, .imm, false => .sltiu
  | .aluAdd, .rd2, true => .addw
  | .aluSub, .rd2, true => .subw
  | .aluSllw, .rd2, true => .sllw
  | .aluSraw, .rd2, true => .sraw
  | .aluSrlw, .rd2, true => .srlw
  | .aluAdd, .imm, true => .addiw
  | .aluSllw, .imm, true => .slliw
  | .aluSraw, .imm, true => .sraiw
  | .aluSrlw, .imm, true => .srliw
  | _, _, _ => .undefined

/-- The load a control word carries out. -/
def Control.loadOperation (ctl : Control) : Op :=
  match ctl.msize, ctl.memUnsigned with
  | .msize1, false => .lb
  | .msize2, false => .lh
  | .msize4, false => .lw
  | .msize8, _ => .ld
  | .msize1, true => .lbu
  | .msize2, true => .lhu
  | .msize4, true => .lwu

/-- The store a control word carries out. -/
def Control.storeOperation (ctl : Control) : Op :=
  match ctl.msize with
  | .msize1 => .sb
  | .msize2 => .sh
  | .msize4 => .sw
  | .msize8 => .sd

/-- The operation a control word carries out.  The label `op` is read where the stages
behind decode read it: for branches, the multicycle unit and the CSR unit.  `lui` is an
addition to register zero, told from `addi` by its label. -/
def Decoded.operation (d : Decoded) : Op :=
  match d.instr.ctl.bj with
  | .jJal => .jal
  | .iJalr => .jalr
  | .uAuipc => .auipc
  | .bBeq => d.instr.op
  | .nothing =>
    if d.instr.ctl.memrEn then d.instr.ctl.loadOperation
    else if d.instr.ctl.memwEn then d.instr.ctl.storeOperation
    else if d.instr.ctl.aluop = .aluMulticycle ∨ d.instr.ctl.aluop = .aluCsr then d.instr.op
    else if d.instr.op = .lui then .lui
    else if d.instr.ctl.regwriteEn then d.instr.ctl.aluOperation
    else .undefined

theorem Op.operation_control (op : Op) (w : BitVec 32) : (op.control w).operation = op := by
  cases op <;> rfl

/-! ## Encoded words -/

theorem f7Of_upper {w : BitVec 32} {x : BitVec 6} (h : w.extractLsb' 26 6 = x) :
    (f7Of w).extractLsb' 1 6 = x := by
  rw [← h, f7Of]
  refine BitVec.eq_of_getLsbD_eq fun i hi => ?_
  simp only [BitVec.getLsbD_extractLsb', hi, decide_true, Bool.true_and]
  rw [decide_eq_true (by omega), Bool.true_and, ← Nat.add_assoc]

/-- A word that encodes an operation is decoded to its control word. -/
theorem decoder_of_encodes {op : Op} {w : BitVec 32} (h : Isa.Encodes op w) :
    decoder w = op.control w := by
  cases op with
  | undefined => exact h.elim
  | ecall =>
    obtain rfl : w = 0x00000073#32 := h
    rfl
  | mret =>
    obtain rfl : w = 0x30200073#32 := h
    rfl
  | lui =>
    have ho : opOf w = 0b0110111#7 := h
    simp [decoder, ho, opAddi, opAdd, opJalr, opBeq, opLd, opSd, opLui, Op.control]
  | auipc =>
    have ho : opOf w = 0b0010111#7 := h
    simp [decoder, ho, opAddi, opAdd, opJalr, opBeq, opLd, opSd, opLui, opAuipc, Op.control]
  | jal =>
    have ho : opOf w = 0b1101111#7 := h
    simp [decoder, ho, opAddi, opAdd, opJalr, opBeq, opLd, opSd, opLui, opAuipc, opJal, Op.control]
  | slli | srli | srai =>
    obtain ⟨ho, h3, h6⟩ := h
    simp [decoder, ho, h3, f7Of_upper h6, opAddi, decodeAddi, f7Add, f7Sub, Op.control]
  | jalr | beq | bne | blt | bge | bltu | bgeu | lb | lh | lw | ld | lbu | lhu | lwu | sb | sh
  | sw | sd | addi | slti | sltiu | xori | ori | andi | addiw | csrrw | csrrs | csrrc | csrrwi
  | csrrsi | csrrci =>
    obtain ⟨ho, h3⟩ := h
    simp [decoder, ho, h3, opAddi, opAdd, opJalr, opBeq, opLd, opSd, opLui, opAuipc, opJal,
      opAddiw, opAddw, opCsrrc, decodeAddi, decodeBeq, decodeLd, decodeSd, decodeAddiw,
      decodeCsrrc, Op.control]
  | _ =>
    obtain ⟨ho, h3, h7⟩ := h
    simp [decoder, ho, h3, h7, opAddi, opAdd, opJalr, opBeq, opLd, opSd, opLui, opAuipc, opJal,
      opAddiw, opAddw, decodeAdd, decodeAddiw, decodeAddw, f7Add, f7Sub, f7Mul, Op.control]

/-! ## Decoded words -/

/-- The reserved words of the arms that leave a field unchecked: `SLLI`, `SLLIW`, `SLLW`,
`SLL`, `SLT`, `SLTU`, `DIVW`, `REMW` and `REMUW` do not check `funct7`, `JALR` does not
check `funct3`, and `ECALL` and `MRET` check `funct7` alone. -/
def Unchecked (w : BitVec 32) : Prop :=
  opOf w = opAddi ∧ f3Of w = 0b001#3 ∧ w.extractLsb' 26 6 ≠ 0 ∨
  opOf w = opAdd ∧ (f3Of w = 0b001#3 ∨ f3Of w = 0b010#3 ∨ f3Of w = 0b011#3) ∧ f7Of w ≠ f7Add ∨
  opOf w = opJalr ∧ f3Of w ≠ 0 ∨
  opOf w = opAddiw ∧ f3Of w = 0b001#3 ∧ f7Of w ≠ f7Add ∨
  opOf w = opAddw ∧
    (f3Of w = 0b001#3 ∧ f7Of w ≠ f7Add ∨
      (f3Of w = 0b100#3 ∨ f3Of w = 0b110#3 ∨ f3Of w = 0b111#3) ∧ f7Of w ≠ f7Mul) ∨
  opOf w = opCsrrc ∧ f3Of w = 0b000#3 ∧
    (f7Of w = f7Add ∧ w ≠ 0x00000073#32 ∨ f7Of w = f7Mret ∧ w ≠ 0x30200073#32)

instance uncheckedDecidable (w : BitVec 32) : Decidable (Unchecked w) :=
  inferInstanceAs (Decidable (_ ∨ _))

/-- The unchecked words encode nothing. -/
theorem Isa.Encodes.checked {op : Op} {w : BitVec 32} (h : Isa.Encodes op w) : ¬Unchecked w := by
  cases op with
  | undefined => exact h.elim
  | ecall =>
    obtain rfl : w = 0x00000073#32 := h
    decide
  | mret =>
    obtain rfl : w = 0x30200073#32 := h
    decide
  | lui | auipc | jal =>
    have ho : opOf w = _ := h
    simp [Unchecked, ho, opAddi, opAdd, opJalr, opAddiw, opAddw, opCsrrc]
  | slli | srli | srai =>
    obtain ⟨ho, h3, h6⟩ := h
    simp [Unchecked, ho, h3, h6, opAddi, opAdd, opJalr, opAddiw, opAddw, opCsrrc]
  | jalr | beq | bne | blt | bge | bltu | bgeu | lb | lh | lw | ld | lbu | lhu | lwu | sb | sh
  | sw | sd | addi | slti | sltiu | xori | ori | andi | addiw | csrrw | csrrs | csrrc | csrrwi
  | csrrsi | csrrci =>
    obtain ⟨ho, h3⟩ := h
    simp [Unchecked, ho, h3, opAddi, opAdd, opJalr, opAddiw, opAddw, opCsrrc]
  | _ =>
    obtain ⟨ho, h3, h7⟩ := h
    simp [Unchecked, ho, h3, h7, opAddi, opAdd, opJalr, opAddiw, opAddw, opCsrrc, f7Add, f7Mul]
section Arms

variable {w : BitVec 32}

theorem upper_of_f7Of {x : BitVec 6} (h : (f7Of w).extractLsb' 1 6 ++ 0#1 = x ++ 0#1) :
    w.extractLsb' 26 6 = x := by
  have hx := congrArg (fun v => BitVec.extractLsb' 1 6 v) h
  simp only [BitVec.extractLsb'_append_eq_left] at hx
  rw [← hx, f7Of_upper rfl]

/-- What is left of `F3` in the last arm of `OP_ADDI` and `OP_ADD`. -/
theorem f3Of_last {x : BitVec 3} (h0 : x ≠ 0b000#3) (h1 : x ≠ 0b001#3) (h2 : x ≠ 0b010#3)
    (h3 : x ≠ 0b011#3) (h4 : x ≠ 0b100#3) (h6 : x ≠ 0b110#3) (h7 : x ≠ 0b111#3) :
    x = 0b101#3 := by
  bv_omega

theorem decodeAddi_encodes (ho : opOf w = opAddi) (hd : decodeAddi w ≠ 0) (hu : ¬Unchecked w) :
    ∃ op, Isa.Encodes op w := by
  unfold decodeAddi at hd
  split_ifs at hd with h0 h4 h6 h7 h2 h3 h1 hl ha
  · exact ⟨.addi, ho, h0⟩
  · exact ⟨.xori, ho, h4⟩
  · exact ⟨.ori, ho, h6⟩
  · exact ⟨.andi, ho, h7⟩
  · exact ⟨.slti, ho, h2⟩
  · exact ⟨.sltiu, ho, h3⟩
  · exact ⟨.slli, ho, h1, by_contra fun hne => hu (.inl ⟨ho, h1, hne⟩)⟩
  · exact ⟨.srli, ho, f3Of_last h0 h1 h2 h3 h4 h6 h7, upper_of_f7Of hl⟩
  · exact ⟨.srai, ho, f3Of_last h0 h1 h2 h3 h4 h6 h7, upper_of_f7Of ha⟩
  · exact absurd rfl hd

theorem decodeAdd_encodes (ho : opOf w = opAdd) (hd : decodeAdd w ≠ 0) (hu : ¬Unchecked w) :
    ∃ op, Isa.Encodes op w := by
  have hchecked : f3Of w = 0b001#3 ∨ f3Of w = 0b010#3 ∨ f3Of w = 0b011#3 → f7Of w = f7Add :=
    fun h => by_contra fun hne => hu (.inr (.inl ⟨ho, h, hne⟩))
  unfold decodeAdd at hd
  split_ifs at hd with h0 ha hs hm h7 ha hm h4 ha hm h6 ha hm h1 h2 h3 ha hs hm
  · exact ⟨.add, ho, h0, ha⟩
  · exact ⟨.sub, ho, h0, hs⟩
  · exact ⟨.mul, ho, h0, hm⟩
  · exact absurd rfl hd
  · exact ⟨.and, ho, h7, ha⟩
  · exact ⟨.remu, ho, h7, hm⟩
  · exact absurd rfl hd
  · exact ⟨.xor, ho, h4, ha⟩
  · exact ⟨.div, ho, h4, hm⟩
  · exact absurd rfl hd
  · exact ⟨.or, ho, h6, ha⟩
  · exact ⟨.rem, ho, h6, hm⟩
  · exact absurd rfl hd
  · exact ⟨.sll, ho, h1, hchecked (.inl h1)⟩
  · exact ⟨.slt, ho, h2, hchecked (.inr (.inl h2))⟩
  · exact ⟨.sltu, ho, h3, hchecked (.inr (.inr h3))⟩
  · exact ⟨.srl, ho, f3Of_last h0 h1 h2 h3 h4 h6 h7, ha⟩
  · exact ⟨.sra, ho, f3Of_last h0 h1 h2 h3 h4 h6 h7, hs⟩
  · exact ⟨.divu, ho, f3Of_last h0 h1 h2 h3 h4 h6 h7, hm⟩
  · exact absurd rfl hd

theorem decodeBeq_encodes (ho : opOf w = opBeq) (hd : decodeBeq w ≠ 0) :
    ∃ op, Isa.Encodes op w := by
  unfold decodeBeq at hd
  split_ifs at hd with h0 h1 h4 h5 h6 h7
  · exact ⟨.beq, ho, h0⟩
  · exact ⟨.bne, ho, h1⟩
  · exact ⟨.blt, ho, h4⟩
  · exact ⟨.bge, ho, h5⟩
  · exact ⟨.bltu, ho, h6⟩
  · exact ⟨.bgeu, ho, h7⟩
  · exact absurd rfl hd

theorem decodeLd_encodes (ho : opOf w = opLd) (hd : decodeLd w ≠ 0) :
    ∃ op, Isa.Encodes op w := by
  unfold decodeLd at hd
  split_ifs at hd with h3 h0 h1 h2 h4 h5 h6
  · exact ⟨.ld, ho, h3⟩
  · exact ⟨.lb, ho, h0⟩
  · exact ⟨.lh, ho, h1⟩
  · exact ⟨.lw, ho, h2⟩
  · exact ⟨.lbu, ho, h4⟩
  · exact ⟨.lhu, ho, h5⟩
  · exact ⟨.lwu, ho, h6⟩
  · exact absurd rfl hd

theorem decodeSd_encodes (ho : opOf w = opSd) (hd : decodeSd w ≠ 0) :
    ∃ op, Isa.Encodes op w := by
  unfold decodeSd at hd
  split_ifs at hd with h0 h1 h2 h3
  · exact ⟨.sb, ho, h0⟩
  · exact ⟨.sh, ho, h1⟩
  · exact ⟨.sw, ho, h2⟩
  · exact ⟨.sd, ho, h3⟩
  · exact absurd rfl hd

theorem decodeAddiw_encodes (ho : opOf w = opAddiw) (hd : decodeAddiw w ≠ 0)
    (hu : ¬Unchecked w) : ∃ op, Isa.Encodes op w := by
  unfold decodeAddiw at hd
  split_ifs at hd with h0 h1 h5 hl ha
  · exact ⟨.addiw, ho, h0⟩
  · exact ⟨.slliw, ho, h1, by_contra fun hne => hu (.inr (.inr (.inr (.inl ⟨ho, h1, hne⟩))))⟩
  · exact ⟨.srliw, ho, h5, hl⟩
  · exact ⟨.sraiw, ho, h5, ha⟩
  · exact absurd rfl hd
  · exact absurd rfl hd

theorem decodeAddw_encodes (ho : opOf w = opAddw) (hd : decodeAddw w ≠ 0) (hu : ¬Unchecked w) :
    ∃ op, Isa.Encodes op w := by
  have hshift : f3Of w = 0b001#3 → f7Of w = f7Add := fun h =>
    by_contra fun hne => hu (.inr (.inr (.inr (.inr (.inl ⟨ho, .inl ⟨h, hne⟩⟩)))))
  have hdiv : f3Of w = 0b100#3 ∨ f3Of w = 0b110#3 ∨ f3Of w = 0b111#3 → f7Of w = f7Mul := fun h =>
    by_contra fun hne => hu (.inr (.inr (.inr (.inr (.inl ⟨ho, .inr ⟨h, hne⟩⟩)))))
  unfold decodeAddw at hd
  split_ifs at hd with h0 ha hs hm h1 h4 h5 ha hs hm h6 h7
  · exact ⟨.addw, ho, h0, ha⟩
  · exact ⟨.subw, ho, h0, hs⟩
  · exact ⟨.mulw, ho, h0, hm⟩
  · exact absurd rfl hd
  · exact ⟨.sllw, ho, h1, hshift h1⟩
  · exact ⟨.divw, ho, h4, hdiv (.inl h4)⟩
  · exact ⟨.srlw, ho, h5, ha⟩
  · exact ⟨.sraw, ho, h5, hs⟩
  · exact ⟨.divuw, ho, h5, hm⟩
  · exact absurd rfl hd
  · exact ⟨.remw, ho, h6, hdiv (.inr (.inl h6))⟩
  · exact ⟨.remuw, ho, h7, hdiv (.inr (.inr h7))⟩
  · exact absurd rfl hd

theorem decodeCsrrc_encodes (ho : opOf w = opCsrrc) (hd : decodeCsrrc w ≠ 0)
    (hu : ¬Unchecked w) : ∃ op, Isa.Encodes op w := by
  unfold decodeCsrrc at hd
  split_ifs at hd with h3 h7 h2 h6 h1 h5 h0 he hm
  · exact ⟨.csrrc, ho, h3⟩
  · exact ⟨.csrrci, ho, h7⟩
  · exact ⟨.csrrs, ho, h2⟩
  · exact ⟨.csrrsi, ho, h6⟩
  · exact ⟨.csrrw, ho, h1⟩
  · exact ⟨.csrrwi, ho, h5⟩
  · refine ⟨.ecall, by_contra fun hne => hu ?_⟩
    exact .inr (.inr (.inr (.inr (.inr ⟨ho, h0, .inl ⟨he, hne⟩⟩))))
  · refine ⟨.mret, by_contra fun hne => hu ?_⟩
    exact .inr (.inr (.inr (.inr (.inr ⟨ho, h0, .inr ⟨hm, hne⟩⟩))))
  · exact absurd rfl hd
  · exact absurd rfl hd

/-- One arm of a nested case. -/
theorem arm {p Q : Prop} [Decidable p] {d e : Decoded} (hd : p → d ≠ 0 → Q) (he : e ≠ 0 → Q)
    (h : (if p then d else e) ≠ 0) : Q := by
  split at h
  · rename_i hp
    exact hd hp h
  · exact he h

/-- A decoded word encodes an operation, but for the unchecked ones. -/
theorem encodes_of_decoder (hd : decoder w ≠ 0) (hu : ¬Unchecked w) : ∃ op, Isa.Encodes op w := by
  revert hd
  refine arm (fun ho hd => decodeAddi_encodes ho hd hu) ?_
  refine arm (fun ho hd => decodeAdd_encodes ho hd hu) ?_
  refine arm (fun ho _ => ⟨.jalr, ho, ?_⟩) ?_
  · exact by_contra fun hne => hu (.inr (.inr (.inl ⟨ho, hne⟩)))
  refine arm (fun ho hd => decodeBeq_encodes ho hd) ?_
  refine arm (fun ho hd => decodeLd_encodes ho hd) ?_
  refine arm (fun ho hd => decodeSd_encodes ho hd) ?_
  refine arm (fun ho _ => ⟨.lui, ho⟩) ?_
  refine arm (fun ho _ => ⟨.auipc, ho⟩) ?_
  refine arm (fun ho _ => ⟨.jal, ho⟩) ?_
  refine arm (fun ho hd => decodeAddiw_encodes ho hd hu) ?_
  refine arm (fun ho hd => decodeAddw_encodes ho hd hu) ?_
  exact arm (fun ho hd => decodeCsrrc_encodes ho hd hu) fun hd => absurd rfl hd

end Arms

/-! ## The decode stage -/

/-- Decode marks the word as an illegal instruction. -/
def FetchData.Illegal (d : FetchData) : Prop :=
  d.csrCtl.isExcept = true ∧ d.csrCtl.exceptName = .eInstrIllegal

/-- At an aligned pc a word that is none of the unchecked ones is decoded to an
operation it encodes, or to none.  A word that encodes nothing is marked as illegal,
but for the bubble and the end marker. -/
theorem decode_labels (d : FetchData) (hpc : d.pcO.extractLsb' 0 2 = 0)
    (hu : ¬Unchecked d.rawInstr) :
    (d.instr.op ≠ .undefined →
      Isa.Encodes (decoder d.rawInstr).operation d.rawInstr) ∧
    ((∀ op, ¬Isa.Encodes op d.rawInstr) → d.rawInstr ≠ 0 → d.rawInstr ≠ simEnd → d.Illegal) := by
  have hword : d.word = d.rawInstr := if_pos hpc
  have hinstr : d.instr = (decoder d.rawInstr).instr := by
    rw [FetchData.instr, hword]
  refine ⟨fun hop => ?_, fun hnone h0 hend => ?_⟩
  · have hne : decoder d.rawInstr ≠ 0 := by
      intro hz
      rw [hinstr, hz] at hop
      exact hop rfl
    obtain ⟨op, he⟩ := encodes_of_decoder hne hu
    rw [decoder_of_encodes he, Op.operation_control]
    exact he
  · have hz : decoder d.rawInstr = 0 := by
      by_contra hne
      obtain ⟨op, he⟩ := encodes_of_decoder hne hu
      exact hnone op he
    have hill : d.instr.op = .undefined ∧ d.word ≠ 0 ∧ d.word ≠ simEnd := by
      rw [hinstr, hz, hword]
      exact ⟨rfl, h0, hend⟩
    rw [FetchData.Illegal, FetchData.csrCtl, if_neg (not_not_intro hpc), if_pos hill]
    exact ⟨rfl, rfl⟩

theorem decode_labels_sraw :
    Isa.Encodes (decoder 0x40c5d53b#32).operation 0x40c5d53b#32 :=
  (decode_labels ⟨pcInit, 0x40c5d53b#32, .pcplus4⟩ (by decide) (by decide)).1 (by decide)

/-- The all-zero word, which encodes nothing, passes as a bubble, and `mulh` runs as
`sll`. -/
theorem decode_labels_fails :
    (∀ op, ¬Isa.Encodes op 0) ∧ ¬FetchData.Illegal ⟨pcInit, 0, .pcplus4⟩ ∧
    (decoder 0x02c59533#32).instr.op ≠ .undefined ∧
    ¬Isa.Encodes (decoder 0x02c59533#32).operation 0x02c59533#32 := by
  refine ⟨fun op => ?_, fun h => absurd h.1 (by decide), by decide, by decide⟩
  cases op <;> decide

end RiscvCpu
