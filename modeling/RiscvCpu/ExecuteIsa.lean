import RiscvCpu.DecodeIsa

/-!
# Decode and execute against the instruction set

The control word of an integer operation, its operands and its immediate lead through
the operand multiplexer, the ALU and the link adder to the result the instruction set
asks for, and through `change_pcsrc` to the next pc.
-/

namespace RiscvCpu

/-! ## Shift amounts and lower halves -/

section Words

variable {x y : BitVec 64}

theorem toNat_low_six : (y.extractLsb' 0 6).toNat = y.toNat % 64 := by
  simp [BitVec.extractLsb'_toNat]

theorem toNat_low_five : (y.extractLsb' 0 5).toNat = y.toNat % 32 := by
  simp [BitVec.extractLsb'_toNat]

theorem toNat_shamt6 (w : BitVec 32) :
    ((shamt6 w).extractLsb' 0 6).toNat = (w.extractLsb' 20 6).toNat := by
  have := (w.extractLsb' 20 6).isLt
  rw [toNat_low_six, shamt6, BitVec.toNat_setWidth]
  omega

theorem toNat_shamt5 (w : BitVec 32) :
    ((shamt5 w).extractLsb' 0 5).toNat = (w.extractLsb' 20 5).toNat := by
  have := (w.extractLsb' 20 5).isLt
  rw [toNat_low_five, shamt5, ra2Of, BitVec.toNat_setWidth]
  omega

theorem lo_eq_setWidth : Isa.lo x = x.setWidth 32 := by
  rw [Isa.lo, BitVec.setWidth_eq_extractLsb' (by decide)]

theorem lo_add : Isa.lo (x + y) = Isa.lo x + Isa.lo y := by
  simp only [lo_eq_setWidth]
  exact BitVec.setWidth_add x y (by decide)

theorem lo_sub : Isa.lo (x - y) = Isa.lo x - Isa.lo y := by
  apply BitVec.eq_of_toNat_eq
  simp only [lo_eq_setWidth, BitVec.toNat_setWidth, BitVec.toNat_sub]
  omega

theorem lo_shl (n : ℕ) : Isa.lo (x <<< n) = Isa.lo x <<< n := by
  refine BitVec.eq_of_getLsbD_eq fun i hi => ?_
  simp only [lo_eq_setWidth, BitVec.getLsbD_setWidth, BitVec.getLsbD_shiftLeft]
  have h : i < 64 := by omega
  rcases Nat.lt_or_ge i n with hn | hn
  · simp [hn]
  · have h' : i - n < 32 := by omega
    simp [hi, h, h']

theorem lo_setWidth (v : BitVec 32) : Isa.lo (v.setWidth 64) = v := by
  rw [lo_eq_setWidth, BitVec.setWidth_setWidth_of_le _ (by decide), BitVec.setWidth_eq]

end Words

section Integer

variable {op : Op} {w : BitVec 32} {regs : Regs} {d : DecodeData}

/-- The result of an integer computation, a jump or a link. -/
theorem aluout_integer (h : Isa.Encodes op w) (hi : op.isInteger = true)
    (hb : op.isBranch = false) (hd : d.instr = (decoder w).instr) (h0 : regs 0 = 0)
    (multiC : BitVec 64) :
    (d.dataE (regs d.instr.ra1) (regs d.instr.ra2) multiC).aluout =
      Isa.result op w d.pcAndInstr.pcO (regs (ra1Of w)) (regs (ra2Of w)) := by
  rw [decoder_of_encodes h] at hd
  rw [DecodeData.dataE, DecodeData.aluout, DecodeData.srcB, hd]
  cases op with
  | lui => exact (congrArg (· + immU w) h0).trans (BitVec.zero_add _)
  | auipc | jal | jalr | addi | slti | sltiu | xori | ori | andi | add | sub | slt | sltu | xor
  | or | and => rfl
  | slli => exact congrArg (regs (ra1Of w) <<< ·) (toNat_shamt6 w)
  | srli => exact congrArg (regs (ra1Of w) >>> ·) (toNat_shamt6 w)
  | srai => exact congrArg (regs (ra1Of w)).sshiftRight (toNat_shamt6 w)
  | sll => exact congrArg (regs (ra1Of w) <<< ·) toNat_low_six
  | srl => exact congrArg (regs (ra1Of w) >>> ·) toNat_low_six
  | sra => exact congrArg (regs (ra1Of w)).sshiftRight toNat_low_six
  -- the word forms: the lower half of the operation is the operation on lower halves
  | addiw | addw => exact congrArg (BitVec.signExtend 64) (lo_add ..)
  | subw => exact congrArg (BitVec.signExtend 64) (lo_sub ..)
  | slliw =>
    refine congrArg (BitVec.signExtend 64) ((lo_shl _).trans ?_)
    exact congrArg (Isa.lo (regs (ra1Of w)) <<< ·) (toNat_shamt5 w)
  | sllw =>
    refine congrArg (BitVec.signExtend 64) ((lo_shl _).trans ?_)
    exact congrArg (Isa.lo (regs (ra1Of w)) <<< ·) toNat_low_five
  | srliw =>
    refine congrArg (BitVec.signExtend 64) ((lo_setWidth _).trans ?_)
    exact congrArg (Isa.lo (regs (ra1Of w)) >>> ·) (toNat_shamt5 w)
  | srlw =>
    refine congrArg (BitVec.signExtend 64) ((lo_setWidth _).trans ?_)
    exact congrArg (Isa.lo (regs (ra1Of w)) >>> ·) toNat_low_five
  | sraiw =>
    refine congrArg (BitVec.signExtend 64) ((lo_setWidth _).trans ?_)
    exact congrArg (Isa.lo (regs (ra1Of w))).sshiftRight (toNat_shamt5 w)
  | sraw =>
    refine congrArg (BitVec.signExtend 64) ((lo_setWidth _).trans ?_)
    exact congrArg (Isa.lo (regs (ra1Of w))).sshiftRight toNat_low_five
  | beq | bne | blt | bge | bltu | bgeu => cases hb
  | _ => cases hi

/-- The direction `change_pcsrc` resolves is whether a jump or branch is taken. -/
theorem resolvePcsrc_eq (op : Op) (x y : BitVec 64) :
    resolvePcsrc op x y = if Isa.taken op x y then .pcjump else .pcplus4 := by
  cases op <;> rfl

/-- The next pc of an integer computation, a jump or a branch. -/
theorem changePcsrc_integer (h : Isa.Encodes op w) (pc x y : BitVec 64) :
    changePcsrc pc (decoder w).instr x y =
      ⟨pc, Isa.nextPc op w pc x y, if Isa.taken op x y then .pcjump else .pcplus4⟩ := by
  rw [decoder_of_encodes h]
  cases op with
  | beq | bne | blt | bge | bltu | bgeu =>
    simp only [changePcsrc, Op.control, branch, resolvePcsrc_eq, Isa.nextPc]
    split <;> rfl
  | _ => rfl

/-- Every integer operation but a branch writes `rd`. -/
theorem control_integer (h : Isa.Encodes op w) (hi : op.isInteger = true) :
    (decoder w).instr.ctl.regwriteEn = !op.isBranch ∧
      (op.isBranch = false → (decoder w).instr.writereg = writeregOf w) := by
  rw [decoder_of_encodes h]
  cases op with
  | beq | bne | blt | bge | bltu | bgeu => exact ⟨rfl, fun hb => by cases hb⟩
  | _ => first | exact ⟨rfl, fun _ => rfl⟩ | cases hi

/-- The register numbers and the immediate a branch or jump reads. -/
theorem resolve_integer (h : Isa.Encodes op w) (pc : BitVec 64) :
    changePcsrc pc (decoder w).instr (regs (decoder w).instr.ra1) (regs (decoder w).instr.ra2) =
      changePcsrc pc (decoder w).instr (regs (ra1Of w)) (regs (ra2Of w)) := by
  rw [decoder_of_encodes h]
  cases op <;> rfl

/-- Decode and execute compute the result and the next pc of every integer computation,
jump and branch, at every pc and for every register file. -/
theorem decode_execute (h : Isa.Encodes op w) (hi : op.isInteger = true)
    (hd : d.instr = (decoder w).instr) (h0 : regs 0 = 0) :
    d.instr.ctl.regwriteEn = (!op.isBranch) ∧
    (op.isBranch = false → d.instr.writereg = writeregOf w ∧
      ∀ multiC, (d.dataE (regs d.instr.ra1) (regs d.instr.ra2) multiC).aluout =
        Isa.result op w d.pcAndInstr.pcO (regs (ra1Of w)) (regs (ra2Of w))) ∧
    changePcsrc d.pcAndInstr.pcO d.instr (regs d.instr.ra1) (regs d.instr.ra2) =
      ⟨d.pcAndInstr.pcO,
        Isa.nextPc op w d.pcAndInstr.pcO (regs (ra1Of w)) (regs (ra2Of w)),
        if Isa.taken op (regs (ra1Of w)) (regs (ra2Of w)) then .pcjump else .pcplus4⟩ := by
  have hc := control_integer h hi
  refine ⟨hd ▸ hc.1, fun hb => ⟨hd ▸ hc.2 hb, aluout_integer h hi hb hd h0⟩, ?_⟩
  rw [hd, resolve_integer h, changePcsrc_integer h]

/-- `sraiw x7, x7, 4` at a negative lower half. -/
theorem decode_execute_sraiw :
    let d : DecodeData := (⟨pcInit, 0x4043d39b#32, .pcplus4⟩ : FetchData).dataD 0 0
    (d.dataE 0xf0000010#64 0 0).aluout = 0xffffffffff000001#64 :=
  ((@decode_execute .sraiw 0x4043d39b#32 (fun r => if r = 7 then 0xf0000010#64 else 0)
    ((⟨pcInit, 0x4043d39b#32, .pcplus4⟩ : FetchData).dataD 0 0)
    (by decide) rfl rfl rfl).2.1 rfl).2 0

end Integer

end RiscvCpu
