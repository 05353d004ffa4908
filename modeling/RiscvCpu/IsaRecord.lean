import RiscvCpu.ExecuteIsa
import RiscvCpu.InOrder
import RiscvCpu.IsaRun
import RiscvCpu.Predict

/-!
# Records of a program

A record of the pipeline that carries the pc and the word of an instruction is decoded
to the control word of its operation, and computes what the instruction set asks for
from the registers before it.
-/

namespace RiscvCpu

/-! ## Control words of a program -/

section Control

variable {op : Op} {w : BitVec 32} {msize : Msize} {u : Bool}

theorem Op.control_load (h : Isa.access op = some (.load msize u)) :
    op.control w = load w op msize u := by
  cases op with
  | lb | lh | lw | ld | lbu | lhu | lwu => cases h; rfl
  | _ => cases h

theorem Op.control_store (h : Isa.access op = some (.store msize)) :
    op.control w = store w op msize := by
  cases op with
  | sb | sh | sw | sd => cases h; rfl
  | _ => cases h

/-- What makes no access drives neither a load nor a store. -/
theorem Op.control_noAccess (h : Isa.access op = none) :
    (op.control w).instr.ctl.memrEn = false ∧ (op.control w).instr.ctl.memwEn = false := by
  cases op with
  | lb | lh | lw | ld | lbu | lhu | lwu | sb | sh | sw | sd => cases h
  | _ => exact ⟨rfl, rfl⟩

theorem Op.control_isMulDiv (h : op.isMulDiv = true) :
    ∃ is32, op.control w = aluReg w op .aluMulticycle is32 := by
  cases op with
  | mul | div | divu | rem | remu => exact ⟨false, rfl⟩
  | mulw | divw | divuw | remw | remuw => exact ⟨true, rfl⟩
  | _ => cases h

theorem Op.control_multicycle (h : op.isMulDiv = false) :
    (op.control w).instr.ctl.aluop ≠ .aluMulticycle := by
  cases op with
  | mul | div | divu | rem | remu | mulw | divw | divuw | remw | remuw => cases h
  | _ => exact fun hm => by cases hm

/-- The operations of a program write `rd` where the instruction set says so, and ask
nothing of the CSR unit. -/
theorem Op.control_program (h : Isa.Encodes op w) (hc : op.isCsr = false)
    (hs : op ≠ .ecall ∧ op ≠ .mret) :
    (op.control w).instr.ctl.regwriteEn = Isa.writesRd op ∧
      (Isa.writesRd op = true → (op.control w).instr.writereg = writeregOf w) ∧
      (op.control w).csrCtl = 0 ∧ (op.control w).instr.op ≠ .undefined := by
  cases op with
  | undefined => exact absurd h id
  | ecall => exact absurd rfl hs.1
  | mret => exact absurd rfl hs.2
  | csrrc | csrrci | csrrs | csrrsi | csrrw | csrrwi => cases hc
  | beq | bne | blt | bge | bltu | bgeu | sb | sh | sw | sd =>
    exact ⟨rfl, (fun hw => by cases hw), rfl, fun ho => by cases ho⟩
  | _ => exact ⟨rfl, fun _ => rfl, rfl, fun ho => by cases ho⟩

theorem Op.control_noCsr (h : op.isCsr = false) : (op.control w).instr.op.isCsr = false := by
  cases op with
  | csrrc | csrrci | csrrs | csrrsi | csrrw | csrrwi => cases h
  | _ => rfl

/-- What is neither an access nor a multiplication or division is an integer operation. -/
theorem Op.isInteger_of_program (h : Isa.Encodes op w) (hc : op.isCsr = false)
    (hs : op ≠ .ecall ∧ op ≠ .mret) (ha : Isa.access op = none) (hm : op.isMulDiv = false) :
    op.isInteger = true := by
  cases op with
  | undefined => exact absurd h id
  | ecall => exact absurd rfl hs.1
  | mret => exact absurd rfl hs.2
  | csrrc | csrrci | csrrs | csrrsi | csrrw | csrrwi => cases hc
  | lb | lh | lw | ld | lbu | lhu | lwu | sb | sh | sw | sd => cases ha
  | mul | div | divu | rem | remu | mulw | divw | divuw | remw | remuw => cases hm
  | _ => rfl

/-- Resolution reads only the registers a jump or branch waits for. -/
theorem Op.changePcsrc_congr (op : Op) (w : BitVec 32) (pc : BitVec 64) {a b a' b' : BitVec 64}
    (h1 : (op.control w).instr.ctl.bj ≠ .nothing → a = a')
    (h2 : (op.control w).instr.ctl.bj = .bBeq → b = b') :
    changePcsrc pc (op.control w).instr a b = changePcsrc pc (op.control w).instr a' b' := by
  cases op with
  | beq | bne | blt | bge | bltu | bgeu => rw [h1 (fun h => by cases h), h2 rfl]
  | jalr =>
    rw [h1 fun h => by cases h]
    rfl
  | _ => rfl

/-- No word of a program is the empty one. -/
theorem Isa.Encodes.ne_zero (h : Isa.Encodes op w) : w ≠ 0 := by
  rintro rfl
  revert h
  cases op <;> decide

/-- The words of a program are read alike by the predictor and the decoder. -/
theorem Isa.Encodes.not_misread (h : Isa.Encodes op w) {pc : BitVec 64}
    (hpc : pc.extractLsb' 0 2 = 0) (bpb : Bpb) : ¬bpb.Misread w pc := by
  rintro (⟨_, hne⟩ | ⟨hop, _, hne | hf⟩)
  · exact hne hpc
  · exact hne hpc
  · have hz : decodeBeq w = 0 := by
      rcases decodeBeq_cases w with ⟨_, h2, h3⟩ | ⟨hz, _⟩
      · rcases hf with hf | hf
        · exact absurd hf h2
        · exact absurd hf h3
      · exact hz
    have hd := decoder_of_encodes h
    rw [decoder_beq hop, hz] at hd
    revert h
    cases op with
    | undefined => exact id
    | _ => cases hd

end Control

/-! ## Records -/

/-- The record carries the next instruction of `x`. -/
structure FetchData.Is (d : FetchData) (x : Isa.State) : Prop where
  pcO : d.pcO = x.pc
  rawInstr : d.rawInstr = x.instr

section Record

variable {d : FetchData} {x : Isa.State} {op : Op} {dev : ℕ → BitVec 64}

theorem FetchData.Is.instr (h : d.Is x) (he : Isa.Encodes op x.instr) (hf : x.Fits op) :
    d.word = x.instr ∧ d.instr = (op.control x.instr).instr := by
  have hword : d.word = x.instr := by
    rw [FetchData.word, h.pcO, if_pos hf.pcAligned, h.rawInstr]
  rw [FetchData.instr, hword, decoder_of_encodes he]
  exact ⟨rfl, rfl⟩

theorem FetchData.Is.ne_zero (h : d.Is x) (he : Isa.Encodes op x.instr) : d ≠ 0 := by
  rintro rfl
  exact he.ne_zero h.rawInstr.symm

/-- An instruction of a program raises no exception by its word. -/
theorem FetchData.Is.csrCtl (h : d.Is x) (he : Isa.Encodes op x.instr) (hf : x.Fits op) :
    d.csrCtl = 0 := by
  obtain ⟨hword, hinstr⟩ := h.instr he hf
  obtain ⟨_, _, hcsr, hop⟩ := Op.control_program he hf.noCsr hf.noSystem
  rw [FetchData.csrCtl, h.pcO, if_neg (not_not_intro hf.pcAligned), hinstr, if_neg fun h => hop h.1,
    hword, decoder_of_encodes he, hcsr]

/-- Is `rd` written, and with which number? -/
theorem FetchData.Is.writes (h : d.Is x) (he : Isa.Encodes op x.instr) (hf : x.Fits op)
    (ra : BitVec 5) :
    d.instr.writes d.instr.ctl.regwriteEn ra =
      (Isa.writesRd op && writeregOf x.instr != 0 && ra == writeregOf x.instr) := by
  obtain ⟨hen, hrd, _⟩ := Op.control_program he hf.noCsr hf.noSystem
  rw [(h.instr he hf).2, Instr.writes, hen]
  cases hw : Isa.writesRd op with
  | false => rfl
  | true => rw [hrd hw]

/-- The registers after the instruction. -/
theorem FetchData.Is.regsNxt (h : d.Is x) (he : Isa.Encodes op x.instr) (hf : x.Fits op)
    (ra : BitVec 5) :
    x.regsNxt op dev ra =
      if d.instr.writes d.instr.ctl.regwriteEn ra then x.result op dev else x.regs ra := by
  rw [h.writes he hf, Isa.State.regsNxt]
  by_cases hw : (Isa.writesRd op && writeregOf x.instr != 0) = true
  · rw [if_pos hw, hw, Bool.true_and]
    by_cases hra : ra = writeregOf x.instr
    · rw [hra, Function.update_self, beq_self_eq_true, if_pos rfl]
    · rw [Function.update_of_ne hra, if_neg (by simpa using hra)]
  · rw [if_neg hw, Bool.eq_false_iff.mpr hw, Bool.false_and, if_neg Bool.false_ne_true]

/-- An instruction that makes no access and writes `rd` computes its result. -/
theorem FetchData.Is.result_eq (h : d.Is x) (he : Isa.Encodes op x.instr) (hf : x.Fits op)
    (h0 : x.regs 0 = 0) (ha : Isa.access op = none) (hw : Isa.writesRd op = true) :
    d.result (x.regs d.instr.ra1) (x.regs d.instr.ra2) = x.result op dev := by
  obtain ⟨hword, hinstr⟩ := h.instr he hf
  rw [Isa.State.result, ha]
  cases hm : op.isMulDiv with
  | true =>
    obtain ⟨is32, hc⟩ := Op.control_isMulDiv (w := x.instr) hm
    rw [FetchData.result, hinstr, hc, if_pos rfl]
    rfl
  | false =>
    have hb : op.isBranch = false := by
      simpa [Isa.writesRd, ha] using hw
    have hi := Op.isInteger_of_program he hf.noCsr hf.noSystem ha hm
    have hd : (d.dataD (x.regs d.instr.ra1) (x.regs d.instr.ra2)).instr =
        (decoder x.instr).instr := by
      rw [decoder_of_encodes he]
      exact hinstr
    have hout := aluout_integer he hi hb hd h0 0
    rw [FetchData.result, if_neg]
    · refine hout.trans ?_
      rw [if_neg Bool.false_ne_true]
      exact congrArg (Isa.result op x.instr · x.rs1 x.rs2) h.pcO
    · rw [hinstr]
      exact Op.control_multicycle hm

/-- A load or store computes its address. -/
theorem FetchData.Is.address (h : d.Is x) (he : Isa.Encodes op x.instr) (hf : x.Fits op)
    {a : Isa.Access} (ha : Isa.access op = some a) :
    d.result (x.regs d.instr.ra1) (x.regs d.instr.ra2) = x.addr op := by
  obtain ⟨hword, hinstr⟩ := h.instr he hf
  have hm : op.isMulDiv = false := by
    cases op with
    | mul | div | divu | rem | remu | mulw | divw | divuw | remw | remuw => cases ha
    | _ => rfl
  rw [FetchData.result, if_neg (by rw [hinstr]; exact Op.control_multicycle hm), DecodeData.dataE,
    DecodeData.aluout, DecodeData.srcB, FetchData.dataD, hinstr, Isa.State.addr,
    Isa.displacement, ha]
  cases a with
  | load msize u =>
    rw [Op.control_load ha]
    rfl
  | store msize =>
    rw [Op.control_store ha]
    rfl

end Record

end RiscvCpu
