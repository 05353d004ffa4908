import RiscvCpu.CsrStep
import RiscvCpu.DecodeIsa
import RiscvCpu.Flush
import RiscvCpu.InOrder

/-!
# Accesses to CSRs

The six read-modify-write instructions, from the word that is decoded to the registers
after write-back.  The source travels to write-back as the result of the ALU, the old
value is put in place of it there, and the redirect goes to the next instruction.

A write recomputes `mstatus.sd`.  It is what `mstatus.fs` says in every cycle, so that
a write of another register leaves `mstatus` alone (`Csr.IsRun.sd`).
-/

namespace RiscvCpu

/-! ## The named registers -/

/-- The registers with an address. -/
inductive CsrReg where
  | mie | mip | mtvec | mstatus | mscratch | mepc | mcause | mcycle | mtval
deriving DecidableEq, Repr

/-- The address of a register. -/
def CsrReg.address : CsrReg → BitVec 12
  | .mie => 0x304#12
  | .mip => 0x344#12
  | .mtvec => 0x305#12
  | .mstatus => 0x300#12
  | .mscratch => 0x340#12
  | .mepc => 0x341#12
  | .mcause => 0x342#12
  | .mcycle => 0xb00#12
  | .mtval => 0x343#12

/-- The contents of a register. -/
def CsrRegs.get (regs : CsrRegs) : CsrReg → BitVec 64
  | .mie => regs.mie
  | .mip => regs.mip
  | .mtvec => regs.mtvec
  | .mstatus => regs.mstatus
  | .mscratch => regs.mscratch
  | .mepc => regs.mepc
  | .mcause => regs.mcause
  | .mcycle => regs.mcycle
  | .mtval => regs.mtval

/-- The registers that change in every cycle. -/
def CsrReg.isLive (n : CsrReg) : Bool := n = .mie || n = .mip || n = .mcycle

/-- What a register holds once `v` is written to it. -/
def CsrReg.stored (n : CsrReg) (v : BitVec 64) : BitVec 64 :=
  if n = .mstatus then setSd v else v

theorem CsrRegs.get_write (regs : CsrRegs) (n m : CsrReg) (v : BitVec 64) :
    (regs.write n.address v).get m = if m = n then v else regs.get m := by
  cases n <;> cases m <;> rfl

theorem Csr.rd_eq (c : Csr) {d : MemoryData} {n : CsrReg} (h : d.csrCtlW.csrName = n.address) :
    c.rd d = c.regs.get n := by
  rw [rd, h]
  cases n <;> rfl

theorem Csr.mirrored_get (c : Csr) (pins : Pins) {n : CsrReg} (h : n.isLive = false) :
    (c.mirrored pins).get n = c.regs.get n := by
  cases n <;> first | rfl | cases h

/-! ## The summary bit of `mstatus` -/

/-- `mstatus.sd` is set if and only if `mstatus.fs` is not zero. -/
def SdShowsFs (mstatus : BitVec 64) : Prop :=
  mstatus.getLsbD 63 = (mstatus.getLsbD 13 || mstatus.getLsbD 14)

section Summary

variable {x : BitVec 64}

theorem setBit_eq_self {i : ℕ} {b : Bool} (hi : i < 64) (h : x.getLsbD i = b) :
    setBit x i b = x := by
  refine BitVec.eq_of_getLsbD_eq fun j _ => ?_
  rw [getLsbD_setBit b hi]
  split
  · rename_i hj
    rw [hj, h]
  · rfl

theorem fs_ne_zero_iff : (x.extractLsb' 13 2 != 0) = (x.getLsbD 13 || x.getLsbD 14) := by
  rw [Bool.eq_iff_iff, bne_iff_ne, Bool.or_eq_true, ne_eq, not_iff_comm, not_or,
    Bool.not_eq_true, Bool.not_eq_true]
  constructor
  · rintro ⟨h13, h14⟩
    refine BitVec.eq_of_getLsbD_eq fun i hi => ?_
    rw [BitVec.getLsbD_extractLsb']
    obtain rfl | rfl : i = 0 ∨ i = 1 := by omega
    · simpa using h13
    · simpa using h14
  · intro h
    have hbit : ∀ i < 2, x.getLsbD (13 + i) = false := by
      intro i hi
      have := congrArg (fun y => y.getLsbD i) h
      simpa [BitVec.getLsbD_extractLsb', hi] using this
    exact ⟨hbit 0 (by decide), hbit 1 (by decide)⟩

theorem sdShowsFs_zero : SdShowsFs 0 := by
  rw [SdShowsFs]
  rfl

/-- Recomputing the bit changes nothing. -/
theorem SdShowsFs.setSd (h : SdShowsFs x) : setSd x = x :=
  setBit_eq_self (by decide) (by rw [fs_ne_zero_iff]; exact h)

theorem sdShowsFs_setSd (x : BitVec 64) : SdShowsFs (setSd x) := by
  rw [SdShowsFs, RiscvCpu.setSd, fs_ne_zero_iff]
  simp [getLsbD_setBit, -BitVec.getLsbD_eq_getElem]

/-- The other bits do not matter. -/
theorem SdShowsFs.setBit {i : ℕ} {b : Bool} (h : SdShowsFs x) (hi : i < 64)
    (hne : i ≠ 13 ∧ i ≠ 14 ∧ i ≠ 63) : SdShowsFs (setBit x i b) := by
  rw [SdShowsFs, getLsbD_setBit b hi, getLsbD_setBit b hi, getLsbD_setBit b hi,
    if_neg (Ne.symm hne.1), if_neg (Ne.symm hne.2.1), if_neg (Ne.symm hne.2.2)]
  exact h

theorem SdShowsFs.setMie {b : Bool} (h : SdShowsFs x) : SdShowsFs (setMie x b) :=
  h.setBit (by decide) (by decide)

theorem SdShowsFs.setMpie {b : Bool} (h : SdShowsFs x) : SdShowsFs (setMpie x b) :=
  h.setBit (by decide) (by decide)

theorem SdShowsFs.setMpp {v : BitVec 2} (h : SdShowsFs x) : SdShowsFs (setMpp x v) :=
  (h.setBit (by decide) (by decide)).setBit (by decide) (by decide)

theorem SdShowsFs.clearXs (h : SdShowsFs x) : SdShowsFs (clearXs x) :=
  (h.setBit (by decide) (by decide)).setBit (by decide) (by decide)

end Summary

theorem Csr.step_sd {c : Csr} (h : SdShowsFs c.regs.mstatus) (dataM : MemoryData) (pins : Pins) :
    SdShowsFs (c.step dataM pins false).regs.mstatus := by
  simp only [step, regsNxt, Bool.false_eq_true, if_false]
  split
  · exact h.setMpie.setMie.setMpp
  · split
    · exact sdShowsFs_setSd _
    · split
      · exact h.setMie.setMpie.setMpp.clearXs
      · exact h

theorem Csr.IsRun.sd {s : ℕ → Csr} {i : ℕ → CsrIn} (h : Csr.IsRun s i) (t : ℕ) :
    SdShowsFs (s t).regs.mstatus := by
  induction t with
  | zero =>
    obtain ⟨x, j, hj, hs⟩ := h.start
    rw [hs, Csr.next, hj]
    exact sdShowsFs_zero
  | succ t ih =>
    rw [h.next_eq t]
    exact step_sd ih _ _

/-! ## One access -/

/-- What the access `op` to `n` in write-back makes of the registers. -/
structure Core.AccessesCsr (c d : Core) (op : Op) (n : CsrReg) : Prop where
  rd : writeregOf c.mw.pcAndInstr.word ≠ 0 →
    d.regfile (writeregOf c.mw.pcAndInstr.word) = c.csr.regs.get n
  regfile : ∀ ra, ra ≠ writeregOf c.mw.pcAndInstr.word → d.regfile ra = c.regfile ra
  named : d.csr.regs.get n = n.stored (Isa.csrResult op (c.csr.regs.get n)
    (Isa.csrSource op c.mw.pcAndInstr.word (c.regfile (ra1Of c.mw.pcAndInstr.word))))
  others : ∀ m, m ≠ n → m.isLive = false → d.csr.regs.get m = c.csr.regs.get m
  mhartid : d.csr.regs.mhartid = c.csr.regs.mhartid
  satp : d.csr.regs.satp = c.csr.regs.satp
  mode : d.csr.mode = c.csr.mode

/-- The control word of an access. -/
theorem Op.control_isCsr {op : Op} (h : op.isCsr = true) (w : BitVec 32) :
    op.control w =
      if op.isCsrImm then csrAccess w op 0 (ra1Of w) else csrAccess w op (ra1Of w) 0 := by
  cases op <;> first | rfl | cases h

section Access

variable {c : Csr} {d : MemoryData} {pins : Pins} {op : Op} {n : CsrReg}

/-- A CSR instruction passes the value of its source register to write-back. -/
theorem FetchData.result_csrAccess {d : FetchData} {ra1 zimm : BitVec 5}
    (h : decoder d.word = csrAccess d.word op ra1 zimm) (x y : BitVec 64) :
    d.result x y = x := by
  have hinstr : d.instr = (csrAccess d.word op ra1 zimm).instr := by
    rw [instr, h]
  simp only [result, DecodeData.dataE, DecodeData.aluout, dataD, hinstr]
  rfl

/-- A record whose word encodes an access is decoded to one. -/
theorem MemoryData.IsDecoded.access (h : d.IsDecoded)
    (hop : Isa.Encodes op d.pcAndInstr.word) (hcsr : op.isCsr = true) :
    ∃ ra1 zimm, decoder d.pcAndInstr.word = csrAccess d.pcAndInstr.word op ra1 zimm ∧
      d.csrCtlW = (csrAccess d.pcAndInstr.word op ra1 zimm).csrCtl ∧
      if op.isCsrImm then zimm = ra1Of d.pcAndInstr.word else ra1 = ra1Of d.pcAndInstr.word := by
  have hdec := decoder_of_encodes hop
  rw [Op.control_isCsr hcsr] at hdec
  have hlabel : d.instr.op = op := by
    rw [h.instr, FetchData.instr, hdec]
    split <;> rfl
  obtain ⟨_, _, heq, hctl⟩ := h.isCsr_csrCtlW (by rw [hlabel]; exact hcsr)
  rw [← heq, hdec] at hctl
  cases himm : op.isCsrImm with
  | true =>
    rw [himm, if_pos rfl] at hdec hctl
    exact ⟨_, _, hdec, hctl, rfl⟩
  | false =>
    rw [himm, if_neg Bool.false_ne_true] at hdec hctl
    exact ⟨_, _, hdec, hctl, rfl⟩

/-- The value to write, from the old value and the source of the access. -/
theorem Csr.wd_eq (h : d.instr.op = op) (hcsr : op.isCsr = true) :
    c.wd d = Isa.csrResult op (c.rd d)
      (if op.isCsrImm then d.csrCtlW.zimm.setWidth 64 else d.aluout) := by
  unfold wd
  rw [h]
  cases op <;> first | rfl | cases hcsr

/-- The unit writes the register of an access that is not interrupted, and no other but
the live ones. -/
theorem Csr.step_access (hwen : c.csrWen d pins = true) (hname : d.csrCtlW.csrName = n.address)
    (hsd : SdShowsFs c.regs.mstatus) (m : CsrReg) :
    (m = n → (c.step d pins false).regs.get m = n.stored (c.wd d)) ∧
    (m ≠ n → m.isLive = false → (c.step d pins false).regs.get m = c.regs.get m) := by
  rw [step_write hwen, hname]
  have hget := (c.mirrored pins).get_write n
  by_cases hm : m = .mstatus
  · -- the recomputed bit
    subst hm
    have hw : ((c.mirrored pins).write n.address (c.wd d)).mstatus =
        if .mstatus = n then c.wd d else c.regs.mstatus := hget .mstatus (c.wd d)
    constructor
    · intro hn
      change setSd _ = _
      rw [hw, if_pos hn, CsrReg.stored, if_pos hn.symm]
    · intro hn _
      change setSd _ = c.regs.mstatus
      rw [hw, if_neg hn, hsd.setSd]
  · have hother : ∀ v, ({ (c.mirrored pins).write n.address (c.wd d) with mstatus := v }).get m =
        if m = n then c.wd d else (c.mirrored pins).get m := by
      intro v
      rw [← hget]
      cases m <;> first | rfl | exact absurd rfl hm
    rw [hother]
    constructor
    · intro hn
      rw [if_pos hn, CsrReg.stored, if_neg (by rw [← hn]; exact hm)]
    · intro hn hlive
      rw [if_neg hn, mirrored_get c pins hlive]

/-- What has no address is not written. -/
theorem Csr.step_access_rest (hwen : c.csrWen d pins = true) :
    (c.step d pins false).regs.mhartid = c.regs.mhartid ∧
    (c.step d pins false).regs.satp = c.regs.satp ∧ (c.step d pins false).mode = c.mode := by
  rw [step_write hwen]
  refine ⟨?_, ?_, rfl⟩
  · change ((c.mirrored pins).write _ _).mhartid = (c.mirrored pins).mhartid
    unfold CsrRegs.write
    split_ifs <;> rfl
  · change ((c.mirrored pins).write _ _).satp = (c.mirrored pins).satp
    unfold CsrRegs.write
    split_ifs <;> rfl

end Access

/-! ## The core -/

section Core

variable {c : Core} {op : Op} {n : CsrReg}

/-- An access hands the old value on to the register file. -/
theorem Core.writeData_csrAccess {ra1 zimm : BitVec 5} {w : BitVec 32}
    (h : c.mw.instr = (csrAccess w op ra1 zimm).instr) (hcsr : op.isCsr = true) :
    c.dataW.writeData = c.csr.rd c.mw := by
  have hop : c.mw.instr.op.isCsr = true := by
    rw [h]
    exact hcsr
  rw [dataW, MemoryData.dataW, Csr.csrWriteToReg_eq, if_pos hop, h]
  rfl

/-- One access, from the operands it was computed from to the registers after the edge. -/
theorem Core.Decoded.accessesCsr (h : c.Decoded) (h0 : c.regfile 0 = 0)
    (hcomp : c.mw.Computes c.regfile) (hsd : SdShowsFs c.csr.regs.mstatus) {i : CoreIn}
    (hr : i.reset = false) (hop : Isa.Encodes op c.mw.pcAndInstr.word) (hcsr : op.isCsr = true)
    (hn : c.mw.pcAndInstr.word.extractLsb' 20 12 = n.address)
    (hi : c.csr.isInterupt c.mw i.pins = false) : c.AccessesCsr (c.step i) op n := by
  obtain ⟨ra1, zimm, hdec, hctl, hsrc⟩ := h.mw.access hop hcsr
  have hinstr : c.mw.instr = (csrAccess c.mw.pcAndInstr.word op ra1 zimm).instr := by
    rw [h.mw.instr, FetchData.instr, hdec]
  have hname : c.mw.csrCtlW.csrName = n.address := by
    rw [hctl]
    exact hn
  have hwen : c.csr.csrWen c.mw i.pins = true := by
    rw [Csr.csrWen, hi, hctl]
    rfl
  have hstep : (c.step i).csr = c.csr.step c.mw i.pins false := by
    rw [← hr]
    rfl
  -- the source arrives as the result, or in the control word
  have hout : c.mw.aluout = c.regfile ra1 := by
    have hra : c.mw.pcAndInstr.instr.ra1 = ra1 := by
      rw [← h.mw.instr, hinstr]
      rfl
    rw [hcomp, FetchData.result_csrAccess hdec, hra]
  have hwd : c.csr.wd c.mw = Isa.csrResult op (c.csr.regs.get n)
      (Isa.csrSource op c.mw.pcAndInstr.word (c.regfile (ra1Of c.mw.pcAndInstr.word))) := by
    have hlabel : c.mw.instr.op = op := by
      rw [hinstr]
      rfl
    rw [Csr.wd_eq hlabel hcsr, c.csr.rd_eq hname, hctl, hout, Isa.csrSource]
    split
    · rename_i himm
      rw [if_pos himm] at hsrc
      rw [← show ra1Of c.mw.pcAndInstr.word = c.mw.pcAndInstr.word.extractLsb' 15 5 from rfl,
        ← hsrc]
      rfl
    · rename_i himm
      rw [if_neg himm] at hsrc
      rw [hsrc]
  -- the register file takes the old value
  have hreg := step_regfile h0 hr
  have hwrites : ∀ ra, c.mw.instr.writes c.mw.instr.ctl.regwriteEn ra =
      (writeregOf c.mw.pcAndInstr.word != 0 && ra == writeregOf c.mw.pcAndInstr.word) := by
    intro ra
    rw [hinstr]
    rfl
  obtain ⟨hhart, hsatp, hmode⟩ := Csr.step_access_rest hwen
  refine ⟨fun hne => ?_, fun ra hra => ?_, ?_, fun m hm hlive => ?_, ?_, ?_, ?_⟩
  · rw [hreg, valueW, hwrites, writeData_csrAccess hinstr hcsr, c.csr.rd_eq hname, if_pos]
    simpa using hne
  · rw [hreg, valueW, hwrites, if_neg]
    simp [hra]
  · rw [hstep, (Csr.step_access hwen hname hsd n).1 rfl, hwd]
  · rw [hstep, (Csr.step_access hwen hname hsd m).2 hm hlive]
  · rw [hstep, hhart]
  · rw [hstep, hsatp]
  · rw [hstep, hmode]

end Core

/-! ## Runs of the top module -/

section Top

variable {s : ℕ → VTop} {i : ℕ → VTopIn}

/-- An access in write-back that is not interrupted reads and writes its register as the
instruction set says, from the register file that the older instructions have left, and
the next instruction to arrive there is the one behind it. -/
theorem VTop.IsRun.csr_access (h : VTop.IsRun s i) (w : ℕ) (op : Op) (n : CsrReg)
    (hcsr : op.isCsr = true) (hop : Isa.Encodes op (s w).core.mw.pcAndInstr.word)
    (hn : (s w).core.mw.pcAndInstr.word.extractLsb' 20 12 = n.address)
    (hi : (s w).core.csr.isInterupt (s w).core.mw (i w).pins = false) :
    (s w).core.AccessesCsr (s (w + 1)).core op n ∧
      ∀ t, w < t → (∀ u, w < u → u < t → (tags s i u).mw = none) → (tags s i t).mw ≠ none →
        (s t).core.mw.pcW = (s w).core.mw.pcW + 4 := by
  have hd := h.core.decoded w
  obtain ⟨ra1, zimm, hdec, hctl, _⟩ := hd.mw.access hop hcsr
  constructor
  · rw [h.next w]
    exact hd.accessesCsr (h.core.regfile_zero w) (h.computes w) (h.core.csr.sd w)
      (Bool.eq_false_iff.mpr (h.noReset w)) hop hcsr hn hi
  · intro t ht hmw hnext
    have hwen : (s w).core.csr.csrWen (s w).core.mw (i w).pins = true := by
      rw [Csr.csrWen, hi, hctl]
      rfl
    have hpc : (s w).core.csrPcNxt (i w).pins = ⟨true, (s w).core.mw.pcW + 4⟩ := by
      have hexc : (s w).core.csr.excOrInt (s w).core.mw (i w).pins = false := by
        rw [Csr.excOrInt, hi, hctl]
        rfl
      rw [Core.csrPcNxt, Csr.csrPcNxt, hwen, hexc]
      rfl
    have hf : (s w).core.csrFlush (i w).pins = true := by
      rw [Core.csrFlush, hpc]
    rw [h.core.next_pc h.lossless hf ht hmw hnext]
    exact congrArg CsrPcNxt.pcNxt hpc

end Top

/-! ## An example run -/

/-- `addi x1, x0, 6`, then `csrrs x2, mepc, x1` and a use of `x2`. -/
def addThenCsr : List (BitVec 32) := [0x00600093#32, 0x3410a173#32, 0x00110193#32]

/-- The CSR instruction is in write-back in cycle 12, and the word behind it, flushed and
fetched again, in cycle 20. -/
theorem addThenCsr_sets_mepc :
    (SimTop.boot addThenCsr .low 13).top.core.regfile 2 = 0x80000000#64 ∧
    (SimTop.boot addThenCsr .low 13).top.core.csr.regs.mepc = 0x80000006#64 ∧
    (SimTop.boot addThenCsr .low 20).top.core.mw.pcW =
      (SimTop.boot addThenCsr .low 12).top.core.mw.pcW + 4 := by
  have hempty : ∀ u < 20, 12 < u →
      (VTop.tags (fun u => (SimTop.boot addThenCsr .low u).top)
        (fun u => (SimTop.boot addThenCsr .low u).topIn (.fast .low)) u).mw = none := by
    decide +kernel
  have hword : (SimTop.boot addThenCsr .low 12).top.core.mw.pcAndInstr.word = 0x3410a173#32 := by
    decide +kernel
  obtain ⟨hacc, hnext⟩ :=
    (SimTop.boot_isRun addThenCsr .low).top.csr_access 12 .csrrs .mepc (by decide)
      (by rw [hword]; decide) (by rw [hword]; decide) (by decide +kernel)
  have hrd := hacc.rd
  have hnamed := hacc.named
  rw [hword] at hrd hnamed
  refine ⟨(hrd (by decide)).trans (by decide +kernel), hnamed.trans (by decide +kernel),
    hnext 20 (by decide) (fun u hu hut => hempty u hut hu) (by decide +kernel)⟩

end RiscvCpu
