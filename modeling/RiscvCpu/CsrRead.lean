import RiscvCpu.CsrAccess

/-!
# Reads of CSRs

The forms that set or clear bits read a register when their source is `x0` or zero.  The
unit writes the old value back all the same.  A cycle with another instruction in
write-back would have left a register that changes in every cycle at a new value, so the
read holds such a register for one cycle, and it recomputes `mstatus.sd`
(`Csr.ReadOf`).  There is no other difference.
-/

namespace RiscvCpu

/-- The operations that set or clear bits. -/
def Op.isSetClear (op : Op) : Bool :=
  match op with
  | .csrrs | .csrrsi | .csrrc | .csrrci => true
  | _ => false

/-- `after`, what a read of `name` leaves of the unit `c`, differs from `idle`, what an
instruction that asks nothing of the unit would have left, in these respects alone: a
register that changes in every cycle keeps its value when it is the one that is read, and
`mstatus.sd` is recomputed. -/
structure Csr.ReadOf (c idle after : Csr) (name : BitVec 12) : Prop where
  live : ∀ n : CsrReg, n.isLive = true →
    after.regs.get n = if n.address = name then c.regs.get n else idle.regs.get n
  mstatus : after.regs.mstatus = setSd idle.regs.mstatus
  others : ∀ n : CsrReg, n.isLive = false → n ≠ .mstatus → after.regs.get n = idle.regs.get n
  mhartid : after.regs.mhartid = idle.regs.mhartid
  satp : after.regs.satp = idle.regs.satp
  mode : after.mode = idle.mode

section Read

variable {c : Csr} {d : MemoryData} {pins : Pins} {op : Op}

theorem CsrReg.address_inj {n m : CsrReg} (h : n.address = m.address) : n = m := by
  cases n <;> cases m <;> first | rfl | exact absurd h (by decide)

/-- A name is that of a register or of none. -/
theorem CsrReg.named_or_unnamed (name : BitVec 12) :
    (∃ n : CsrReg, name = n.address) ∨ ∀ n : CsrReg, n.address ≠ name := by
  by_cases h : ∃ n : CsrReg, name = n.address
  · exact .inl h
  · exact .inr fun n hn => h ⟨n, hn.symm⟩

/-- A name of no register is not written. -/
theorem CsrRegs.write_unnamed (regs : CsrRegs) {name : BitVec 12}
    (h : ∀ n : CsrReg, n.address ≠ name) (v : BitVec 64) : regs.write name v = regs := by
  have hne : ∀ n : CsrReg, name ≠ n.address := fun n => (h n).symm
  rw [write]
  refine (if_neg (hne .mie)).trans ((if_neg (hne .mip)).trans ((if_neg (hne .mtvec)).trans ?_))
  refine (if_neg (hne .mstatus)).trans ((if_neg (hne .mscratch)).trans ((if_neg (hne .mepc)).trans ?_))
  exact (if_neg (hne .mcause)).trans ((if_neg (hne .mcycle)).trans (if_neg (hne .mtval)))

/-- The old value of the named register written over new contents. -/
theorem Csr.get_write_rd (c : Csr) (d : MemoryData) (regs : CsrRegs) (m : CsrReg) :
    (regs.write d.csrCtlW.csrName (c.rd d)).get m =
      if m.address = d.csrCtlW.csrName then c.regs.get m else regs.get m := by
  rcases CsrReg.named_or_unnamed d.csrCtlW.csrName with ⟨n, hn⟩ | hnone
  · rw [c.rd_eq hn, hn, CsrRegs.get_write]
    by_cases hm : m = n
    · rw [if_pos hm, if_pos (congrArg _ hm), hm]
    · rw [if_neg hm, if_neg fun h => hm (CsrReg.address_inj h)]
  · rw [CsrRegs.write_unnamed regs hnone, if_neg (hnone m)]

theorem Isa.csrResult_zero (hset : op.isSetClear = true) (old : BitVec 64) :
    csrResult op old 0 = old := by
  cases op with
  | csrrs | csrrsi => exact BitVec.or_zero
  | csrrc | csrrci => exact BitVec.and_allOnes
  | _ => cases hset

theorem Op.isCsr_of_isSetClear (hset : op.isSetClear = true) : op.isCsr = true := by
  cases op <;> first | rfl | cases hset

/-- A write of the old value against an instruction that asks nothing of the unit. -/
theorem Csr.readOf_step (hwen : c.csrWen d pins = true) (hwd : c.wd d = c.rd d)
    {other : MemoryData} (hq : other.IsQuiet) (hi : c.isInterupt other pins = false) :
    ReadOf c (c.step other pins false) (c.step d pins false) d.csrCtlW.csrName := by
  obtain ⟨hhart, hsatp, hmode⟩ := step_access_rest hwen
  have hidle := step_quiet hq hi
  have hget := c.get_write_rd d (c.mirrored pins)
  -- every register but `mstatus` is as the write left it
  have hstep : ∀ m : CsrReg, m ≠ .mstatus → (c.step d pins false).regs.get m =
      if m.address = d.csrCtlW.csrName then c.regs.get m else (c.mirrored pins).get m := by
    intro m hm
    rw [← hget, step_write hwen, hwd]
    cases m <;> first | rfl | exact absurd rfl hm
  rw [hidle]
  refine ⟨fun n hn => hstep n ?_, ?_, fun n hn hm => ?_, hhart, hsatp, hmode⟩
  · rintro rfl
    cases hn
  · have hmstatus := hget .mstatus
    rw [mirrored_get c pins (rfl : CsrReg.isLive .mstatus = false), ite_self] at hmstatus
    rw [step_write hwen, hwd]
    exact congrArg setSd hmstatus
  · rw [hstep n hm, mirrored_get c pins hn, ite_self]

end Read

/-! ## Reads in write-back -/

section Top

variable {s : ℕ → VTop} {i : ℕ → VTopIn}

/-- A read that has reached write-back carries zero as its source. -/
theorem VTop.IsRun.wd_of_read (h : VTop.IsRun s i) (w : ℕ) {op : Op}
    (hset : op.isSetClear = true) (hop : Isa.Encodes op (s w).core.mw.pcAndInstr.word)
    (hzero : ra1Of (s w).core.mw.pcAndInstr.word = 0) (c : Csr) :
    c.wd (s w).core.mw = c.rd (s w).core.mw := by
  have hcsr := Op.isCsr_of_isSetClear hset
  have hmw := (h.core.decoded w).mw
  obtain ⟨ra1, zimm, hdec, hctl, hsrc⟩ := hmw.access hop hcsr
  have hinstr : (s w).core.mw.instr = (csrAccess (s w).core.mw.pcAndInstr.word op ra1 zimm).instr := by
    rw [hmw.instr, FetchData.instr, hdec]
  have hlabel : (s w).core.mw.instr.op = op := by
    rw [hinstr]
    rfl
  have hout : (s w).core.mw.aluout = (s w).core.regfile ra1 := by
    have hra : (s w).core.mw.pcAndInstr.instr.ra1 = ra1 := by
      rw [← hmw.instr, hinstr]
      rfl
    rw [h.computes w, FetchData.result_csrAccess hdec, hra]
  rw [hzero] at hsrc
  rw [Csr.wd_eq hlabel hcsr, hctl, hout]
  cases himm : op.isCsrImm with
  | true =>
    rw [himm, if_pos rfl] at hsrc
    rw [if_pos rfl, hsrc]
    exact Isa.csrResult_zero hset _
  | false =>
    rw [himm, if_neg Bool.false_ne_true] at hsrc
    rw [if_neg Bool.false_ne_true, hsrc, h.core.regfile_zero w]
    exact Isa.csrResult_zero hset _

/-- A read in write-back, against an instruction in its place that asks nothing of the
unit, for every state of the unit and of the pins that interrupts neither. -/
theorem VTop.IsRun.csr_read (h : VTop.IsRun s i) (w : ℕ) (op : Op)
    (hset : op.isSetClear = true) (hop : Isa.Encodes op (s w).core.mw.pcAndInstr.word)
    (hzero : ra1Of (s w).core.mw.pcAndInstr.word = 0) (c : Csr) (pins : Pins)
    (hi : c.isInterupt (s w).core.mw pins = false) (other : MemoryData) (hq : other.IsQuiet)
    (hi' : c.isInterupt other pins = false) :
    Csr.ReadOf c (c.step other pins false) (c.step (s w).core.mw pins false)
      ((s w).core.mw.pcAndInstr.word.extractLsb' 20 12) := by
  obtain ⟨ra1, zimm, _, hctl, _⟩ :=
    (h.core.decoded w).mw.access hop (Op.isCsr_of_isSetClear hset)
  have hwen : c.csrWen (s w).core.mw pins = true := by
    rw [Csr.csrWen, hi, hctl]
    rfl
  have hread := Csr.readOf_step hwen (h.wd_of_read w hset hop hzero c) hq hi'
  rw [hctl] at hread
  exact hread

end Top

/-! ## An example run -/

/-- `csrrs x2, mcycle, x0`. -/
def readMcycle : List (BitVec 32) := [0xb0002173#32]

/-- The state of the core in the run of the program. -/
def readMcycleCore (t : ℕ) : Core := (SimTop.boot readMcycle .low t).top.core

/-- The read is in write-back in cycle 10.  The counter stands still in this cycle, where
it would have advanced with any other instruction there. -/
theorem readMcycle_stops_counter :
    (readMcycleCore 10).mw.pcAndInstr.word = 0xb0002173#32 ∧
    Isa.Encodes .csrrs 0xb0002173#32 ∧ ra1Of 0xb0002173#32 = 0 ∧
    (readMcycleCore 10).csr.isInterupt (readMcycleCore 10).mw .low = false ∧
    ∀ other : MemoryData, other.IsQuiet → (readMcycleCore 10).csr.isInterupt other .low = false →
      (readMcycleCore 10).csr.step (readMcycleCore 10).mw .low false ≠
        (readMcycleCore 10).csr.step other .low false := by
  refine ⟨by decide +kernel, by decide, by decide, by decide +kernel, fun other hq hi h => ?_⟩
  have hread : ((readMcycleCore 10).csr.step (readMcycleCore 10).mw .low false).regs.mcycle =
      (readMcycleCore 10).csr.regs.mcycle := by
    decide +kernel
  rw [h, Csr.step_quiet hq hi] at hread
  exact absurd hread (by decide +kernel)

/-- With a bubble in its place all but the counter would have been the same. -/
theorem readMcycle_readOf :
    Csr.ReadOf (readMcycleCore 10).csr ((readMcycleCore 10).csr.step 0 .low false)
      ((readMcycleCore 10).csr.step (readMcycleCore 10).mw .low false) 0xb00#12 := by
  have hword : (SimTop.boot readMcycle .low 10).top.core.mw.pcAndInstr.word = 0xb0002173#32 := by
    decide +kernel
  have hread := (SimTop.boot_isRun readMcycle .low).top.csr_read 10 .csrrs rfl
    (by rw [hword]; decide) (by rw [hword]; decide) (readMcycleCore 10).csr .low
    (by decide +kernel) 0 ⟨rfl, rfl, rfl⟩ (by decide +kernel)
  rw [hword] at hread
  exact hread

end RiscvCpu
