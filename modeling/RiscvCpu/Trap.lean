import RiscvCpu.Records

/-!
# Traps and the register file

When the CSR unit takes a trap for the instruction in write-back, it writes no CSR
on behalf of the instruction and redirects the pc, but the register file is not
told: `regwrite_en` of `writeback` is not qualified with the trap as `csr_wen` is.
An instruction that raises an exception writes no register, except for a
misaligned load.  An interrupted instruction writes its register and is then
executed again after `mret`.
-/

namespace RiscvCpu

section Trap

variable {c : Core} {i : CoreIn}

/-! ## Exceptions and register writes -/

/-- A word that decode finds illegal, or that was fetched from a misaligned pc, or
that raises its own exception, writes no register. -/
theorem FetchData.isExcept_regwriteEn {d : FetchData} (he : d.csrCtl.isExcept = true) :
    d.instr.ctl.regwriteEn = false := by
  unfold csrCtl at he
  split at he
  · rename_i hmis
    rw [instr, word, if_neg hmis, decoder_zero]
    rfl
  · split at he
    · rename_i hill
      rw [instr, d.shape.undefined hill.1]
      rfl
    · exact d.shape.isExcept_regwriteEn he

/-- Of the instructions with an exception only a misaligned load writes a register. -/
theorem MemoryData.IsDecoded.regwriteEn {d : MemoryData} (h : d.IsDecoded)
    (he : d.csrCtlW.isExcept = true) (hne : d.csrCtlW.exceptName ≠ .eLdMisalign) :
    d.instr.ctl.regwriteEn = false := by
  unfold csrCtlW at he hne
  split at he
  · rename_i hmis
    rw [if_pos hmis] at hne
    exact absurd rfl hne
  · rcases h.csrCtl with hc | ⟨hw, _⟩
    · rw [hc] at he
      rw [h.instr]
      exact FetchData.isExcept_regwriteEn he
    · rw [h.instr] at hw ⊢
      exact d.pcAndInstr.shape.memwEn_regwriteEn hw

/-! ## One cycle -/

/-- The register file keeps its contents if and only if write-back changes no
register. -/
theorem Regs.step_eq_self_iff {regs : Regs} {w : WritebackData} (h0 : regs 0 = 0) :
    regs.step false w = regs ↔
      w.regwriteEn = false ∨ w.writereg = 0 ∨ regs w.writereg = w.writeData := by
  constructor
  · intro h
    by_contra hn
    simp only [not_or, Bool.not_eq_false] at hn
    obtain ⟨hen, hreg, hval⟩ := hn
    have := congrFun h w.writereg
    simp only [step, hreg, hen, Bool.false_eq_true, if_false, decide_true, Bool.and_self,
      if_true] at this
    exact hval this.symm
  · intro h
    funext r
    simp only [step, Bool.false_eq_true, if_false]
    split
    · rename_i hr
      rw [hr, h0]
    · rename_i hr
      split
      · rename_i hw
        simp only [Bool.and_eq_true, decide_eq_true_eq] at hw
        obtain ⟨rfl, hen⟩ := hw
        rcases h with h | h | h
        · rw [h] at hen
          cases hen
        · exact absurd h hr
        · exact h.symm
      · rfl

theorem Core.step_regfile_zero (c : Core) (i : CoreIn) : (c.step i).regfile 0 = 0 := by
  simp [Core.step, Regs.step]

theorem Core.IsRun.regfile_zero {s : ℕ → Core} {i : ℕ → CoreIn} (h : Core.IsRun s i) (t : ℕ) :
    (s t).regfile 0 = 0 :=
  Sync.FromReset.always h (P := fun c => c.regfile 0 = 0)
    (fun x j _ => x.step_regfile_zero j) (fun x j _ _ => x.step_regfile_zero j) t

/-- The trap taken in this cycle leaves the registers alone if and only if the
trapping instruction raised an exception other than that of a misaligned load, or
writes no register, or the register holds the value already. -/
theorem Core.Decoded.step_regfile_iff (hd : c.Decoded) (h0 : c.regfile 0 = 0)
    (hr : i.reset = false) (htrap : c.csr.excOrInt c.mw i.pins = true) :
    (c.step i).regfile = c.regfile ↔
      (c.csr.isInterupt c.mw i.pins = false ∧ c.mw.csrCtlW.exceptName ≠ .eLdMisalign) ∨
      c.mw.instr.ctl.regwriteEn = false ∨ c.mw.instr.writereg = 0 ∨
      c.regfile c.mw.instr.writereg = c.dataW.writeData := by
  have hstep : (c.step i).regfile = c.regfile.step false c.dataW := by
    rw [← hr]
    rfl
  rw [hstep, Regs.step_eq_self_iff h0]
  constructor
  · exact Or.inr
  · intro h
    rcases h with ⟨hint, hname⟩ | h
    · rw [Csr.excOrInt, hint, Bool.or_false] at htrap
      exact .inl (hd.mw.regwriteEn htrap hname)
    · exact h

end Trap

/-! ## Runs of the top module -/

/-- Exactly when a trap keeps the registers, in every state of every run. -/
theorem VTop.IsRun.trap_keeps_registers_iff {s : ℕ → VTop} {i : ℕ → VTopIn}
    (h : VTop.IsRun s i) (t : ℕ)
    (htrap : (s t).core.csr.excOrInt (s t).core.mw (i t).pins = true) :
    (s (t + 1)).core.regfile = (s t).core.regfile ↔
      ((s t).core.csr.isInterupt (s t).core.mw (i t).pins = false ∧
        (s t).core.mw.csrCtlW.exceptName ≠ .eLdMisalign) ∨
      (s t).core.mw.instr.ctl.regwriteEn = false ∨
      (s t).core.mw.instr.writereg = 0 ∨
      (s t).core.regfile (s t).core.mw.instr.writereg = (s t).core.dataW.writeData := by
  have hr : (i t).reset = false := Bool.eq_false_iff.mpr (h.noReset t)
  rw [h.next t]
  exact (h.core.decoded t).step_regfile_iff (h.core.regfile_zero t) hr htrap

/-! ## An interrupted addition -/

/-- `addi x1, x0, 5`, then `csrrsi x0, mstatus, 8`, which enables interrupts, then
`addi x1, x1, 1`. -/
def interruptedAdd : List (BitVec 32) := [0x00500093#32, 0x30046073#32, 0x00108093#32]

/-- The timer interrupt is pending all the time. -/
def Pins.timer : Pins := ⟨true, false, false⟩

/-- The interrupt is taken for `addi x1, x1, 1`, which is to be executed again, but
`x1` is incremented. -/
theorem interruptedAdd_writes :
    VTop.IsRun (fun t => (SimTop.boot interruptedAdd .timer t).top)
      (fun t => (SimTop.boot interruptedAdd .timer t).topIn (.fast .timer)) ∧
    (SimTop.boot interruptedAdd .timer 20).top.core.csr.excOrInt
      (SimTop.boot interruptedAdd .timer 20).top.core.mw .timer = true ∧
    (SimTop.boot interruptedAdd .timer 20).top.core.mw.pcW = 0x80000008#64 ∧
    (SimTop.boot interruptedAdd .timer 21).top.core.csr.regs.mepc = 0x80000008#64 ∧
    (SimTop.boot interruptedAdd .timer 20).top.core.regfile 1 = 5#64 ∧
    (SimTop.boot interruptedAdd .timer 21).top.core.regfile 1 = 6#64 :=
  ⟨(SimTop.boot_isRun interruptedAdd .timer).top, by decide +kernel, by decide +kernel,
    by decide +kernel, by decide +kernel, by decide +kernel⟩

/-- `ecall`. -/
def ecallOnly : List (BitVec 32) := [0x00000073#32]

theorem ecallOnly_keeps_registers :
    (SimTop.boot ecallOnly .low 11).top.core.regfile =
      (SimTop.boot ecallOnly .low 10).top.core.regfile :=
  ((SimTop.boot_isRun ecallOnly .low).top.trap_keeps_registers_iff 10 (by decide +kernel)).mpr
    (.inl ⟨by decide +kernel, by decide +kernel⟩)

end RiscvCpu
