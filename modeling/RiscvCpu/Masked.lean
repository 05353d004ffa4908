import RiscvCpu.CsrStep

/-!
# Interrupts that are disabled

After a reset interrupts are disabled in `mstatus`, and only a CSR instruction, a trap or
`mret` changes that.  A program without them is not interrupted, whatever the pins show.
-/

namespace RiscvCpu

/-- Interrupts are disabled. -/
def Core.Masked (c : Core) : Prop := mieBit c.csr.regs.mstatus = false

section Cycle

variable {c : Core} {i : CoreIn}

/-- With interrupts disabled the pins do not redirect the pc. -/
theorem Core.Masked.csrFlush (h : c.Masked) (pins : Pins) :
    c.csrFlush pins = c.csrFlush .low := by
  have hint : ∀ pins : Pins, c.csr.isInterupt c.mw pins = false :=
    fun _ => Csr.isInterupt_of_mie h
  simp [Core.csrFlush, csrPcNxt, Csr.csrPcNxt, Csr.excOrInt, Csr.csrWen, hint]

/-- Without a redirect the registers mirror the pins. -/
theorem Core.step_csr_mirrored (hr : c.pipeReset i = false) :
    (c.step i).csr.regs = c.csr.mirrored i.pins := by
  have hflush := csrFlush_of_pipeReset hr
  simp only [Core.csrFlush, csrPcNxt, Csr.csrPcNxt, Bool.or_eq_false_iff] at hflush
  change (c.csr.step c.mw i.pins i.reset).regs = _
  rw [reset_of_pipeReset hr, Csr.step, if_neg Bool.false_ne_true]
  simp [Csr.regsNxt, hflush]

/-- Without a redirect `mstatus` stays as it is. -/
theorem Core.Masked.step (h : c.Masked) (hr : c.pipeReset i = false) : (c.step i).Masked := by
  rw [Core.Masked, Core.step_csr_mirrored hr]
  exact h

theorem Core.masked_of_reset (hr : i.reset = true) : (c.step i).Masked := by
  change mieBit (c.csr.step c.mw i.pins i.reset).regs.mstatus = false
  rw [hr, Csr.step, if_pos rfl]
  decide

end Cycle

end RiscvCpu
