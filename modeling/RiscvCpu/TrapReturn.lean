import RiscvCpu.CsrStep

/-!
# Trap entry and return

A trap saves the pc, the privilege mode and the interrupt enable bit in `mepc` and
`mstatus`, and clears the enable bit.  Nothing but a CSR write, another exception or
`mret` touches what is saved, and no interrupt is taken in the meantime, so the next
`mret` restores all three.
-/

namespace RiscvCpu

/-- A trap at `p` in mode `m` with the enable bit `b` is saved. -/
structure Csr.Saved (c : Csr) (p : BitVec 64) (m : BitVec 2) (b : Bool) : Prop where
  mie : mieBit c.regs.mstatus = false
  mpie : mpieBit c.regs.mstatus = b
  mpp : mppField c.regs.mstatus = m
  mepc : c.regs.mepc = p

/-- The registers that belong to the handler. -/
def Csr.handlerRegs (c : Csr) : BitVec 64 × BitVec 64 × BitVec 64 :=
  (c.regs.mtvec, c.regs.mscratch, c.regs.mtval)

section Step

variable {c : Csr} {dataM : MemoryData} {pins : Pins} {p : BitVec 64} {m : BitVec 2} {b : Bool}

theorem Csr.saved_of_trap (h : c.excOrInt dataM pins = true) :
    (c.step dataM pins false).Saved dataM.pcW c.mode (mieBit c.regs.mstatus) := by
  rw [step_trap h]
  exact ⟨by simp, by simp, by simp, rfl⟩

theorem Csr.handlerRegs_trap (h : c.excOrInt dataM pins = true) :
    (c.step dataM pins false).handlerRegs = c.handlerRegs := by
  rw [step_trap h]
  rfl

theorem Csr.Saved.step (h : c.Saved p m b) (hq : dataM.IsQuiet) :
    (c.step dataM pins false).Saved p m b := by
  rw [step_quiet hq (isInterupt_of_mie h.mie)]
  exact ⟨h.mie, h.mpie, h.mpp, h.mepc⟩

theorem Csr.Saved.handlerRegs_step (h : c.Saved p m b) (hq : dataM.IsQuiet) :
    (c.step dataM pins false).handlerRegs = c.handlerRegs := by
  rw [step_quiet hq (isInterupt_of_mie h.mie)]
  rfl

/-- `mret` redirects to the saved pc. -/
theorem Csr.Saved.csrPcNxt (h : c.Saved p m b) (hm : dataM.IsMret) :
    c.csrPcNxt dataM pins = ⟨true, p⟩ := by
  rw [csrPcNxt_mret hm (isInterupt_of_mie h.mie), h.mepc]

/-- `mret` restores the mode and the enable bit. -/
theorem Csr.Saved.step_mret (h : c.Saved p m b) (hm : dataM.IsMret) (pins : Pins) :
    (c.step dataM pins false).mode = m ∧ mieBit (c.step dataM pins false).regs.mstatus = b ∧
      (c.step dataM pins false).handlerRegs = c.handlerRegs := by
  rw [Csr.step_mret hm (isInterupt_of_mie h.mie)]
  exact ⟨h.mpp, by simp [h.mpie], rfl⟩

end Step

section Run

variable {s : ℕ → Csr} {i : ℕ → CsrIn}

/-- The saved state and the handler's registers outlast any number of quiet cycles. -/
theorem Csr.IsRun.saved (h : Csr.IsRun s i) {t : ℕ}
    (htrap : (s t).excOrInt (i t).dataM (i t).pins = true) (n : ℕ)
    (hquiet : ∀ u, t < u → u ≤ t + n → (i u).dataM.IsQuiet) :
    (s (t + n + 1)).Saved (i t).dataM.pcW (s t).mode (mieBit (s t).regs.mstatus) ∧
      (s (t + n + 1)).handlerRegs = (s t).handlerRegs := by
  induction n with
  | zero =>
    rw [Nat.add_zero, h.next_eq t]
    exact ⟨saved_of_trap htrap, handlerRegs_trap htrap⟩
  | succ n ih =>
    obtain ⟨hs, hregs⟩ := ih fun u hu hun => hquiet u hu (by omega)
    have hq := hquiet (t + n + 1) (by omega) (by omega)
    rw [← Nat.add_assoc, h.next_eq (t + n + 1)]
    exact ⟨hs.step hq, (hs.handlerRegs_step hq).trans hregs⟩

/-- The `mret` that ends a handler without CSR accesses returns to the trapping
instruction, in its mode and with its enable bit. -/
theorem Csr.IsRun.mret_inverts_trap (h : Csr.IsRun s i) (t n : ℕ)
    (htrap : (s t).excOrInt (i t).dataM (i t).pins = true)
    (hquiet : ∀ u, t < u → u ≤ t + n → (i u).dataM.IsQuiet)
    (hmret : (i (t + n + 1)).dataM.IsMret) :
    (∀ u, t < u → u ≤ t + n + 1 → (s u).excOrInt (i u).dataM (i u).pins = false) ∧
    (s (t + n + 1)).csrPcNxt (i (t + n + 1)).dataM (i (t + n + 1)).pins =
      ⟨true, (i t).dataM.pcW⟩ ∧
    (s (t + n + 2)).mode = (s t).mode ∧
    mieBit (s (t + n + 2)).regs.mstatus = mieBit (s t).regs.mstatus ∧
    ∀ u, t ≤ u → u ≤ t + n + 2 → (s u).handlerRegs = (s t).handlerRegs := by
  have hsaved : ∀ k ≤ n, (s (t + k + 1)).Saved (i t).dataM.pcW (s t).mode
      (mieBit (s t).regs.mstatus) ∧ (s (t + k + 1)).handlerRegs = (s t).handlerRegs :=
    fun k hk => h.saved htrap k fun u hu huk => hquiet u hu (by omega)
  obtain ⟨hend, hregs⟩ := hsaved n (Nat.le_refl n)
  obtain ⟨hmode, hmie, hlast⟩ := hend.step_mret hmret (i (t + n + 1)).pins
  rw [← h.next_eq (t + n + 1)] at hmode hmie hlast
  refine ⟨fun u hu hun => ?_, hend.csrPcNxt hmret, hmode, hmie, fun u hu hun => ?_⟩
  · obtain ⟨k, rfl⟩ : ∃ k, u = t + k + 1 := ⟨u - t - 1, by omega⟩
    have hno : (s (t + k + 1)).isInterupt (i (t + k + 1)).dataM (i (t + k + 1)).pins = false :=
      isInterupt_of_mie (hsaved k (by omega)).1.mie
    have hexc : (i (t + k + 1)).dataM.csrCtlW.isExcept = false := by
      rcases Nat.lt_or_ge k n with hk | hk
      · exact (hquiet _ (by omega) (by omega)).isExcept
      · obtain rfl : k = n := by omega
        exact hmret.isExcept
    rw [excOrInt, hexc, hno]
    rfl
  · rcases Nat.eq_or_lt_of_le hu with rfl | hu'
    · rfl
    · rcases Nat.eq_or_lt_of_le hun with rfl | hun'
      · exact hlast.trans hregs
      · obtain ⟨k, rfl⟩ : ∃ k, u = t + k + 1 := ⟨u - t - 1, by omega⟩
        exact (hsaved k (by omega)).2

end Run

/-! ## An example run -/

/-- `ecall` at `pcInit`, a bubble with both pins high, and `mret`. -/
def ecallThenMret (t : ℕ) : CsrIn :=
  match t with
  | 0 => ⟨false, FetchData.inW ⟨pcInit, 0x00000073#32, .pcplus4⟩, .low⟩
  | 1 => ⟨false, 0, ⟨true, true, false⟩⟩
  | _ => ⟨false, FetchData.inW ⟨pcInit + 0x100, 0x30200073#32, .pcplus4⟩, .low⟩

theorem ecallThenMret_returns :
    (Csr.runOf ecallThenMret 2).csrPcNxt (ecallThenMret 2).dataM (ecallThenMret 2).pins =
      ⟨true, pcInit⟩ := by
  have hrun : Csr.IsRun (Csr.runOf ecallThenMret) ecallThenMret :=
    Csr.runOf_isRun fun t => by
      unfold ecallThenMret
      split <;> rfl
  refine (hrun.mret_inverts_trap 0 1 (by decide) (fun u hu hun => ?_)
    ⟨by decide, by decide⟩).2.1
  obtain rfl : u = 1 := by omega
  exact ⟨by decide, by decide, by decide⟩

end RiscvCpu
