import RiscvCpu.CsrStep

/-!
# Who enables an interrupt

The unit rewrites `mie[3]`, `mie[7]` and `mie[11]` with the pins in every cycle, next to
`mip`.  So the enable bits last for the one cycle after a write of `mie`, and from then
on a pin enables its own interrupt.  An interrupt is taken by the gated pins, but named
by the raw ones.

`Csr.softMie` is the value software last wrote, and `Csr.LawfulInterrupt` what an
interrupt owes to it.
-/

namespace RiscvCpu

/-- The two interrupts the unit takes. -/
inductive IntCause where
  | software
  | timer
deriving DecidableEq, Repr

/-- The bit of `mie` and `mip`, also the code in `mcause`. -/
def IntCause.code : IntCause → ℕ
  | .software => 3
  | .timer => 7

/-- The pin of an interrupt. -/
def IntCause.pin : IntCause → Pins → Bool
  | .software, pins => pins.swint
  | .timer, pins => pins.trint

/-- The interrupt `mcause_name` looks at first. -/
def IntCause.first (pins : Pins) : IntCause := if pins.trint then .timer else .software

/-- `mcause` for an interrupt. -/
def IntCause.mcause (k : IntCause) : BitVec 64 := 1#1 ++ BitVec.ofNat 63 k.code

theorem IntCause.mcause_injective : Function.Injective mcause := by
  intro k l h
  cases k <;> cases l <;> first | rfl | (revert h; decide)

/-! ## What software wrote -/

/-- The instruction in write-back writes `mie`. -/
def Csr.writesMie (c : Csr) (i : CsrIn) : Bool :=
  c.csrWen i.dataM i.pins && i.dataM.csrCtlW.csrName == csrMie

section Soft

variable (s : ℕ → Csr) (i : ℕ → CsrIn)

/-- The value software last wrote to `mie`, zero if it never did. -/
def Csr.softMie : ℕ → BitVec 64
  | 0 => 0
  | t + 1 => if (s t).writesMie (i t) then (s t).wd (i t).dataM else softMie t

/-- The bit of a cause in the register `mie`: the bit just written, and the pin of the
cycle before when none was written. -/
def Csr.shown (k : IntCause) : ℕ → Bool
  | 0 => false
  | t + 1 =>
    if (s t).writesMie (i t) then (softMie s i (t + 1)).getLsbD k.code else k.pin (i t).pins

/-- Software has enabled the cause, and its pin is high. -/
def Csr.Ready (t : ℕ) (k : IntCause) : Prop :=
  k.pin (i t).pins = true ∧ (softMie s i t).getLsbD k.code = true

/-- An interrupt is taken in this cycle, and no exception. -/
def Csr.TakesInterrupt (c : Csr) (j : CsrIn) : Prop :=
  c.excOrInt j.dataM j.pins = true ∧ j.dataM.csrCtlW.isExcept = false

/-- An interrupt of cycle `t` is enabled in `mstatus`, and it is recorded under a cause
that is pending and that software has enabled. -/
def Csr.LawfulInterrupt (t : ℕ) : Prop :=
  (s t).TakesInterrupt (i t) →
    mieBit (s t).regs.mstatus = true ∧
      ∃ k, Ready s i t k ∧ (s (t + 1)).regs.mcause = k.mcause

/-- When a pin is let through by the register `mie`, the cause that is looked at first
is one that software has enabled. -/
def Csr.FirstEnabled (t : ℕ) : Prop :=
  mieBit (s t).regs.mstatus = true → (i t).dataM.pcW ≠ 0 →
    (i t).dataM.csrCtlW.isExcept = false →
    (∃ k : IntCause, k.pin (i t).pins = true ∧ shown s i k t = true) →
      (softMie s i t).getLsbD (IntCause.first (i t).pins).code = true

end Soft

/-! ## One cycle -/

section Step

variable {c : Csr} {i : CsrIn}

/-- Only a write takes precedence over the pins. -/
theorem Csr.step_mie :
    (c.step i.dataM i.pins false).regs.mie =
      if c.writesMie i then c.wd i.dataM else (c.mirrored i.pins).mie := by
  cases hw : c.csrWen i.dataM i.pins with
  | true =>
    rw [step_write hw, writesMie, hw]
    simp only [CsrRegs.write, Bool.true_and, beq_iff_eq]
    split_ifs <;> rfl
  | false =>
    simp only [step, regsNxt, writesMie, hw, Bool.false_eq_true, if_false, Bool.false_and]
    split_ifs <;> rfl

theorem Csr.mirrored_mie (k : IntCause) :
    (c.mirrored i.pins).mie.getLsbD k.code = k.pin i.pins := by
  cases k with
  | software => simp [mirrored, IntCause.code, IntCause.pin, getLsbD_setBit,
      -BitVec.getLsbD_eq_getElem]
  | timer => simp [mirrored, IntCause.code, IntCause.pin, getLsbD_setBit,
      -BitVec.getLsbD_eq_getElem]

theorem Csr.isInterupt_iff :
    c.isInterupt i.dataM i.pins = true ↔
      mieBit c.regs.mstatus = true ∧ i.dataM.pcW ≠ 0 ∧
        ∃ k : IntCause, k.pin i.pins = true ∧ c.regs.mie.getLsbD k.code = true := by
  have hex : (∃ k : IntCause, k.pin i.pins = true ∧ c.regs.mie.getLsbD k.code = true) ↔
      i.pins.swint = true ∧ c.regs.mie.getLsbD 3 = true ∨
        i.pins.trint = true ∧ c.regs.mie.getLsbD 7 = true := by
    constructor
    · rintro ⟨k, hk⟩
      cases k with
      | software => exact .inl hk
      | timer => exact .inr hk
    · rintro (h | h)
      · exact ⟨.software, h⟩
      · exact ⟨.timer, h⟩
  rw [hex]
  simp only [isInterupt, isSwint, isTrint, Bool.or_eq_true, Bool.and_eq_true, bne_iff_ne]
  tauto

/-- Without an exception the record names none. -/
theorem MemoryData.IsDecoded.exceptName {d : MemoryData} (h : d.IsDecoded)
    (he : d.csrCtlW.isExcept = false) : d.csrCtlW.exceptName = .eNoExcept := by
  unfold csrCtlW at he ⊢
  split at he
  · cases he
  · rename_i hld
    rw [if_neg hld]
    rcases h.csrCtl with hc | ⟨_, hc⟩
    · rw [hc] at he ⊢
      exact d.pcAndInstr.exceptName he
    · rw [hc] at he
      cases he

theorem Csr.mcause_of_interrupt (hd : i.dataM.IsDecoded) (ht : c.TakesInterrupt i)
    (hpin : ∃ k : IntCause, k.pin i.pins = true) :
    (c.step i.dataM i.pins false).regs.mcause = (IntCause.first i.pins).mcause := by
  rw [step_trap ht.1]
  simp only [ht.2, mcauseName, hd.exceptName ht.2, IntCause.first, IntCause.mcause]
  cases htr : i.pins.trint with
  | true => rfl
  | false =>
    have hsw : i.pins.swint = true := by
      obtain ⟨k, hk⟩ := hpin
      cases k with
      | software => exact hk
      | timer =>
        rw [IntCause.pin, htr] at hk
        cases hk
    rw [hsw]
    rfl

end Step

/-! ## Runs -/

section Run

variable {s : ℕ → Csr} {i : ℕ → CsrIn}

/-- The enable bits the unit goes by. -/
theorem Csr.IsRun.mie_eq (h : Csr.IsRun s i) (k : IntCause) (t : ℕ) :
    (s t).regs.mie.getLsbD k.code = shown s i k t := by
  cases t with
  | zero =>
    obtain ⟨x, j, hj, hs⟩ := h.start
    rw [hs, Csr.next, hj]
    simp [step, CsrRegs.initial, shown]
  | succ t =>
    rw [h.next_eq t, step_mie, shown, softMie]
    split
    · rfl
    · exact mirrored_mie k

/-- Exactly when the interrupts of a run are those that software has enabled. -/
theorem Csr.IsRun.lawful_interrupt_iff (h : Csr.IsRun s i) (t : ℕ)
    (hd : (i t).dataM.IsDecoded) : LawfulInterrupt s i t ↔ FirstEnabled s i t := by
  have hint : (s t).isInterupt (i t).dataM (i t).pins = true ↔
      mieBit (s t).regs.mstatus = true ∧ (i t).dataM.pcW ≠ 0 ∧
        ∃ k : IntCause, k.pin (i t).pins = true ∧ shown s i k t = true := by
    simp only [isInterupt_iff, h.mie_eq]
  constructor
  · intro hl hm hpc he hk
    have htakes : (s t).TakesInterrupt (i t) :=
      ⟨by rw [excOrInt, hint.mpr ⟨hm, hpc, hk⟩, Bool.or_true], he⟩
    obtain ⟨_, k, hready, hcause⟩ := hl htakes
    have hfirst : (s (t + 1)).regs.mcause = (IntCause.first (i t).pins).mcause := by
      rw [h.next_eq t]
      exact mcause_of_interrupt hd htakes ⟨k, hready.1⟩
    obtain rfl : IntCause.first (i t).pins = k :=
      IntCause.mcause_injective (hfirst.symm.trans hcause)
    exact hready.2
  · intro hf htakes
    have hi : (s t).isInterupt (i t).dataM (i t).pins = true := by
      simpa [excOrInt, htakes.2] using htakes.1
    obtain ⟨hm, hpc, k, hpin, hshown⟩ := hint.mp hi
    have henabled := hf hm hpc htakes.2 ⟨k, hpin, hshown⟩
    refine ⟨hm, IntCause.first (i t).pins, ⟨?_, henabled⟩, ?_⟩
    · -- the first cause is pending, since some cause is
      unfold IntCause.first
      cases htr : (i t).pins.trint with
      | true => exact htr
      | false =>
        cases k with
        | software => exact hpin
        | timer => exact absurd (htr.symm.trans hpin) Bool.false_ne_true
    · rw [h.next_eq t]
      exact mcause_of_interrupt hd htakes ⟨k, hpin⟩

end Run

/-! ## Two example runs -/

/-- The instructions of a list in write-back, one after the other from `pcInit` on, then
`nop`, with the pins held. -/
def Csr.inOrder (program : List (BitVec 32)) (pins : Pins) (t : ℕ) : CsrIn :=
  ⟨false, FetchData.inW ⟨pcInit + 4 * BitVec.ofNat 64 t, program.getD t nop, .pcplus4⟩, pins⟩

theorem FetchData.inW_isDecoded (d : FetchData) : d.inW.IsDecoded := ⟨rfl, .inl rfl⟩

/-- `csrrsi x0, mstatus, 8` with the timer pin high. -/
def timerUnasked : ℕ → CsrIn := Csr.inOrder [0x30046073#32] ⟨true, false, false⟩

/-- The timer interrupt is taken although nothing was ever written to `mie`. -/
theorem timerUnasked_taken :
    Csr.IsRun (Csr.runOf timerUnasked) timerUnasked ∧ (∀ t, (timerUnasked t).dataM.IsDecoded) ∧
    (∀ t < 2, (Csr.runOf timerUnasked t).writesMie (timerUnasked t) = false) ∧
    (Csr.runOf timerUnasked 1).TakesInterrupt (timerUnasked 1) ∧
    ¬Csr.LawfulInterrupt (Csr.runOf timerUnasked) timerUnasked 1 := by
  have htakes : (Csr.runOf timerUnasked 1).TakesInterrupt (timerUnasked 1) := by
    exact ⟨by decide, by decide⟩
  have hnone : ∀ k, (Csr.softMie (Csr.runOf timerUnasked) timerUnasked 1).getLsbD
      (IntCause.code k) = false := by
    intro k
    cases k <;> decide
  refine ⟨Csr.runOf_isRun fun _ => rfl, fun t => FetchData.inW_isDecoded _, by decide, htakes,
    fun h => ?_⟩
  obtain ⟨_, k, hready, _⟩ := h htakes
  exact Bool.false_ne_true ((hnone k).symm.trans hready.2)

/-- `csrrsi x0, mie, 8`, then `csrrsi x0, mstatus, 8`, with the software pin high. -/
def softwareAsked : ℕ → CsrIn := Csr.inOrder [0x30446073#32, 0x30046073#32] ⟨false, true, false⟩

theorem softwareAsked_lawful :
    Csr.LawfulInterrupt (Csr.runOf softwareAsked) softwareAsked 2 :=
  ((Csr.runOf_isRun fun _ => rfl).lawful_interrupt_iff 2 (FetchData.inW_isDecoded _)).mpr
    fun _ _ _ _ => by decide

end RiscvCpu
