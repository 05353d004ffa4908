import RiscvCpu.Records

/-!
# One cycle of the CSR unit

The fields of `mstatus` as bits of a word, and the registers after a clock edge in
each of the four things the unit can do: take a trap, write a register, return from
a trap, or nothing.
-/

namespace RiscvCpu

/-! ## Fields of `mstatus` -/

section Fields

variable {x : BitVec 64} {b : Bool}

theorem getLsbD_setBit {i j : Nat} (b : Bool) (hi : i < 64) :
    (setBit x i b).getLsbD j = if j = i then b else x.getLsbD j := by
  unfold setBit
  cases b with
  | true =>
    simp only [if_true, BitVec.getLsbD_or, BitVec.getLsbD_shiftLeft, BitVec.getLsbD_one]
    by_cases h : j = i
    · subst h
      simp [hi]
    · rw [if_neg h]
      simp only [Bool.or_eq_left_iff_imp, Bool.and_eq_true, Bool.not_eq_true', decide_eq_true_eq,
        decide_eq_false_iff_not]
      omega
  | false =>
    simp only [Bool.false_eq_true, if_false, BitVec.getLsbD_and, BitVec.getLsbD_not,
      BitVec.getLsbD_shiftLeft, BitVec.getLsbD_one]
    by_cases h : j = i
    · subst h
      simp [hi]
    · rw [if_neg h]
      simp only [Bool.and_eq_left_iff_imp]
      intro hx
      have := BitVec.lt_of_getLsbD hx
      simp
      omega

@[simp] theorem mieBit_setMie : mieBit (setMie x b) = b := by
  simp [mieBit, setMie, getLsbD_setBit, -BitVec.getLsbD_eq_getElem]

@[simp] theorem mieBit_setMpie : mieBit (setMpie x b) = mieBit x := by
  simp [mieBit, setMpie, getLsbD_setBit, -BitVec.getLsbD_eq_getElem]

@[simp] theorem mieBit_setMpp {v : BitVec 2} : mieBit (setMpp x v) = mieBit x := by
  simp [mieBit, setMpp, getLsbD_setBit, -BitVec.getLsbD_eq_getElem]

@[simp] theorem mieBit_clearXs : mieBit (clearXs x) = mieBit x := by
  simp [mieBit, clearXs, getLsbD_setBit, -BitVec.getLsbD_eq_getElem]

@[simp] theorem mpieBit_setMie : mpieBit (setMie x b) = mpieBit x := by
  simp [mpieBit, setMie, getLsbD_setBit, -BitVec.getLsbD_eq_getElem]

@[simp] theorem mpieBit_setMpie : mpieBit (setMpie x b) = b := by
  simp [mpieBit, setMpie, getLsbD_setBit, -BitVec.getLsbD_eq_getElem]

@[simp] theorem mpieBit_setMpp {v : BitVec 2} : mpieBit (setMpp x v) = mpieBit x := by
  simp [mpieBit, setMpp, getLsbD_setBit, -BitVec.getLsbD_eq_getElem]

@[simp] theorem mppField_setMpp {v : BitVec 2} : mppField (setMpp x v) = v := by
  refine BitVec.eq_of_getLsbD_eq fun i hi => ?_
  rw [mppField, BitVec.getLsbD_extractLsb', setMpp]
  obtain rfl | rfl : i = 0 ∨ i = 1 := by omega
  · simp [getLsbD_setBit, -BitVec.getLsbD_eq_getElem]
  · simp [getLsbD_setBit, -BitVec.getLsbD_eq_getElem]

end Fields

/-! ## Runs -/

/-- The inputs of `csr`. -/
structure CsrIn where
  reset : Bool
  /-- The record in write-back. -/
  dataM : MemoryData
  pins : Pins
deriving DecidableEq, Repr

/-- The clock edge of `csr` for the inputs of a cycle. -/
def Csr.next (c : Csr) (i : CsrIn) : Csr := c.step i.dataM i.pins i.reset

/-- `s` is a run of `csr` from reset. -/
def Csr.IsRun (s : ℕ → Csr) (i : ℕ → CsrIn) : Prop :=
  Sync.FromReset Csr.next (fun j => j.reset = true) s i

theorem Csr.IsRun.next_eq {s : ℕ → Csr} {i : ℕ → CsrIn} (h : Csr.IsRun s i) (t : ℕ) :
    s (t + 1) = (s t).step (i t).dataM (i t).pins false := by
  have hr : (i t).reset = false := Bool.eq_false_iff.mpr (h.noReset t)
  rw [h.next t, Csr.next, hr]

/-- The inputs of `csr` in a core. -/
def Core.csrIn (c : Core) (i : CoreIn) : CsrIn := ⟨i.reset, c.mw, i.pins⟩

theorem Core.IsRun.csr {s : ℕ → Core} {i : ℕ → CoreIn} (h : Core.IsRun s i) :
    Csr.IsRun (fun t => (s t).csr) fun t => (s t).csrIn (i t) :=
  h.project Core.csr Core.csrIn (fun _ _ => rfl) fun _ _ => Iff.rfl

/-- A fetched word in write-back, with operands and data zero. -/
def FetchData.inW (d : FetchData) : MemoryData :=
  { (0 : MemoryData) with instr := d.instr, pcAndInstr := d, csrCtl := d.csrCtl }

/-- The run after reset under given inputs. -/
def Csr.runOf (i : ℕ → CsrIn) : ℕ → Csr := Sync.runFrom Csr.next ⟨.initial, machineMode⟩ i

theorem Csr.runOf_isRun {i : ℕ → CsrIn} (h : ∀ t, (i t).reset = false) :
    Csr.IsRun (runOf i) i where
  start := ⟨⟨.initial, machineMode⟩, ⟨true, 0, .low⟩, rfl, rfl⟩
  noReset t := Bool.eq_false_iff.mp (h t)
  next _ := rfl

/-! ## What the unit can do -/

section Step

variable {c : Csr} {dataM : MemoryData} {pins : Pins}

/-- The instruction in write-back asks nothing of the unit. -/
structure MemoryData.IsQuiet (dataM : MemoryData) : Prop where
  isExcept : dataM.csrCtlW.isExcept = false
  csrWen : dataM.csrCtlW.csrWen = false
  isMret : dataM.csrCtlW.isMret = false

/-- The instruction in write-back is an `mret`. -/
structure MemoryData.IsMret (dataM : MemoryData) : Prop where
  isExcept : dataM.csrCtlW.isExcept = false
  isMret : dataM.csrCtlW.isMret = true

/-- No interrupt is taken with `mstatus.mie` clear. -/
theorem Csr.isInterupt_of_mie (h : mieBit c.regs.mstatus = false) :
    c.isInterupt dataM pins = false := by
  simp [isInterupt, isSwint, isTrint, h]

theorem Csr.step_trap (h : c.excOrInt dataM pins = true) :
    c.step dataM pins false =
      ⟨{ c.mirrored pins with
          mepc := dataM.pcW
          mcause := BitVec.ofBool (!dataM.csrCtlW.isExcept) ++ c.mcauseName dataM pins
          mstatus :=
            setMpp (setMie (setMpie c.regs.mstatus (mieBit c.regs.mstatus)) false) c.mode },
        machineMode⟩ := by
  simp [step, regsNxt, modeNxt, h, mirrored]

theorem Csr.step_quiet (hq : dataM.IsQuiet) (hi : c.isInterupt dataM pins = false) :
    c.step dataM pins false = ⟨c.mirrored pins, c.mode⟩ := by
  simp [step, regsNxt, modeNxt, excOrInt, csrWen, hi, hq.isExcept, hq.csrWen, hq.isMret]

theorem Csr.step_mret (hm : dataM.IsMret) (hi : c.isInterupt dataM pins = false) :
    c.step dataM pins false =
      ⟨{ c.mirrored pins with
          mstatus :=
            clearXs (setMpp (setMpie (setMie c.regs.mstatus (mpieBit c.regs.mstatus)) true) 0) },
        mppField c.regs.mstatus⟩ := by
  simp [step, regsNxt, modeNxt, excOrInt, csrWen, hi, hm.isExcept, hm.isMret, mirrored]

theorem Csr.csrPcNxt_mret (hm : dataM.IsMret) (hi : c.isInterupt dataM pins = false) :
    c.csrPcNxt dataM pins = ⟨true, c.regs.mepc⟩ := by
  simp [csrPcNxt, excOrInt, csrWen, hi, hm.isExcept, hm.isMret]

/-- A CSR instruction without an exception that is not interrupted writes its
register. -/
theorem Csr.step_write (h : c.csrWen dataM pins = true) :
    c.step dataM pins false =
      ⟨{ (c.mirrored pins).write dataM.csrCtlW.csrName (c.wd dataM) with
          mstatus :=
            setSd ((c.mirrored pins).write dataM.csrCtlW.csrName (c.wd dataM)).mstatus },
        c.mode⟩ := by
  have hwen := h
  simp only [csrWen, Bool.and_eq_true, Bool.not_eq_true'] at h
  obtain ⟨⟨⟨_, he⟩, hm⟩, hi⟩ := h
  simp [step, regsNxt, modeNxt, excOrInt, hwen, he, hm, hi]

end Step

end RiscvCpu
