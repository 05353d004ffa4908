import RiscvCpu.Decoded
import RiscvCpu.Sync.Run

/-!
# One cycle of the core

The value of every pipeline register after a clock edge, as far as possible
without the enables of `hazard`.  A redirect of the CSR unit empties the
pipeline, a stall of the memory stage holds everything above it, and a stall of
fetch, of an operand or of the multicycle unit leaves a bubble behind.
-/

namespace RiscvCpu

section Edge

variable (c : Core) (i : CoreIn)

/-- Does the instruction in decode wait for an operand? -/
def Core.operandStall : Bool :=
  lustall c.dataDInstr c.de.instr c.em.instr c.memory.dataM1.instr ||
    bjstall c.dataDInstr c.de.instr c.em.instr

/-- `i_data_ok`. -/
def Core.iDataOk : Bool := c.fetch.iDataOk (c.csrPcNxt i.pins) i.iresp

/-- Is the register `fd` held? -/
def Core.frontStall : Bool :=
  c.stallDataOk i || !c.iDataOk i || c.operandStall || c.multicycleDoing

/-- Does the jump or branch in decode flush the word behind it? -/
def Core.jumpFlush : Bool :=
  (c.dataDInstr.ctl.bj == .bBeq || c.dataDInstr.ctl.bj == .jJal || c.dataDInstr.ctl.bj == .iJalr) &&
    !c.bpHit

variable {c i}

theorem Core.frontStall_eq :
    c.frontStall i =
      (c.stallDataOk i || c.multicycleDoing || (c.operandStall || !c.iDataOk i)) := by
  rw [frontStall]
  cases c.stallDataOk i <;> cases c.multicycleDoing <;> cases c.operandStall <;>
    cases c.iDataOk i <;> rfl

theorem Core.regstallEn_fd : (c.regstallEn i).fd = c.frontStall i := by
  simp [regstallEn, HazardIn.regstallEn, hazard, frontStall, operandStall, HazardIn.operandStall,
    iDataOk]

/-! ## Registers -/

theorem Core.step_fd (hr : c.pipeReset i = false) :
    (c.step i).fd =
      if c.frontStall i then c.fd else if c.jumpFlush then 0 else c.dataF i := by
  simp [Core.step, hr, pipereg, regstallEn, regflushEn, HazardIn.regstallEn, HazardIn.regflushEn,
    hazard, frontStall, operandStall, HazardIn.operandStall, iDataOk, jumpFlush]

theorem Core.step_de (hr : c.pipeReset i = false) :
    (c.step i).de =
      if c.stallDataOk i || c.multicycleDoing then c.de
      else if c.operandStall || !c.iDataOk i then 0 else c.dataD := by
  simp [Core.step, hr, pipereg, regstallEn, regflushEn, HazardIn.regstallEn, HazardIn.regflushEn,
    hazard, operandStall, HazardIn.operandStall, iDataOk]

theorem Core.step_em (hr : c.pipeReset i = false) :
    (c.step i).em =
      if c.stallDataOk i then c.em else if c.multicycleDoing then 0 else c.dataE := by
  simp [Core.step, hr, pipereg, regstallEn, regflushEn, HazardIn.regstallEn, HazardIn.regflushEn,
    hazard]

theorem Core.step_mw (hr : c.pipeReset i = false) :
    (c.step i).mw = if c.stallDataOk i then 0 else c.dataM i := by
  simp [Core.step, hr, pipereg, regstallEn, regflushEn, HazardIn.regstallEn, HazardIn.regflushEn,
    hazard]

theorem Core.csrFlush_of_pipeReset (hr : c.pipeReset i = false) : c.csrFlush i.pins = false := by
  have h := hr
  simp only [pipeReset, Bool.or_eq_false_iff] at h
  exact h.2

theorem Core.reset_of_pipeReset (hr : c.pipeReset i = false) : i.reset = false := by
  have h := hr
  simp only [pipeReset, Bool.or_eq_false_iff] at h
  exact h.1

theorem Core.step_memory (hr : c.pipeReset i = false) :
    (c.step i).memory = c.memory.step c.em false false c.dataE.instr.ctl i.dresp := by
  simp only [Core.step, hr, csrFlush_of_pipeReset hr]

theorem Core.stallDataOk_eq (hr : c.pipeReset i = false) :
    c.stallDataOk i = c.memory.stallDataOk c.em false i.dresp := by
  rw [stallDataOk, csrFlush_of_pipeReset hr]

/-- A word that is asked for has arrived with the answer of the port. -/
theorem Core.iDataOk_eq (hr : c.pipeReset i = false) (hreq : c.fetch.icacheReqO = true) :
    c.iDataOk i = i.iresp.dataOk := by
  have hf : (c.csrPcNxt i.pins).csrPcValid = false := csrFlush_of_pipeReset hr
  simp [iDataOk, Fetch.iDataOk, Fetch.ireq, hreq, hf]

/-- A word that is there without an answer was not asked for. -/
theorem Core.not_asked (hf : c.csrFlush i.pins = false) (hok : c.iDataOk i = true)
    (hd : i.iresp.dataOk = false) : c.fetch.icacheReqO = false := by
  have hv : (c.csrPcNxt i.pins).csrPcValid = false := hf
  rw [iDataOk, Fetch.iDataOk, hd, Fetch.ireq] at hok
  simpa [hv] using hok

theorem Core.step_icacheReqO (hr : c.pipeReset i = false) :
    (c.step i).fetch.icacheReqO =
      if c.iDataOk i then !c.stallDataOk i && !c.operandStall else c.fetch.icacheReqO := by
  have hf := csrFlush_of_pipeReset hr
  have hv : (c.csrPcNxt i.pins).csrPcValid = false := hf
  simp [Core.step, Fetch.step, reset_of_pipeReset hr, hv, HazardIn.fetchEn, hazard,
    HazardIn.operandStall, operandStall, iDataOk]

/-- A redirect asks for a new word. -/
theorem Core.step_icacheReqO_flush (hf : c.csrFlush i.pins = true) :
    (c.step i).fetch.icacheReqO = true := by
  have hv : (c.csrPcNxt i.pins).csrPcValid = true := hf
  simp [Core.step, Fetch.step, hv]

theorem Core.step_pc (hr : c.pipeReset i = false) :
    (c.step i).fetch.pc =
      if c.frontStall i then c.fetch.pc
      else c.fetch.pcJumpTar i.iresp c.bpHit c.instrCommit := by
  have hv : (c.csrPcNxt i.pins).csrPcValid = false := csrFlush_of_pipeReset hr
  simp [Core.step, Fetch.step, pcselect, reset_of_pipeReset hr, hv, regstallEn,
    HazardIn.regstallEn, hazard, frontStall, operandStall, HazardIn.operandStall, iDataOk]

/-- Fetch stops asking when a word has arrived that decode does not take. -/
theorem Core.of_step_icacheReqO (hr : i.reset = false)
    (hreq : (c.step i).fetch.icacheReqO = false) :
    c.pipeReset i = false ∧ c.iDataOk i = true ∧ c.frontStall i = true := by
  have hreset : c.pipeReset i = false := by
    by_contra hc
    have hf : c.csrFlush i.pins = true := by
      simpa [pipeReset, hr] using hc
    rw [step_icacheReqO_flush hf] at hreq
    cases hreq
  rw [step_icacheReqO hreset] at hreq
  have hok : c.iDataOk i = true := by
    by_contra hc
    rw [if_neg hc] at hreq
    refine hc ?_
    rw [iDataOk, Fetch.iDataOk, Fetch.ireq, hreq]
    simp
  rw [hok, if_pos rfl] at hreq
  refine ⟨hreset, hok, ?_⟩
  rw [frontStall_eq]
  revert hreq
  cases c.stallDataOk i <;> cases c.operandStall <;> simp

/-- The register `fd` takes the word that fetch hands on. -/
def Core.Captures (c : Core) (i : CoreIn) : Prop :=
  c.pipeReset i = false ∧ (c.regstallEn i).fd = false ∧ (c.regflushEn i).fd = false

instance (c : Core) (i : CoreIn) : Decidable (c.Captures i) :=
  inferInstanceAs (Decidable (_ ∧ _))

theorem Core.Captures.front (h : c.Captures i) :
    c.iDataOk i = true ∧ (c.step i).fd = c.dataF i := by
  obtain ⟨hr, hs, hf⟩ := h
  rw [regstallEn_fd] at hs
  have hjump : c.jumpFlush = false := hf
  rw [step_fd hr, hs, hjump]
  simp only [frontStall, Bool.or_eq_false_iff, Bool.not_eq_false'] at hs
  exact ⟨hs.1.1.2, rfl⟩

/-- A reset or a redirect empties the pipeline. -/
theorem Core.step_pipeReset (hr : c.pipeReset i = true) :
    (c.step i).fd = 0 ∧ (c.step i).de = 0 ∧ (c.step i).em = 0 ∧
      (c.step i).memory = ⟨.idle, 0⟩ ∧ (c.step i).mw = 0 := by
  simp [Core.step, hr, Memory.step]

end Edge

/-! ## Bubbles -/

@[simp] theorem FetchData.instr_zero : (0 : FetchData).instr = 0 := by decide

@[simp] theorem FetchData.csrCtl_zero : (0 : FetchData).csrCtl = 0 := by decide

/-- A bubble in decode flushes nothing. -/
theorem Core.jumpFlush_bubble {c : Core} (h : c.fd = 0) : c.jumpFlush = false := by
  have hd : c.dataDInstr = 0 := by
    rw [dataDInstr, h, FetchData.instr_zero]
  rw [jumpFlush, hd]
  rfl

theorem Instr.writes_ra_zero (instr : Instr) (en : Bool) : instr.writes en 0 = false := by
  cases h : instr.writes en 0 with
  | false => rfl
  | true =>
    simp only [Instr.writes, Bool.and_eq_true, bne_iff_ne, beq_iff_eq] at h
    exact absurd h.2.symm h.1.2

/-- Execute makes a bubble of a bubble. -/
theorem Core.dataE_bubble {c : Core} (h : c.de = 0) : c.dataE = 0 := by
  have ha : c.a = 0 := by
    simp only [a, operandE, h]
    rw [forwardE, if_neg, if_neg]
    · rfl
    · exact Bool.eq_false_iff.mp (Instr.writes_ra_zero _ _)
    · exact Bool.eq_false_iff.mp (Instr.writes_ra_zero _ _)
  have hb : c.regdatab = 0 := by
    simp only [regdatab, operandE, h]
    rw [forwardE, if_neg, if_neg]
    · rfl
    · exact Bool.eq_false_iff.mp (Instr.writes_ra_zero _ _)
    · exact Bool.eq_false_iff.mp (Instr.writes_ra_zero _ _)
  rw [dataE, ha, hb, h]
  rfl

/-! ## Runs of the core -/

/-- `s` is a run of `core` from reset. -/
def Core.IsRun (s : ℕ → Core) (i : ℕ → CoreIn) : Prop :=
  Sync.FromReset Core.step (fun j => j.reset = true) s i

theorem Core.pipeReset_of_reset {c : Core} {i : CoreIn} (h : i.reset = true) :
    c.pipeReset i = true := by
  rw [pipeReset, h]
  rfl

end RiscvCpu
