import RiscvCpu.CoreStep
import RiscvCpu.SimTop

/-!
# What the pipeline records hold

A record carries the fetched word it stands for.  In every state of every run its
instruction is the one decode makes of that word, and so is what it asks of the
CSR unit, but for a misaligned store, whose exception the memory stage puts in
its place.
-/

namespace RiscvCpu

/-- The exception of a misaligned store. -/
def CsrCtl.sdMisalign : CsrCtl := { (0 : CsrCtl) with isExcept := true, exceptName := .eSdMisalign }

/-- The instruction and the CSR request of a record in `de` are decoded from its word. -/
structure DecodeData.IsDecoded (d : DecodeData) : Prop where
  instr : d.instr = d.pcAndInstr.instr
  csrCtl : d.csrCtl = d.pcAndInstr.csrCtl

/-- The same of a record in `em`. -/
structure ExecuteData.IsDecoded (d : ExecuteData) : Prop where
  instr : d.instr = d.pcAndInstr.instr
  csrCtl : d.csrCtl = d.pcAndInstr.csrCtl

/-- The same of a record behind the memory stage. -/
structure MemoryData.IsDecoded (d : MemoryData) : Prop where
  instr : d.instr = d.pcAndInstr.instr
  csrCtl : d.csrCtl = d.pcAndInstr.csrCtl ∨
    d.instr.ctl.memwEn = true ∧ d.csrCtl = CsrCtl.sdMisalign

/-- Every record of a core is decoded from its word. -/
structure Core.Decoded (c : Core) : Prop where
  de : c.de.IsDecoded
  em : c.em.IsDecoded
  dataM1 : c.memory.dataM1.IsDecoded
  mw : c.mw.IsDecoded

/-! ## Passing a record on -/

theorem DecodeData.IsDecoded.zero : (0 : DecodeData).IsDecoded where
  instr := FetchData.instr_zero.symm
  csrCtl := FetchData.csrCtl_zero.symm

theorem ExecuteData.IsDecoded.zero : (0 : ExecuteData).IsDecoded where
  instr := FetchData.instr_zero.symm
  csrCtl := FetchData.csrCtl_zero.symm

theorem MemoryData.IsDecoded.zero : (0 : MemoryData).IsDecoded where
  instr := FetchData.instr_zero.symm
  csrCtl := .inl FetchData.csrCtl_zero.symm

theorem ExecuteData.IsDecoded.dataMtmp {e : ExecuteData} (h : e.IsDecoded) :
    e.dataMtmp.IsDecoded where
  instr := h.instr
  csrCtl := by
    simp only [ExecuteData.dataMtmp]
    split
    · rename_i hs
      simp only [Bool.and_eq_true] at hs
      exact .inr ⟨hs.2, rfl⟩
    · exact .inl h.csrCtl

/-- The loaded data is no part of what a record asks for. -/
theorem MemoryData.IsDecoded.memrData {d : MemoryData} (h : d.IsDecoded) (r : BitVec 64) :
    { d with memrData := r }.IsDecoded :=
  ⟨h.instr, h.csrCtl⟩

/-- The register `dataM1` is cleared, held or loaded with the record in `em`. -/
theorem Memory.step_dataM1 (m : Memory) (e : ExecuteData) (w reset : Bool) (ctl2 : Control)
    (r : DbusResp) :
    (m.step e w reset ctl2 r).dataM1 = 0 ∨ (m.step e w reset ctl2 r).dataM1 = m.dataM1 ∨
      ∃ x, (m.step e w reset ctl2 r).dataM1 = { e.dataMtmp with memrData := x } := by
  cases reset with
  | true => exact .inl rfl
  | false =>
    refine .inr ?_
    obtain ⟨x, hx⟩ := m.step_keeps e w ctl2 r
    rw [hx]
    split
    · exact .inl rfl
    · exact .inr ⟨x, rfl⟩

theorem Memory.step_isDecoded {m : Memory} {e : ExecuteData} (hm : m.dataM1.IsDecoded)
    (he : e.IsDecoded) (w reset : Bool) (ctl2 : Control) (r : DbusResp) :
    (m.step e w reset ctl2 r).dataM1.IsDecoded := by
  rcases m.step_dataM1 e w reset ctl2 r with h | h | ⟨x, h⟩
  · rw [h]
    exact .zero
  · rw [h]
    exact hm
  · rw [h]
    exact he.dataMtmp.memrData x

/-! ## Runs -/

theorem Core.decoded_of_pipeReset {c : Core} {i : CoreIn} (hr : c.pipeReset i = true) :
    (c.step i).Decoded := by
  obtain ⟨_, hde, hem, hm, hmw⟩ := step_pipeReset hr
  refine ⟨?_, ?_, ?_, ?_⟩
  · rw [hde]
    exact .zero
  · rw [hem]
    exact .zero
  · rw [hm]
    exact .zero
  · rw [hmw]
    exact .zero

theorem Core.Decoded.step {c : Core} (h : c.Decoded) (i : CoreIn) : (c.step i).Decoded := by
  cases hr : c.pipeReset i with
  | true => exact decoded_of_pipeReset hr
  | false =>
    refine ⟨?_, ?_, ?_, ?_⟩
    · rw [step_de hr]
      split
      · exact h.de
      · split
        · exact .zero
        · exact ⟨rfl, rfl⟩
    · rw [step_em hr]
      split
      · exact h.em
      · split
        · exact .zero
        · exact ⟨h.de.instr, h.de.csrCtl⟩
    · exact Memory.step_isDecoded h.dataM1 h.em _ _ _ _
    · rw [step_mw hr]
      split
      · exact .zero
      · exact ⟨h.dataM1.instr, h.dataM1.csrCtl⟩

theorem Core.IsRun.decoded {s : ℕ → Core} {i : ℕ → CoreIn} (h : Core.IsRun s i) (t : ℕ) :
    (s t).Decoded :=
  Sync.FromReset.always h (fun _ _ hj => decoded_of_pipeReset (pipeReset_of_reset hj))
    (fun _ j _ hx => hx.step j) t

theorem VTop.IsRun.core {s : ℕ → VTop} {i : ℕ → VTopIn} (h : VTop.IsRun s i) :
    Core.IsRun (fun t => (s t).core) (fun t => (s t).coreIn (i t)) :=
  h.project VTop.core VTop.coreIn (fun _ _ => rfl) (fun _ _ => Iff.rfl)

/-! ## What follows for the instruction of a record -/

/-- The instruction of a fetched word has one of the shapes of the decoder. -/
theorem FetchData.shape (d : FetchData) : DecodeShape d.word (decoder d.word) :=
  decoder_shape d.word

theorem FetchData.isMem_aluop {d : FetchData} (h : d.instr.ctl.isMem = true) :
    d.instr.ctl.aluop = .aluAdd :=
  d.shape.isMem_aluop h

theorem FetchData.multicycle_isMulDiv {d : FetchData}
    (h : d.instr.ctl.aluop = .aluMulticycle) : d.instr.op.isMulDiv = true :=
  d.shape.multicycle_isMulDiv h

/-- A multiplication or division raises no exception of its own. -/
theorem FetchData.multicycle_csrCtl {d : FetchData} (h : d.instr.ctl.aluop = .aluMulticycle) :
    d.csrCtl = 0 := by
  unfold csrCtl
  split
  · rename_i hmis
    rw [instr, word, if_neg hmis, decoder_zero] at h
    cases h
  · split
    · rename_i hill
      rw [instr, d.shape.undefined hill.1] at h
      cases h
    · exact d.shape.multicycle_csrCtl h

/-- Without an exception a word names none. -/
theorem FetchData.exceptName (d : FetchData) (he : d.csrCtl.isExcept = false) :
    d.csrCtl.exceptName = .eNoExcept := by
  unfold csrCtl at he ⊢
  split at he
  · cases he
  · rename_i hal
    rw [if_neg hal]
    split at he
    · cases he
    · rename_i hill
      rw [if_neg hill]
      exact d.shape.exceptName he

/-- A CSR instruction asks for an access to its CSR. -/
theorem FetchData.isCsr_csrCtl {d : FetchData} (h : d.instr.op.isCsr = true) :
    (decoder d.word).IsCsrAccess d.word ∧ d.csrCtl = (decoder d.word).csrCtl := by
  refine ⟨decoder_isCsr h, ?_⟩
  unfold csrCtl
  split
  · rename_i hmis
    rw [instr, word, if_neg hmis, decoder_zero] at h
    cases h
  · rw [if_neg]
    rintro ⟨hu, _⟩
    rw [hu] at h
    cases h

/-- What is no load or store asks of the CSR unit what its word does. -/
theorem MemoryData.IsDecoded.csrCtlW_eq {d : MemoryData} (h : d.IsDecoded)
    (hrd : d.pcAndInstr.instr.ctl.memrEn = false) (hwr : d.pcAndInstr.instr.ctl.memwEn = false) :
    d.csrCtlW = d.pcAndInstr.csrCtl := by
  rw [csrCtlW, h.instr, hrd, Bool.and_false, if_neg Bool.false_ne_true]
  rcases h.csrCtl with hc | ⟨hw, _⟩
  · exact hc
  · rw [h.instr] at hw
    exact absurd (hw.symm.trans hwr) (by simp)

theorem MemoryData.IsDecoded.multicycle_csrCtlW {d : MemoryData} (h : d.IsDecoded)
    (hm : d.pcAndInstr.instr.ctl.aluop = .aluMulticycle) : d.csrCtlW = 0 := by
  obtain ⟨hrd, hwr⟩ := d.pcAndInstr.shape.multicycle_mem hm
  rw [h.csrCtlW_eq hrd hwr, FetchData.multicycle_csrCtl hm]

/-- A CSR instruction in write-back asks for a write of its CSR, and for nothing else. -/
theorem MemoryData.IsDecoded.isCsr_csrCtlW {d : MemoryData} (h : d.IsDecoded)
    (hc : d.instr.op.isCsr = true) :
    ∃ ra1 zimm, decoder d.pcAndInstr.word =
        csrAccess d.pcAndInstr.word d.instr.op ra1 zimm ∧
      d.csrCtlW = (csrAccess d.pcAndInstr.word d.instr.op ra1 zimm).csrCtl := by
  rw [h.instr] at hc ⊢
  obtain ⟨⟨ra1, zimm, hacc⟩, hctl⟩ := FetchData.isCsr_csrCtl hc
  refine ⟨ra1, zimm, hacc, ?_⟩
  have hmem : d.pcAndInstr.instr.ctl.memrEn = false ∧ d.pcAndInstr.instr.ctl.memwEn = false := by
    rw [FetchData.instr, hacc]
    exact ⟨rfl, rfl⟩
  rw [h.csrCtlW_eq hmem.1 hmem.2, hctl, hacc]
  rfl

/-- A CSR instruction in write-back redirects the pc, interrupted or not. -/
theorem Core.Decoded.csrFlush_of_isCsr {c : Core} (h : c.Decoded)
    (hc : c.mw.instr.op.isCsr = true) (pins : Pins) : c.csrFlush pins = true := by
  obtain ⟨ra1, zimm, _, hctl⟩ := h.mw.isCsr_csrCtlW hc
  cases hi : c.csr.isInterupt c.mw pins with
  | true => simp [csrFlush, csrPcNxt, Csr.csrPcNxt, Csr.excOrInt, hi]
  | false =>
    have hwen : c.csr.csrWen c.mw pins = true := by
      rw [Csr.csrWen, hi, hctl]
      rfl
    simp [csrFlush, csrPcNxt, Csr.csrPcNxt, hwen]

theorem Core.csrFlush_of_csrCtlW {c : Core} (hx : c.mw.csrCtlW = 0) (hpc : c.mw.pcW = 0)
    (pins : Pins) : c.csrFlush pins = false := by
  have hz : (0 : CsrCtl).isExcept = false ∧ (0 : CsrCtl).csrWen = false ∧
      (0 : CsrCtl).isMret = false := ⟨rfl, rfl, rfl⟩
  simp [csrFlush, csrPcNxt, Csr.csrPcNxt, Csr.excOrInt, Csr.csrWen, Csr.isInterupt, Csr.isSwint,
    Csr.isTrint, hx, hpc, hz]

/-- A bubble in write-back does not redirect the pc. -/
theorem Core.Decoded.csrFlush_of_bubble {c : Core} (h : c.Decoded) (h0 : c.mw.pcAndInstr = 0)
    (pins : Pins) : c.csrFlush pins = false := by
  have hinstr : c.mw.pcAndInstr.instr = 0 := by
    rw [h0, FetchData.instr_zero]
  have hx : c.mw.csrCtlW = 0 := by
    rw [h.mw.csrCtlW_eq (by rw [hinstr]; rfl) (by rw [hinstr]; rfl), h0, FetchData.csrCtl_zero]
  exact csrFlush_of_csrCtlW hx (by rw [MemoryData.pcW, h0]; rfl) pins

/-- A load or store in `de` is no work for the multicycle unit. -/
theorem Core.Decoded.not_multicycleDoing {c : Core} (hd : c.Decoded)
    (hm : c.de.instr.ctl.isMem = true) : c.multicycleDoing = false := by
  have hadd : c.de.instr.ctl.aluop = .aluAdd := by
    rw [hd.de.instr] at hm ⊢
    exact FetchData.isMem_aluop hm
  rw [multicycleDoing, hadd]
  exact Bool.and_false _

end RiscvCpu
