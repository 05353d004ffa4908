import RiscvCpu.ArbiterRun
import RiscvCpu.Coherence.Memory
import RiscvCpu.Spacing

/-!
# Granted requests

The arbiter holds a grant until `last`, so a granted cache has to keep its request.
The burst of a miss is kept by the miss registers, and an uncached access of the
data side by the memory stage, which holds `em` and lets nothing reach write-back.
An uncached fetch is kept by `fetch` only as long as the CSR unit does not redirect
the pc: a redirect withdraws the request in the same cycle (`Withdraws`).

`VTop.GrantOk` is the invariant.  It holds as long as no fetch is withdrawn.
-/

namespace RiscvCpu

/-! ## The burst of a miss -/

section Miss

variable {ib : Nat} {s : Cache ib} {r : CbusReq} {dreq : DbusReq} {cresp : CbusResp}
  {fsmToMiss : Bool}

/-- The miss registers ask for the burst of `r`. -/
structure Cache.Presents (s : Cache ib) (r : CbusReq) : Prop where
  busy : s.missState ≠ .idle
  burst : r.SameBurst s.creqNoSkip

/-- A burst is kept until its last beat. -/
theorem Cache.Presents.step (h : s.Presents r) (hm : s.MayMiss dreq cresp fsmToMiss)
    (hl : cresp.last = false) : (s.step dreq cresp fsmToMiss false).Presents r := by
  have hf : fsmToMiss = false := by
    by_contra hc
    rcases hm.ready (Bool.not_eq_false _ ▸ hc) with hi | ⟨_, hl'⟩
    · exact h.busy hi
    · rw [hl] at hl'
      cases hl'
  subst hf
  have hkeep : (s.step dreq cresp false false).missState = s.missState ∧
      (s.step dreq cresp false false).creqAddr = s.creqAddr := by
    cases hs : s.missState with
    | idle => exact absurd hs h.busy
    | load =>
      obtain ⟨hst, hca, _⟩ := step_of_load dreq cresp hs
      rw [hl] at hst hca
      exact ⟨hst, hca⟩
    | writeback =>
      obtain ⟨hst, hca, _⟩ := step_of_writeback dreq cresp hs
      rw [hl] at hst
      exact ⟨hst, hca⟩
  refine ⟨hkeep.1 ▸ h.busy, ?_, h.burst.size, ?_, h.burst.len, h.burst.burst⟩
  · rw [h.burst.isWrite]
    simp only [creqNoSkip, hkeep.1]
  · rw [h.burst.addr]
    simp only [creqNoSkip, hkeep.2]

theorem Cache.Presents.creq (h : s.Presents r) :
    (s.creq dreq).valid = true ∧ r.SameBurst (s.creq dreq) := by
  rw [creq_of_miss h.busy]
  exact ⟨by simp [creqNoSkip, h.busy], h.burst⟩

end Miss

/-! ## Uncached requests -/

section Uncached

variable {s : VTop} {i : VTopIn} {r : CbusReq}

/-- The request `r` is an uncached fetch that goes past the instruction cache. -/
structure VTop.FetchGranted (s : VTop) (r : CbusReq) : Prop where
  idle : s.icache.missState = .idle
  asked : s.core.fetch.icacheReqO = true
  uncached : isCached s.core.fetch.pc = false
  burst : r.SameBurst (IbusReq.toDreq ⟨true, s.core.fetch.pc⟩).creqSkip

/-- The request `r` is an uncached access that goes past the data cache.  The
record in `em` waits for it, and nothing reaches write-back meanwhile. -/
structure VTop.AccessGranted (s : VTop) (r : CbusReq) : Prop where
  idle : s.dcache.missState = .idle
  waits : s.core.memory.state = .memory10
  isMem : s.core.em.instr.ctl.isMem = true
  uncached : isCached s.core.em.aluout = false
  mw : s.core.mw = 0
  burst : r.SameBurst (s.core.em.dataMtmp.dreq true).creqSkip

/-- A fetch is withdrawn: the CSR unit redirects the pc while the arbiter is granted
to the instruction cache for an uncached word. -/
def VTop.Withdraws (s : VTop) (pins : Pins) : Prop :=
  s.core.csrFlush pins = true ∧ s.mux.busy = true ∧ s.mux.index = (1 : Fin 2) ∧
    s.icache.missState = .idle

instance (pins : Pins) : Decidable (s.Withdraws pins) :=
  inferInstanceAs (Decidable (_ ∧ _))

theorem Core.csrFlush_of_mw {c : Core} (h : c.mw = 0) (pins : Pins) :
    c.csrFlush pins = false :=
  csrFlush_of_csrCtlW (by rw [h]; decide) (by rw [h]; rfl) pins

/-! ### A fetch -/

theorem VTop.FetchGranted.ireq (h : s.FetchGranted r) {pins : Pins}
    (hf : s.core.csrFlush pins = false) : s.core.ireq pins = ⟨true, s.core.fetch.pc⟩ := by
  have hv : (s.core.csrPcNxt pins).csrPcValid = false := hf
  rw [Core.ireq, Fetch.ireq, h.asked, hv]
  rfl

theorem VTop.FetchGranted.skip (h : s.FetchGranted r) {pins : Pins}
    (hf : s.core.csrFlush pins = false) : Cache.skip s.icache (s.core.ireq pins).toDreq = true := by
  rw [h.ireq hf]
  simp [Cache.skip, IbusReq.toDreq, h.idle, h.uncached]

/-- An uncached fetch is kept until it is answered, unless the pc is redirected. -/
theorem VTop.FetchGranted.step (h : s.FetchGranted r) (hr : i.reset = false)
    (hf : s.core.csrFlush i.pins = false) (hl : (s.icresp i.oresp).last = false) :
    (s.step i).FetchGranted r := by
  have hreset : s.core.pipeReset (s.coreIn i) = false := by
    rw [Core.pipeReset, Bool.or_eq_false_iff]
    exact ⟨hr, hf⟩
  have hskip := h.skip hf
  have hwait : s.core.iDataOk (s.coreIn i) = false := by
    rw [Core.iDataOk, Fetch.iDataOk, Bool.or_eq_false_iff]
    constructor
    · change (ICache.iresp s.icache (s.core.ireq i.pins) (s.icresp i.oresp)).dataOk = false
      rw [ICache.iresp, Cache.dresp_of_skip _ hskip]
      exact hl
    · rw [Bool.not_eq_false']
      exact congrArg IbusReq.valid (h.ireq hf)
  have hpc : (s.step i).core.fetch.pc = s.core.fetch.pc := by
    change (s.core.step _).fetch.pc = _
    rw [Core.step_pc hreset, Core.frontStall, hwait]
    simp
  have hmiss : ICache.fsmToMiss s.icache (s.core.ireq i.pins) (s.icresp i.oresp) = false := by
    simp [ICache.fsmToMiss, hskip]
  refine ⟨?_, ?_, hpc ▸ h.uncached, hpc ▸ h.burst⟩
  · change (ICache.step _ _ _ _).missState = _
    rw [ICache.step, hmiss, hr]
    exact Cache.step_of_idle _ _ h.idle
  · change (s.core.step _).fetch.icacheReqO = true
    rw [Core.step_icacheReqO hreset, hwait]
    exact h.asked

/-! ### An access -/

theorem VTop.AccessGranted.dreq (h : s.AccessGranted r) (pins : Pins) :
    s.core.dreq pins = s.core.em.dataMtmp.dreq true := by
  rw [Core.dreq, Memory.dreq, Memory.drivesM1, h.waits, h.isMem, Core.csrFlush_of_mw h.mw]
  rfl

theorem VTop.AccessGranted.skip (h : s.AccessGranted r) (pins : Pins) :
    Cache.skip s.dcache (s.core.dreq pins) = true := by
  rw [h.dreq]
  simp [Cache.skip, MemoryData.dreq, ExecuteData.dataMtmp, h.idle, h.uncached]

/-- An uncached access that goes past an idle cache waits in `em` for its beat. -/
theorem VTop.accessGranted_of_skip (hr : i.reset = false)
    (hskip : Cache.skip s.dcache (s.core.dreq i.pins) = true)
    (hdriven : s.core.memory.drivesM1 = true → isCached s.core.memory.dataM1.aluout = true)
    (hl : (s.dcresp i.oresp).ready = false) :
    (s.step i).AccessGranted (s.core.dreq i.pins).creqSkip ∧ (s.step i).core.em = s.core.em := by
  have hk := hskip
  simp only [Cache.skip, Bool.and_eq_true, Bool.not_eq_true', beq_iff_eq] at hk
  obtain ⟨⟨hun, hval⟩, hidle⟩ := hk
  have hfirst : s.core.memory.drivesM1 = false := by
    by_contra hc
    have hd := Bool.not_eq_false _ ▸ hc
    rw [Core.dreq, Memory.dreq, if_pos hd] at hun
    exact Bool.false_ne_true (hun.symm.trans (hdriven hd))
  have hdreq : s.core.dreq i.pins =
      s.core.em.dataMtmp.dreq (s.core.em.instr.ctl.isMem && !s.core.csrFlush i.pins) := by
    rw [Core.dreq, Memory.dreq, hfirst]
    rfl
  rw [hdreq] at hun hval
  simp only [MemoryData.dreq, Bool.and_eq_true, Bool.not_eq_true'] at hval
  obtain ⟨hmem, hflush⟩ := hval
  have hreset : s.core.pipeReset (s.coreIn i) = false := by
    rw [Core.pipeReset, Bool.or_eq_false_iff]
    exact ⟨hr, hflush⟩
  have hno : (s.coreIn i).dresp.addrOk = false := by
    change (DCache.dresp s.dcache (s.core.dreq i.pins) (s.dcresp i.oresp)).addrOk = false
    rw [DCache.dresp, Cache.dresp_of_skip _ hskip]
    exact hl
  -- in both of the remaining states the request stays in `em`
  have hstay : s.core.stallDataOk (s.coreIn i) = true ∧
      (s.core.step (s.coreIn i)).memory.state = .memory10 := by
    rw [Core.stallDataOk_eq hreset, Core.step_memory hreset]
    cases hst : s.core.memory.state with
    | idle =>
      rw [Memory.stallDataOk_idle hst, Memory.step_idle hst, hno, hmem]
      exact ⟨rfl, rfl⟩
    | memory10 =>
      rw [Memory.stallDataOk_memory10 hst, Memory.step_memory10 hst hmem, hno]
      exact ⟨rfl, rfl⟩
    | memory01 => simp [Memory.drivesM1, hst] at hfirst
    | memory11 => simp [Memory.drivesM1, hst] at hfirst
  have hem : (s.step i).core.em = s.core.em := by
    change (s.core.step _).em = _
    rw [Core.step_em hreset, hstay.1, if_pos rfl]
  have hmiss : DCache.fsmToMiss s.dcache (s.core.dreq i.pins) (s.dcresp i.oresp) = false := by
    by_contra hc
    have := DCache.fsmToMiss_cached (Bool.not_eq_false _ ▸ hc)
    rw [hdreq] at this
    exact Bool.false_ne_true (hun.symm.trans this)
  refine ⟨⟨?_, hstay.2, hem ▸ hmem, hem ▸ hun, ?_, ?_⟩, hem⟩
  · change (DCache.step _ _ _ _).missState = _
    rw [DCache.step, hmiss, hr]
    exact Cache.step_of_idle _ _ hidle
  · change (s.core.step _).mw = 0
    rw [Core.step_mw hreset, hstay.1, if_pos rfl]
  · rw [hem, hdreq, hmem, hflush]
    exact .refl _

theorem VTop.AccessGranted.step (h : s.AccessGranted r) (hr : i.reset = false)
    (hl : (s.dcresp i.oresp).ready = false) :
    (s.step i).AccessGranted r ∧ (s.step i).core.em = s.core.em := by
  have hdriven : s.core.memory.drivesM1 = true → isCached s.core.memory.dataM1.aluout = true := by
    simp [Memory.drivesM1, h.waits]
  obtain ⟨hnext, hem⟩ := accessGranted_of_skip hr (h.skip _) hdriven hl
  rw [h.dreq] at hnext
  exact ⟨{ hnext with burst := h.burst.trans hnext.burst }, hem⟩

end Uncached

/-! ## The invariant -/

/-- What the arbiter has granted is still asked for.  `beat` is the number of beats
that are done. -/
structure VTop.GrantOk (s : VTop) (beat : ℕ) : Prop where
  lines : Cache.LinesCached s.dcache
  /-- Only cached requests are driven a second time. -/
  driven : s.core.memory.drivesM1 = true → isCached s.core.memory.dataM1.aluout = true
  rest : s.mux.busy = false → beat = 0
  beats : s.mux.busy = true → beat ≤ s.mux.savedReq.len.toNat
  data : s.mux.busy = true → s.mux.index = (0 : Fin 2) →
    Cache.Presents s.dcache s.mux.savedReq ∨ s.AccessGranted s.mux.savedReq
  fetch : s.mux.busy = true → s.mux.index = (1 : Fin 2) →
    Cache.Presents s.icache s.mux.savedReq ∨ s.FetchGranted s.mux.savedReq

section Invariant

variable {s : VTop} {i : VTopIn} {beat : ℕ}

theorem VTop.index_cases (s : VTop) : s.mux.index = (0 : Fin 2) ∨ s.mux.index = (1 : Fin 2) :=
  Fin.exists_fin_two.mp ⟨s.mux.index, rfl⟩

/-- The granted request, unless it is withdrawn. -/
theorem VTop.GrantOk.request (h : s.GrantOk beat) (hb : s.mux.busy = true) {pins : Pins}
    (hw : ¬s.Withdraws pins) :
    (s.ireqs pins s.mux.index).valid = true ∧
      s.mux.savedReq.SameBurst (s.ireqs pins s.mux.index) := by
  rcases s.index_cases with hj | hj
  · rw [hj, ireqs, if_pos rfl, dcreq]
    rcases h.data hb hj with hp | ha
    · exact hp.creq
    · rw [Cache.creq_of_skip (ha.skip pins), ha.dreq]
      exact ⟨rfl, ha.burst⟩
  · rw [hj, ireqs, if_neg (by decide), icreq, ICache.creq]
    rcases h.fetch hb hj with hp | hf
    · exact hp.creq
    · have hflush : s.core.csrFlush pins = false := by
        by_contra hc
        exact hw ⟨Bool.not_eq_false _ ▸ hc, hb, hj, hf.idle⟩
      rw [Cache.creq_of_skip (hf.skip hflush), hf.ireq hflush]
      exact ⟨rfl, hf.burst⟩

/-- A withdrawn request is not valid. -/
theorem VTop.Withdraws.request {pins : Pins} (hw : s.Withdraws pins) :
    (s.ireqs pins s.mux.index).valid = false := by
  obtain ⟨hf, _, hj, hidle⟩ := hw
  have hv : (s.core.csrPcNxt pins).csrPcValid = true := hf
  rw [hj, ireqs, if_neg (by decide), icreq, ICache.creq]
  simp [Cache.creq, Cache.skip, Cache.creqNoSkip, IbusReq.toDreq, Core.ireq, Fetch.ireq, hv, hidle]

/-- The memory stage drives a request again only after it was accepted, and one it
has waited for only if it is cached. -/
theorem Memory.step_drivesM1 {m : Memory} {e : ExecuteData} {w reset : Bool} {ctl2 : Control}
    {r : DbusResp} (h : (m.step e w reset ctl2 r).drivesM1 = true) :
    (m.step e w reset ctl2 r).dataM1 = e.dataMtmp ∧
      (m.state = .idle ∧ (e.instr.ctl.isMem && !w) = true ∧ r.addrOk = true ∨
        isCached e.aluout = true) := by
  have hout : e.dataMtmp.aluout = e.aluout := rfl
  cases reset with
  | true => cases h
  | false =>
    cases hs : m.state <;> simp only [step, hs, Bool.false_eq_true, if_false] at h ⊢ <;>
      split_ifs at h ⊢ <;> simp_all [drivesM1, isCached]

/-- The data cache accepts no uncached request but the one that is granted, with its
beat. -/
theorem VTop.GrantOk.accepts_uncached (h : s.GrantOk beat)
    (hdreq : s.core.dreq i.pins = s.core.em.dataMtmp.dreq true)
    (hun : isCached s.core.em.aluout = false) (ha : (s.dresp i).addrOk = true) :
    s.mux.busy = true ∧ s.mux.index = (0 : Fin 2) ∧ s.AccessGranted s.mux.savedReq ∧
      i.oresp.ready = true := by
  have huncached : isCached (s.core.dreq i.pins).addr = false := by
    rw [hdreq]
    exact hun
  rw [dresp, DCache.dresp] at ha
  cases hskip : Cache.skip s.dcache (s.core.dreq i.pins) with
  | false =>
    simp only [Cache.dresp, hskip, h.lines.isHit_uncached (by omega) (by omega) huncached] at ha
    cases ha
  | true =>
    rw [Cache.dresp_of_skip _ hskip] at ha
    have hne : s.mux.iresps i.oresp (0 : Fin 2) ≠ 0 := by
      intro h0
      rw [dcresp, h0] at ha
      cases ha
    obtain ⟨hb, hj⟩ := CBusArbiter.iresps_ne_zero hne
    rw [dcresp, ← hj, CBusArbiter.iresps_granted _ hb] at ha
    rcases h.data hb hj with hp | hg
    · simp only [Cache.skip, Bool.and_eq_true, beq_iff_eq] at hskip
      exact absurd hskip.2 hp.busy
    · exact ⟨hb, hj, hg, ha⟩

theorem VTop.GrantOk.step_driven (h : s.GrantOk beat)
    (hd : (s.step i).core.memory.drivesM1 = true) :
    isCached (s.step i).core.memory.dataM1.aluout = true := by
  obtain ⟨hm1, hcase⟩ := Memory.step_drivesM1 hd
  change isCached (Memory.step _ _ _ _ _ _).dataM1.aluout = true
  rw [hm1]
  rcases hcase with ⟨hst, hm, ha⟩ | hc
  · have hvalid : (s.core.em.instr.ctl.isMem && !s.core.csrFlush i.pins) = true := hm
    have hdreq : s.core.dreq i.pins = s.core.em.dataMtmp.dreq true := by
      rw [Core.dreq, Memory.dreq, hvalid]
      simp [Memory.drivesM1, hst]
    by_contra hc
    have hg := (h.accepts_uncached hdreq (Bool.eq_false_iff.mpr hc) ha).2.2.1
    rw [hg.waits] at hst
    cases hst
  · exact hc

theorem VTop.GrantOk.step_lines (h : s.GrantOk beat) (hr : i.reset = false) :
    Cache.LinesCached (s.step i).dcache := by
  change Cache.LinesCached (DCache.step _ _ _ _)
  rw [DCache.step, hr]
  exact h.lines.step (by omega) (by omega) (DCache.mayMiss _ _ _) DCache.fsmToMiss_cached

/-! ### One cycle -/

/-- Memory answers the granted request alone, and marks the last beat of its burst. -/
structure VTop.Answered (s : VTop) (beat : ℕ) (oresp : CbusResp) : Prop where
  idle : s.mux.busy = false → oresp = 0
  last : s.mux.busy = true →
    (oresp.last = true ↔ oresp.ready = true ∧ beat = s.mux.savedReq.len.toNat)

theorem VTop.dcresp_granted (hb : s.mux.busy = true) (hj : s.mux.index = (0 : Fin 2))
    (oresp : CbusResp) : s.dcresp oresp = oresp := by
  rw [dcresp, ← hj, CBusArbiter.iresps_granted oresp hb]

theorem VTop.icresp_granted (hb : s.mux.busy = true) (hj : s.mux.index = (1 : Fin 2))
    (oresp : CbusResp) : s.icresp oresp = oresp := by
  rw [icresp, ← hj, CBusArbiter.iresps_granted oresp hb]

theorem VTop.dcresp_idle (hb : s.mux.busy = false) (oresp : CbusResp) : s.dcresp oresp = 0 := by
  simp [dcresp, CBusArbiter.iresps, hb]

theorem VTop.icresp_idle (hb : s.mux.busy = false) (oresp : CbusResp) : s.icresp oresp = 0 := by
  simp [icresp, CBusArbiter.iresps, hb]

/-- A valid request of the data cache keeps its burst in the next cycle. -/
theorem VTop.GrantOk.step_dcreq (h : s.GrantOk beat) (hr : i.reset = false)
    (hcr : s.dcresp i.oresp = 0) (hv : (s.dcreq i.pins).valid = true) :
    Cache.Presents (s.step i).dcache (s.dcreq i.pins) ∨
      (s.step i).AccessGranted (s.dcreq i.pins) := by
  cases hskip : Cache.skip s.dcache (s.core.dreq i.pins) with
  | true =>
    rw [dcreq, Cache.creq_of_skip hskip]
    exact .inr (accessGranted_of_skip hr hskip h.driven (by rw [hcr, CbusResp.zero_ready])).1
  | false =>
    have hreq : s.dcreq i.pins = Cache.creqNoSkip s.dcache := by
      rw [dcreq, Cache.creq, hskip]
      rfl
    rw [hreq] at hv ⊢
    have hp : Cache.Presents s.dcache (Cache.creqNoSkip s.dcache) :=
      ⟨by simpa [Cache.creqNoSkip] using hv, .refl _⟩
    refine .inl ?_
    change Cache.Presents (DCache.step _ _ _ _) _
    rw [DCache.step, hr]
    exact hp.step (DCache.mayMiss _ _ _) (by rw [hcr, CbusResp.zero_last])

/-- The burst of a miss of the instruction cache is kept in the next cycle. -/
theorem VTop.step_icreq_burst (hr : i.reset = false) (hcr : (s.icresp i.oresp).last = false)
    (hskip : Cache.skip s.icache (s.core.ireq i.pins).toDreq = false)
    (hv : (s.icreq i.pins).valid = true) :
    Cache.Presents (s.step i).icache (s.icreq i.pins) := by
  have hreq : s.icreq i.pins = Cache.creqNoSkip s.icache := by
    rw [icreq, ICache.creq, Cache.creq, hskip]
    rfl
  rw [hreq] at hv ⊢
  have hp : Cache.Presents s.icache (Cache.creqNoSkip s.icache) :=
    ⟨by simpa [Cache.creqNoSkip] using hv, .refl _⟩
  change Cache.Presents (ICache.step _ _ _ _) _
  rw [ICache.step, hr]
  exact hp.step (ICache.mayMiss _ _ _) hcr

/-- A valid request of the instruction cache keeps its burst in the next cycle. -/
theorem VTop.step_icreq (hr : i.reset = false) (hcr : (s.icresp i.oresp).last = false)
    (hv : (s.icreq i.pins).valid = true) :
    Cache.Presents (s.step i).icache (s.icreq i.pins) ∨
      (s.step i).FetchGranted (s.icreq i.pins) := by
  cases hskip : Cache.skip s.icache (s.core.ireq i.pins).toDreq with
  | false => exact .inl (step_icreq_burst hr hcr hskip hv)
  | true =>
    have hk := hskip
    simp only [Cache.skip, Bool.and_eq_true, Bool.not_eq_true', beq_iff_eq] at hk
    obtain ⟨⟨hun, hval⟩, hidle⟩ := hk
    have hasked : s.core.fetch.icacheReqO = true ∧ s.core.csrFlush i.pins = false := by
      simpa [IbusReq.toDreq, Core.ireq, Fetch.ireq, Core.csrFlush] using hval
    have hireq : s.core.ireq i.pins = ⟨true, s.core.fetch.pc⟩ :=
      congrArg (fun v => IbusReq.mk v s.core.fetch.pc) hval
    rw [icreq, ICache.creq, Cache.creq_of_skip hskip]
    have hf : s.FetchGranted (s.core.ireq i.pins).toDreq.creqSkip :=
      ⟨hidle, hasked.1, hun, by rw [hireq]; exact .refl _⟩
    exact .inr (hf.step hr hasked.2 hcr)

/-- A new grant. -/
theorem VTop.GrantOk.step_idle (h : s.GrantOk beat) (ha : s.Answered beat i.oresp)
    (hr : i.reset = false) (hb : s.mux.busy = false) :
    (s.step i).GrantOk (nextBeat beat i.oresp) := by
  have hmux : (s.step i).mux = ⟨(s.ireqs i.pins (select (s.ireqs i.pins))).valid,
      select (s.ireqs i.pins), s.ireqs i.pins (select (s.ireqs i.pins))⟩ := by
    simp [step, CBusArbiter.step, hr, hb]
  have hbeat : nextBeat beat i.oresp = 0 := by
    rw [ha.idle hb, h.rest hb]
    rfl
  rw [hbeat]
  refine ⟨h.step_lines hr, h.step_driven, fun _ => rfl, fun _ => Nat.zero_le _, ?_, ?_⟩
  · intro hv hj
    rw [hmux] at hv hj ⊢
    simp only at hv hj ⊢
    rw [hj] at hv ⊢
    exact h.step_dcreq hr (dcresp_idle hb _) hv
  · intro hv hj
    rw [hmux] at hv hj ⊢
    simp only at hv hj ⊢
    rw [hj] at hv ⊢
    exact step_icreq hr (by rw [icresp_idle hb, CbusResp.zero_last]) hv

/-- A burst of one beat ends with its first beat. -/
theorem VTop.GrantOk.single_beat (h : s.GrantOk beat) (hb : s.mux.busy = true)
    (ha : s.Answered beat i.oresp) (hlen : s.mux.savedReq.len = mlen1)
    (hl : i.oresp.last = false) : i.oresp.ready = false := by
  by_contra hc
  have hbeat := h.beats hb
  have hlast := (ha.last hb).mpr ⟨Bool.not_eq_false _ ▸ hc, by
    rw [hlen] at hbeat ⊢
    exact Nat.le_antisymm hbeat (Nat.zero_le _)⟩
  rw [hl] at hlast
  cases hlast

/-- A transaction goes on. -/
theorem VTop.GrantOk.step_busy (h : s.GrantOk beat) (ha : s.Answered beat i.oresp)
    (hr : i.reset = false) (hw : ¬s.Withdraws i.pins) (hb : s.mux.busy = true)
    (hl : i.oresp.last = false) : (s.step i).GrantOk (nextBeat beat i.oresp) := by
  have hmux : (s.step i).mux = s.mux := by
    simp [step, CBusArbiter.step, hr, hb, hl]
  refine ⟨h.step_lines hr, h.step_driven, ?_, fun _ => ?_, fun _ hj => ?_, fun _ hj => ?_⟩
  · intro hb'
    rw [hmux, hb] at hb'
    cases hb'
  · rw [hmux, nextBeat]
    have hbeat := h.beats hb
    cases hready : i.oresp.ready with
    | false => exact hbeat
    | true =>
      have hne : beat ≠ s.mux.savedReq.len.toNat := by
        intro heq
        have := (ha.last hb).mpr ⟨hready, heq⟩
        rw [hl] at this
        cases this
      rw [hl, if_pos rfl, if_neg Bool.false_ne_true]
      omega
  · rw [hmux] at hj ⊢
    rcases h.data hb hj with hp | hg
    · refine .inl ?_
      change Cache.Presents (DCache.step _ _ _ _) _
      rw [DCache.step, hr]
      exact hp.step (DCache.mayMiss _ _ _) (by rw [dcresp_granted hb hj, hl])
    · refine .inr (hg.step hr ?_).1
      rw [dcresp_granted hb hj]
      exact h.single_beat hb ha hg.burst.len hl
  · rw [hmux] at hj ⊢
    rcases h.fetch hb hj with hp | hg
    · refine .inl ?_
      change Cache.Presents (ICache.step _ _ _ _) _
      rw [ICache.step, hr]
      exact hp.step (ICache.mayMiss _ _ _) (by rw [icresp_granted hb hj, hl])
    · have hflush : s.core.csrFlush i.pins = false := by
        by_contra hc
        exact hw ⟨Bool.not_eq_false _ ▸ hc, hb, hj, hg.idle⟩
      exact .inr (hg.step hr hflush (by rw [icresp_granted hb hj, hl]))

/-- One cycle in which no fetch is withdrawn. -/
theorem VTop.GrantOk.step (h : s.GrantOk beat) (ha : s.Answered beat i.oresp)
    (hr : i.reset = false) (hw : ¬s.Withdraws i.pins) :
    (s.step i).GrantOk (nextBeat beat i.oresp) := by
  cases hb : s.mux.busy with
  | false => exact h.step_idle ha hr hb
  | true =>
    cases hl : i.oresp.last with
    | false => exact h.step_busy ha hr hw hb hl
    | true =>
      have hmux : (s.step i).mux.busy = false := by
        simp [VTop.step, CBusArbiter.step, hr, hb, hl]
      have hbeat : nextBeat beat i.oresp = 0 := by
        rw [nextBeat, ((ha.last hb).mp hl).1, hl]
        rfl
      have hno : ¬(s.step i).mux.busy = true := Bool.eq_false_iff.mp hmux
      rw [hbeat]
      exact ⟨h.step_lines hr, h.step_driven, fun _ => rfl, fun hb' => absurd hb' hno,
        fun hb' => absurd hb' hno, fun hb' => absurd hb' hno⟩

/-! ### Without uncached fetches -/

/-- The instruction cache is granted for bursts of misses alone. -/
def VTop.FetchBurst (s : VTop) : Prop :=
  s.mux.busy = true → s.mux.index = (1 : Fin 2) → s.icache.missState ≠ .idle

theorem VTop.FetchBurst.not_withdraws (h : s.FetchBurst) (pins : Pins) : ¬s.Withdraws pins :=
  fun hw => h hw.2.1 hw.2.2.1 hw.2.2.2

/-- The last beat of a transaction frees the arbiter. -/
theorem VTop.icresp_last (hr : i.reset = false) (hb : (s.step i).mux.busy = true) :
    (s.icresp i.oresp).last = false := by
  cases hb' : s.mux.busy with
  | false => rw [icresp_idle hb', CbusResp.zero_last]
  | true =>
    cases hl : i.oresp.last with
    | true => simp [VTop.step, CBusArbiter.step, hr, hb', hl] at hb
    | false =>
      rw [icresp, CBusArbiter.iresps]
      split
      · exact hl
      · rfl

/-- Without an uncached fetch the instruction cache is granted for a miss. -/
theorem VTop.GrantOk.step_fetch (h : s.GrantOk beat) (hr : i.reset = false)
    (hskip : Cache.skip s.icache (s.core.ireq i.pins).toDreq = false)
    (hno : s.mux.busy = true → s.mux.index = (1 : Fin 2) → ¬s.FetchGranted s.mux.savedReq)
    (hb' : (s.step i).mux.busy = true) (hj' : (s.step i).mux.index = (1 : Fin 2)) :
    (s.step i).icache.missState ≠ .idle := by
  have hlast := icresp_last hr hb'
  cases hb : s.mux.busy with
  | false =>
    have hmux : (s.step i).mux = ⟨(s.ireqs i.pins (select (s.ireqs i.pins))).valid,
        select (s.ireqs i.pins), s.ireqs i.pins (select (s.ireqs i.pins))⟩ := by
      simp [VTop.step, CBusArbiter.step, hr, hb]
    rw [hmux] at hb' hj'
    simp only at hb' hj'
    rw [hj'] at hb'
    exact (step_icreq_burst hr hlast hskip hb').busy
  | true =>
    have hmux : (s.step i).mux = s.mux := by
      cases hl : i.oresp.last with
      | true => simp [VTop.step, CBusArbiter.step, hr, hb, hl] at hb'
      | false => simp [VTop.step, CBusArbiter.step, hr, hb, hl]
    rw [hmux] at hj'
    change (ICache.step _ _ _ _).missState ≠ _
    rw [ICache.step, hr]
    exact (((h.fetch hb hj').resolve_right (hno hb hj')).step (ICache.mayMiss _ _ _) hlast).busy

theorem VTop.GrantOk.step_fetchBurst (h : s.GrantOk beat) (hf : s.FetchBurst)
    (hr : i.reset = false) (hc : (s.core.ireq i.pins).IsCached) : (s.step i).FetchBurst :=
  h.step_fetch hr hc.skip fun hb hj hg => hf hb hj hg.idle

end Invariant

/-! ## Runs of the system -/

section System

theorem Ram.last_resp (m : Ram) (req : CbusReq) (i : RamIn) :
    (m.resp req i).last = true ↔ (m.resp req i).ready = true ∧ m.beat = req.len.toNat := by
  unfold resp
  split <;> simp

/-- The memory of `SimTop` answers as the arbiter expects. -/
theorem SimTop.answered {s : SimTop} (h : s.top.GrantOk s.ram.beat) (i : SimTopIn)
    (hw : ¬s.top.Withdraws i.pins) : s.top.Answered s.ram.beat (s.oresp i) where
  idle hb := by simp [oresp, oreq, VTop.oreq, CBusArbiter.oreq, hb, Ram.resp]
  last hb := by
    have hreq : s.oreq i = s.top.ireqs i.pins s.top.mux.index := by
      rw [oreq, VTop.oreq, CBusArbiter.oreq, if_pos hb]
    rw [oresp, Ram.last_resp, (h.request hb hw).2.len, hreq]

theorem VTop.grantOk_of_reset (s : VTop) {i : VTopIn} (hr : i.reset = true) :
    (s.step i).GrantOk 0 := by
  have hmem : (s.step i).core.memory = ⟨.idle, 0⟩ :=
    (Core.step_pipeReset (Core.pipeReset_of_reset hr)).2.2.2.1
  have hidle : ¬(s.step i).mux.busy = true := by
    simp [step, CBusArbiter.step, hr]
  refine ⟨?_, fun hd => ?_, fun _ => rfl, fun hb => absurd hb hidle, fun hb => absurd hb hidle,
    fun hb => absurd hb hidle⟩
  · change Cache.LinesCached (DCache.step _ _ _ _)
    rw [DCache.step, hr]
    exact Cache.linesCached_of_reset _ _ _ _
  · rw [hmem] at hd
    cases hd

/-- The inputs of `mux`. -/
def VTop.muxIn (s : VTop) (i : VTopIn) : CBusArbiterIn 1 := ⟨i.reset, s.ireqs i.pins, i.oresp⟩

variable {s : ℕ → SimTop} {i : ℕ → SimTopIn}

theorem SimTop.IsRun.mux (h : SimTop.IsRun s i) :
    CBusArbiter.IsRun (fun t => (s t).top.mux) fun t => (s t).top.muxIn ((s t).topIn (i t)) :=
  h.project (fun x => x.top.mux) (fun x j => x.top.muxIn (x.topIn j)) (fun _ _ => rfl)
    (fun _ _ => Iff.rfl)

/-- The invariant holds up to any cycle before which no fetch is withdrawn. -/
theorem SimTop.IsRun.grantOk (h : SimTop.IsRun s i) (t : ℕ)
    (hw : ∀ u < t, ¬(s u).top.Withdraws (i u).pins) : (s t).top.GrantOk (s t).ram.beat := by
  refine Sync.FromReset.invariant h (A := fun x j => ¬x.top.Withdraws j.pins)
    (P := fun x => x.top.GrantOk x.ram.beat) ?_ ?_ t hw
  · intro x j hj
    have hbeat : (x.step j).ram.beat = 0 := by
      simp [step, Ram.step, hj]
    rw [hbeat]
    exact x.top.grantOk_of_reset hj
  · intro x j hj hw' hx
    have hr : j.reset = false := Bool.eq_false_iff.mpr hj
    have hbeat : (x.step j).ram.beat = nextBeat x.ram.beat (x.oresp j) := by
      simp [step, Ram.step, hr]
    rw [hbeat]
    exact hx.step (answered hx j hw') hr hw'

/-- The invariant of a run that fetches no uncached word. -/
theorem SimTop.IsRun.grantOk_of_cached (h : SimTop.IsRun s i) (t : ℕ)
    (hc : ∀ u < t, ((s u).top.core.ireq (i u).pins).IsCached) :
    (s t).top.GrantOk (s t).ram.beat ∧ (s t).top.FetchBurst := by
  induction t with
  | zero =>
    refine ⟨h.grantOk 0 fun u hu => absurd hu (Nat.not_lt_zero u), fun hb => ?_⟩
    rw [h.mux.reset_idle] at hb
    cases hb
  | succ t ih =>
    obtain ⟨hok, hf⟩ := ih fun u hu => hc u (by omega)
    have hr : (i t).reset = false := Bool.eq_false_iff.mpr (h.noReset t)
    have hw := hf.not_withdraws (i t).pins
    rw [h.next t]
    have hbeat : ((s t).step (i t)).ram.beat = nextBeat (s t).ram.beat ((s t).oresp (i t)) := by
      simp [step, Ram.step, hr]
    rw [hbeat]
    exact ⟨hok.step (answered hok (i t) hw) hr hw, hok.step_fetchBurst hf hr (hc t (by omega))⟩

/-- The granted request of cycle `t` is valid, and asks for the same burst as in the
cycle `g` of the grant. -/
def SimTop.KeepsGrant (s : ℕ → SimTop) (i : ℕ → SimTopIn) (t : ℕ) : Prop :=
  (s t).top.mux.busy = true →
    ((s t).top.ireqs (i t).pins (s t).top.mux.index).valid = true ∧
    ∃ g, CBusArbiter.Serves (fun u => (s u).top.mux)
        (fun u => (s u).top.muxIn ((s u).topIn (i u))) g (s t).top.mux.index t ∧
      ((s g).top.ireqs (i g).pins (s t).top.mux.index).SameBurst
        ((s t).top.ireqs (i t).pins (s t).top.mux.index)

/-- Granted requests are kept up to `last`, exactly as long as no fetch is withdrawn. -/
theorem SimTop.IsRun.keeps_grant_iff (h : SimTop.IsRun s i) (n : ℕ) :
    (∀ t ≤ n, KeepsGrant s i t) ↔ ∀ t ≤ n, ¬(s t).top.Withdraws (i t).pins := by
  constructor
  · intro hk t ht hw
    have hv := (hk t ht hw.2.1).1
    rw [hw.request] at hv
    cases hv
  · intro hw t ht hb
    have hok := h.grantOk t fun u hu => hw u (by omega)
    obtain ⟨hv, hsame⟩ := hok.request hb (hw t ht)
    obtain ⟨g, hg⟩ := h.mux.busy_serves hb
    have hsaved : (s t).top.mux.savedReq = (s g).top.ireqs (i g).pins (s t).top.mux.index :=
      congrArg CBusArbiter.savedReq (h.mux.serves_state hg)
    exact ⟨hv, g, hg, hsaved ▸ hsame⟩

end System

/-! ## A withdrawn fetch -/

/-- Eight times `nop`, `csrrw x1, mscratch, x0`, and `jalr x0, 0(x1)`, whose target
decode computes from what `x1` is forwarded as before the CSR is read. -/
def jumpAfterCsr : List (BitVec 32) :=
  [nop, nop, nop, nop, nop, nop, nop, nop, 0x340010f3#32, 0x00008067#32]

/-- In cycle 26 the arbiter is busy with the instruction cache, which has no valid
request. -/
theorem jumpAfterCsr_withdraws :
    SimTop.IsRun (SimTop.boot jumpAfterCsr .low) (fun _ => .fast .low) ∧
    (SimTop.boot jumpAfterCsr .low 26).top.mux.busy = true ∧
    ((SimTop.boot jumpAfterCsr .low 26).top.ireqs .low
      (SimTop.boot jumpAfterCsr .low 26).top.mux.index).valid = false :=
  ⟨SimTop.boot_isRun jumpAfterCsr .low, by decide +kernel, by decide +kernel⟩

theorem refill_keeps_grant :
    (SimTop.boot [] .low 6).top.mux.busy = true ∧
    SimTop.KeepsGrant (SimTop.boot [] .low) (fun _ => .fast .low) 6 :=
  ⟨by decide +kernel,
    ((SimTop.boot_isRun [] .low).keeps_grant_iff 6).mpr (by decide +kernel) 6 (by decide)⟩

end RiscvCpu
