import RiscvCpu.Records

/-!
# The distance between instructions

An instruction cache answers at most every second cycle, so the word after an
instruction reaches decode only when that instruction has left execute.  Unless
the instruction above is a multiplication or a division, a bubble stands between
any two instructions, and the state machine of the memory stage never sees a
second load or store while it is busy with a first.

The argument is one of the core and its instruction port alone.  `Core.Spaced` is
the invariant, `Core.Gap` what the port has to do for it, and the instruction
cache does that as long as no uncached word is fetched.
-/

namespace RiscvCpu

/-! ## The invariant -/

/-- The distance invariant.  `dataOk` is the answer of the instruction port in the
cycle. -/
structure Core.Spaced (c : Core) (dataOk : Bool) : Prop where
  /-- Only behind a multicycle instruction does an instruction follow at once. -/
  multi : c.de ≠ 0 → c.em ≠ 0 → c.em.instr.ctl.aluop = .aluMulticycle
  /-- Behind any other instruction in execute the next word is still asked for. -/
  waits : c.de ≠ 0 → c.de.instr.ctl.aluop ≠ .aluMulticycle →
    c.fetch.icacheReqO = true ∧ dataOk = false
  /-- `MEMORY10` waits for a load or store in `em`. -/
  request : c.memory.state = .memory10 → c.em.instr.ctl.isMem = true
  /-- Behind an accepted request stands a bubble. -/
  accepted : c.memory.state = .memory01 → c.em = 0
  single : c.memory.state ≠ .memory11

/-- The instruction port rests after an answer, and answers no request that was not
made. -/
def Core.Gap (c : Core) (i : CoreIn) (dataOkNxt : Bool) : Prop :=
  c.iDataOk i = true → dataOkNxt = false

section Step

variable {c : Core} {i : CoreIn} {dataOkNxt : Bool}

theorem Core.spaced_of_pipeReset (hr : c.pipeReset i = true) (dataOk : Bool) :
    (c.step i).Spaced dataOk := by
  obtain ⟨_, hde, hem, hm, _⟩ := step_pipeReset hr
  refine ⟨fun h => absurd hde h, fun h => absurd hde h, fun h => ?_, fun _ => hem, ?_⟩
  · rw [hm] at h
    cases h
  · rw [hm]
    exact nofun

/-- A load or store in `em` has a bubble behind it. -/
theorem Core.Spaced.de_bubble {dataOk : Bool} (h : c.Spaced dataOk) (hd : c.Decoded)
    (hm : c.em.instr.ctl.isMem = true) : c.de = 0 := by
  by_contra hde
  have hem : c.em ≠ 0 := by
    intro h0
    rw [h0] at hm
    cases hm
  have hadd : c.em.instr.ctl.aluop = .aluAdd := by
    rw [hd.em.instr] at hm ⊢
    exact FetchData.isMem_aluop hm
  rw [h.multi hde hem] at hadd
  cases hadd

/-- A stall of the memory stage means a load or store in `em`. -/
theorem Core.Spaced.isMem_of_stall {dataOk : Bool} (h : c.Spaced dataOk)
    (hr : c.pipeReset i = false) (hs : c.stallDataOk i = true) :
    c.em.instr.ctl.isMem = true := by
  rw [stallDataOk_eq hr] at hs
  cases hst : c.memory.state with
  | idle =>
    rw [Memory.stallDataOk_idle hst, Bool.and_eq_true] at hs
    exact hs.1
  | memory01 =>
    rw [Memory.stallDataOk_memory01 hst] at hs
    cases hs
  | memory10 => exact h.request hst
  | memory11 => exact absurd hst h.single

/-- An instruction that enters `de` does so with the answer of the port, and asks for
the next word in the same cycle. -/
theorem Core.Spaced.step_waits {dataOk : Bool} (h : c.Spaced dataOk) (hd : c.Decoded)
    (hr : c.pipeReset i = false) (hgap : c.Gap i dataOkNxt)
    (hde : (c.step i).de ≠ 0) (hm : (c.step i).de.instr.ctl.aluop ≠ .aluMulticycle) :
    (c.step i).fetch.icacheReqO = true ∧ dataOkNxt = false := by
  rw [step_de hr] at hde hm
  rw [step_icacheReqO hr]
  cases hs : c.stallDataOk i with
  | true =>
    -- a stalled memory stage has a bubble in `de`
    rw [hs] at hde
    exact absurd (h.de_bubble hd (h.isMem_of_stall hr hs)) hde
  | false =>
    rw [hs, Bool.false_or] at hde hm
    cases hmul : c.multicycleDoing with
    | true =>
      rw [hmul, if_pos rfl] at hm
      simp only [multicycleDoing, Bool.and_eq_true, beq_iff_eq] at hmul
      exact absurd hmul.2 hm
    | false =>
      rw [hmul, if_neg Bool.false_ne_true] at hde
      have hgo : (c.operandStall || !c.iDataOk i) = false := by
        by_contra hc
        rw [if_pos (Bool.not_eq_false _ ▸ hc)] at hde
        exact hde rfl
      simp only [Bool.or_eq_false_iff, Bool.not_eq_false'] at hgo
      rw [hgo.2, hgo.1]
      exact ⟨rfl, hgap hgo.2⟩

/-- The memory state machine under the invariant: an answered request leaves a bubble
in `em`, an unanswered one stays there. -/
theorem Core.Spaced.step_memory {dataOk : Bool} (h : c.Spaced dataOk) (hd : c.Decoded)
    (hr : c.pipeReset i = false) :
    ((c.step i).memory.state = .memory10 → (c.step i).em.instr.ctl.isMem = true) ∧
    ((c.step i).memory.state = .memory01 → (c.step i).em = 0) ∧
    (c.step i).memory.state ≠ .memory11 := by
  -- with a load or store in `em` execute holds a bubble
  have hexe : c.em.instr.ctl.isMem = true → c.dataE = 0 :=
    fun hm => dataE_bubble (h.de_bubble hd hm)
  rw [Core.step_memory hr, step_em hr, stallDataOk_eq hr]
  cases hst : c.memory.state with
  | idle =>
    rw [Memory.step_idle hst, Memory.stallDataOk_idle hst]
    cases hm : c.em.instr.ctl.isMem with
    | false => exact ⟨nofun, nofun, nofun⟩
    | true =>
      cases ha : i.dresp.addrOk with
      | true =>
        refine ⟨nofun, fun _ => ?_, nofun⟩
        simp [hexe hm]
      | false => exact ⟨fun _ => hm, nofun, nofun⟩
  | memory01 =>
    rw [Memory.step_memory01 hst, h.accepted hst]
    exact ⟨nofun, nofun, nofun⟩
  | memory10 =>
    have hm := h.request hst
    rw [Memory.step_memory10 hst hm, Memory.stallDataOk_memory10 hst, hexe hm]
    cases ha : i.dresp.addrOk with
    | false => exact ⟨fun _ => hm, nofun, nofun⟩
    | true =>
      cases c.em.aluout.getLsbD 31 with
      | true =>
        refine ⟨nofun, fun _ => ?_, nofun⟩
        simp
      | false => exact ⟨nofun, nofun, nofun⟩
  | memory11 => exact absurd hst h.single

/-- Two instructions meet in `de` and `em` only if the one in front was held by the
multicycle unit. -/
theorem Core.Spaced.step_multi {dataOk : Bool} (h : c.Spaced dataOk) (hd : c.Decoded)
    (hok : i.iresp.dataOk = dataOk) (hr : c.pipeReset i = false)
    (hde : (c.step i).de ≠ 0) (hem : (c.step i).em ≠ 0) :
    (c.step i).em.instr.ctl.aluop = .aluMulticycle := by
  rw [step_de hr] at hde
  rw [step_em hr] at hem ⊢
  cases hs : c.stallDataOk i with
  | true =>
    rw [hs] at hde
    exact absurd (h.de_bubble hd (h.isMem_of_stall hr hs)) hde
  | false =>
    rw [hs, Bool.false_or] at hde
    rw [hs] at hem
    rw [if_neg Bool.false_ne_true] at hem ⊢
    cases hmul : c.multicycleDoing with
    | true =>
      rw [hmul] at hem
      exact absurd rfl hem
    | false =>
      rw [hmul] at hde hem
      rw [if_neg Bool.false_ne_true] at hde hem ⊢
      -- the instruction moved out of execute, so the next word has just arrived
      have hmoved : c.de ≠ 0 := fun h0 => hem (dataE_bubble h0)
      by_contra hne
      obtain ⟨hreq, hno⟩ := h.waits hmoved hne
      have hwait : c.iDataOk i = false := by
        rw [iDataOk_eq hr hreq, hok, hno]
      rw [hwait, Bool.not_false, Bool.or_true, if_pos rfl] at hde
      exact hde rfl

/-- One cycle preserves the distance. -/
theorem Core.Spaced.step (h : c.Spaced i.iresp.dataOk) (hd : c.Decoded)
    (hgap : c.Gap i dataOkNxt) : (c.step i).Spaced dataOkNxt := by
  cases hr : c.pipeReset i with
  | true => exact spaced_of_pipeReset hr _
  | false =>
    obtain ⟨hreq, hacc, hsingle⟩ := h.step_memory hd hr
    exact ⟨h.step_multi hd rfl hr, h.step_waits hd hr hgap, hreq, hacc, hsingle⟩

end Step

/-! ## Runs of the core -/

/-- The distance holds up to any cycle before which the port rests after its
answers. -/
theorem Core.IsRun.spaced {s : ℕ → Core} {i : ℕ → CoreIn} (h : Core.IsRun s i) (t : ℕ)
    (hgap : ∀ u < t, (s u).Gap (i u) (i (u + 1)).iresp.dataOk) :
    (s t).Spaced (i t).iresp.dataOk := by
  induction t with
  | zero =>
    obtain ⟨x, j, hj, hs⟩ := h.start
    rw [hs]
    exact spaced_of_pipeReset (pipeReset_of_reset hj) _
  | succ t ih =>
    rw [h.next t]
    exact (ih fun u hu => hgap u (by omega)).step (h.decoded t) (hgap t (by omega))

/-! ## The instruction cache -/

section Port

variable {s : ICache} {ireq : IbusReq} {cresp : CbusResp}

/-- No uncached word is asked for. -/
def IbusReq.IsCached (ireq : IbusReq) : Prop := ireq.valid = true → isCached ireq.addr = true

theorem IbusReq.IsCached.skip (h : ireq.IsCached) : Cache.skip s ireq.toDreq = false := by
  cases hv : ireq.valid with
  | false => simp [Cache.skip, IbusReq.toDreq, hv]
  | true => simp [Cache.skip, IbusReq.toDreq, h hv]

/-- A word that does not skip the cache arrives with `dresp_data_ok`. -/
theorem ICache.drespDataOk_of_dataOk (h : Cache.skip s ireq.toDreq = false)
    (hok : (ICache.iresp s ireq cresp).dataOk = true) : s.drespDataOk = true := by
  simp only [ICache.iresp, DbusResp.toIresp, Cache.dresp, h, Bool.false_eq_true, if_false,
    Bool.and_eq_true] at hok
  exact hok.1.1

theorem ICache.iresp_dataOk (h : ireq.IsCached)
    (hok : (ICache.iresp s ireq cresp).dataOk = true) : s.drespDataOk = true :=
  drespDataOk_of_dataOk h.skip hok

/-- The word comes from the half of `hit_rdata` that the address selects. -/
theorem ICache.iresp_data (h : ireq.IsCached) :
    (ICache.iresp s ireq cresp).data =
      if ireq.addr.getLsbD 2 then s.hitRdata.extractLsb' 32 32
      else s.hitRdata.extractLsb' 0 32 := by
  simp only [ICache.iresp, DbusResp.toIresp, Cache.dresp, h.skip, Bool.false_eq_true, if_false]

/-- `dresp_data_ok` rises with a hit, one cycle at a time. -/
theorem ICache.step_drespDataOk (h : (ICache.step s false ireq cresp).drespDataOk = true) :
    s.drespDataOk = false ∧ Cache.fsmToHit s ireq.toDreq = true := by
  simp only [ICache.step, Cache.step, Bool.false_eq_true, if_false] at h
  cases hd : s.drespDataOk with
  | true =>
    rw [hd] at h
    cases h
  | false =>
    rw [hd] at h
    exact ⟨rfl, h⟩

theorem ICache.skip_of_fsmToHit (h : Cache.fsmToHit s ireq.toDreq = true) :
    Cache.skip s ireq.toDreq = false := by
  simp only [Cache.fsmToHit, Bool.and_eq_true, Bool.not_eq_true'] at h
  exact h.1.2

theorem ICache.valid_of_fsmToHit (h : Cache.fsmToHit s ireq.toDreq = true) : ireq.valid = true := by
  simp only [Cache.fsmToHit, Bool.and_eq_true] at h
  exact h.2.1

end Port

/-! ## Runs of the top module -/

section Top

variable {s : ℕ → VTop} {i : ℕ → VTopIn}

/-- The request of the core to the instruction cache in cycle `t` is no uncached
one. -/
def VTop.CachedFetch (s : ℕ → VTop) (i : ℕ → VTopIn) (t : ℕ) : Prop :=
  ((s t).core.ireq (i t).pins).IsCached

instance (t : ℕ) : Decidable (VTop.CachedFetch s i t) :=
  inferInstanceAs (Decidable (_ → _))

/-- A hit is found in a cycle in which fetch waits for the word. -/
theorem VTop.waits_of_hit {s : VTop} {i : VTopIn} (hr : i.reset = false)
    (hd : (s.step i).icache.drespDataOk = true) :
    Cache.fsmToHit s.icache (s.core.ireq i.pins).toDreq = true ∧
      s.core.iDataOk (s.coreIn i) = false := by
  simp only [step, hr] at hd
  obtain ⟨hno, hhit⟩ := ICache.step_drespDataOk hd
  have hv : (s.core.ireq i.pins).valid = true := ICache.valid_of_fsmToHit hhit
  have hquiet : (s.coreIn i).iresp.dataOk = false := by
    by_contra hq
    have := ICache.drespDataOk_of_dataOk (ICache.skip_of_fsmToHit hhit) (Bool.not_eq_false _ ▸ hq)
    exact Bool.false_ne_true (hno.symm.trans this)
  refine ⟨hhit, ?_⟩
  rw [Core.iDataOk, Fetch.iDataOk, hquiet, Bool.false_or, Bool.not_eq_false']
  exact hv

/-- The instruction cache rests after an answer. -/
theorem VTop.IsRun.gap (h : VTop.IsRun s i) {t : ℕ} (hc : CachedFetch s i (t + 1)) :
    (s t).core.Gap ((s t).coreIn (i t)) ((s (t + 1)).coreIn (i (t + 1))).iresp.dataOk := by
  intro hok
  by_contra hne
  have hnext : (s (t + 1)).icache.drespDataOk = true :=
    ICache.iresp_dataOk hc (Bool.not_eq_false _ ▸ hne)
  rw [h.next t] at hnext
  have hwait := (waits_of_hit (Bool.eq_false_iff.mpr (h.noReset t)) hnext).2
  exact Bool.false_ne_true (hwait.symm.trans hok)

theorem VTop.IsRun.spaced (h : VTop.IsRun s i) {t : ℕ} (hc : ∀ u ≤ t, CachedFetch s i u) :
    (s t).core.Spaced ((s t).coreIn (i t)).iresp.dataOk :=
  h.core.spaced t fun u hu => h.gap (hc (u + 1) (by omega))

/-- No back-to-back memory instructions in a run that fetches no uncached word. -/
theorem VTop.IsRun.no_adjacent_memory (h : VTop.IsRun s i) (t : ℕ)
    (hc : ∀ u ≤ t, CachedFetch s i u) :
    ((s t).core.em.instr.ctl.isMem = true → (s t).core.de = 0) ∧
    ((s t).core.de.pcAndInstr.rawInstr ≠ 0 → (s t).core.em.pcAndInstr.rawInstr ≠ 0 →
      (s t).core.em.instr.op.isMulDiv = true) ∧
    (s t).core.memory.state ≠ .memory11 ∧
    ((s t).core.memory.state = .memory01 → (s (t + 1)).core.memory.state ≠ .memory10) := by
  have hsp := h.spaced hc
  have hd := h.core.decoded t
  refine ⟨hsp.de_bubble hd, fun hde hem => ?_, hsp.single, fun hst => ?_⟩
  · have hmul := hsp.multi (fun h0 => hde (by rw [h0]; rfl)) (fun h0 => hem (by rw [h0]; rfl))
    rw [hd.em.instr] at hmul ⊢
    exact FetchData.multicycle_isMulDiv hmul
  · rw [h.next t]
    simp only [step]
    cases hr : (s t).core.pipeReset ((s t).coreIn (i t)) with
    | true =>
      rw [(Core.step_pipeReset hr).2.2.2.1]
      exact nofun
    | false =>
      rw [Core.step_memory hr, Memory.step_memory01 hst, hsp.accepted hst]
      exact nofun

end Top

/-! ## An example run -/

/-- `auipc x2, 0` and two loads from the address in `x2`. -/
def twoLoads : List (BitVec 32) := [0x00000117#32, 0x00012083#32, 0x00012083#32]

theorem twoLoads_no_adjacent_memory :
    (SimTop.boot twoLoads .low 10).top.core.em.instr.ctl.isMem = true ∧
    (SimTop.boot twoLoads .low 10).top.core.de = 0 := by
  have hmem : (SimTop.boot twoLoads .low 10).top.core.em.instr.ctl.isMem = true := by
    decide +kernel
  exact ⟨hmem, ((SimTop.boot_isRun twoLoads .low).top.no_adjacent_memory 10
    (by decide +kernel)).1 hmem⟩

end RiscvCpu
