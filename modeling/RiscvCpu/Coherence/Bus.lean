import RiscvCpu.Uncached

/-!
# The caches behind the arbiter

Each cache sees the memory only while it is granted.  For a cache with a burst of its
own the memory is then the one its refill is about, beat for beat, and for any other
nothing happens.  So what is known of a cache alone with a memory holds of both caches
of the top module.
-/

namespace RiscvCpu

/-- The beats that are done of what input `j` of the arbiter is granted. -/
def SimTop.grantBeat (s : SimTop) (j : Fin 2) : ℕ :=
  if s.top.mux.busy = true ∧ s.top.mux.index = j then s.ram.beat else 0

section Bus

variable {s : SimTop} {i : SimTopIn} {ib : ℕ} {d : Cache ib} {j : Fin 2}

theorem SimTop.grantBeat_granted (hb : s.top.mux.busy = true) (hj : s.top.mux.index = j) :
    s.grantBeat j = s.ram.beat := if_pos ⟨hb, hj⟩

/-- Input `j` is the one a cache drives its burst on. -/
def SimTop.Drives (s : SimTop) (i : SimTopIn) (d : Cache ib) (j : Fin 2) : Prop :=
  s.top.mux.busy = true → s.top.mux.index = j → d.missState ≠ .idle → s.oreq i = d.creqNoSkip

theorem SimTop.drives_icache : s.Drives i s.top.icache 1 := by
  intro hb hj hn
  rw [oreq, VTop.oreq, CBusArbiter.oreq, if_pos hb, hj, VTop.ireqs, if_neg (by decide),
    VTop.icreq, ICache.creq, Cache.creq_of_miss hn]

theorem SimTop.drives_dcache : s.Drives i s.top.dcache 0 := by
  intro hb hj hn
  rw [oreq, VTop.oreq, CBusArbiter.oreq, if_pos hb, hj, VTop.ireqs, if_pos rfl, VTop.dcreq,
    Cache.creq_of_miss hn]

/-- Memory serves a cache. -/
theorem SimTop.Drives.served (h : s.Drives i d j) (hr : d.RefillOk (s.grantBeat j))
    (hl : d.LinesCached) (h39 : ib ≤ 39) :
    d.Served (s.grantBeat j) s.ram.word (s.top.mux.iresps (s.oresp i) j) := by
  by_cases hg : s.top.mux.busy = true ∧ s.top.mux.index = j
  · by_cases hn : d.missState = .idle
    · -- a single beat is none of the cache
      exact ⟨fun hc => absurd hn hc, fun hc => by rw [hn] at hc; cases hc⟩
    · have hk : s.ram.beat = s.grantBeat j := (grantBeat_granted hg.1 hg.2).symm
      rw [← hg.2, CBusArbiter.iresps_granted _ hg.1, hg.2, oresp, h hg.1 hg.2 hn]
      exact hr.served hl h39 hk i.ram hn
  · rw [CBusArbiter.iresps, if_neg (by simpa using hg)]
    exact Cache.served_zero _ _ _

/-- A word that changes only with the burst of a cache changes as that cache has it. -/
theorem SimTop.Drives.writtenAt (h : s.Drives i d j) (hr : d.RefillOk (s.grantBeat j))
    (hl : d.LinesCached) (h39 : ib ≤ 39) (hreset : i.reset = false) {a : ReqAddr ib}
    (hkeep : ¬(s.top.mux.busy = true ∧ s.top.mux.index = j ∧ d.missState ≠ .idle) →
      (s.step i).ram.word a.word = s.ram.word a.word) :
    (s.step i).ram.word a.word =
      d.writtenAt (s.top.mux.iresps (s.oresp i) j) a (s.ram.word a.word) := by
  by_cases hg : s.top.mux.busy = true ∧ s.top.mux.index = j
  · by_cases hn : d.missState = .idle
    · rw [hkeep fun hc => hc.2.2 hn, Cache.writtenAt, if_neg]
      rw [hn]
      exact fun hc => by cases hc.1
    · have hk : s.ram.beat = s.grantBeat j := (grantBeat_granted hg.1 hg.2).symm
      have hword : (s.step i).ram.word = s.ram.wordNxt (s.oreq i) (s.oresp i) := by
        simp [step, Ram.step, hreset]
      rw [hword, h hg.1 hg.2 hn, hr.wordNxt hl h39 hk hn, ← hg.2,
        CBusArbiter.iresps_granted _ hg.1]
  · have hz : s.top.mux.iresps (s.oresp i) j = 0 := if_neg (by simpa using hg)
    rw [hkeep fun hc => hg ⟨hc.1, hc.2.1⟩, Cache.writtenAt, hz, if_neg]
    exact fun hc => by cases hc.2.1

theorem SimTop.step_grantBeat_reset (s : SimTop) (hr : i.reset = true) (j : Fin 2) :
    (s.step i).grantBeat j = 0 := by
  have hmux : (s.step i).top.mux.busy = false := by
    simp [SimTop.step, VTop.step, CBusArbiter.step, topIn, hr]
  simp [grantBeat, hmux]

/-- The beats of a granted input go on with the memory. -/
theorem SimTop.step_grantBeat (hg : s.top.GrantOk s.ram.beat)
    (ha : s.top.Answered s.ram.beat (s.oresp i)) (hr : i.reset = false) (j : Fin 2) :
    (s.step i).grantBeat j =
      if s.top.mux.busy = true ∧ s.top.mux.index = j then nextBeat s.ram.beat (s.oresp i)
      else 0 := by
  have hmem : (s.step i).ram.beat = nextBeat s.ram.beat (s.oresp i) := by
    simp [step, Ram.step, hr]
  have hmux : (s.step i).top.mux = s.top.mux.step (s.top.ireqs i.pins) (s.oresp i) false := by
    rw [← hr]
    rfl
  rw [grantBeat, hmem]
  cases hb : s.top.mux.busy with
  | false =>
    have hz : nextBeat s.ram.beat (s.oresp i) = 0 := by
      rw [ha.idle hb, hg.rest hb]
      rfl
    rw [hz, ite_self, if_neg fun hc => by cases hc.1]
  | true =>
    rw [CBusArbiter.step, if_neg Bool.false_ne_true, if_pos hb] at hmux
    cases hl : (s.oresp i).last with
    | false =>
      rw [hmux, hl, if_neg Bool.false_ne_true, hb]
    | true =>
      have hz : nextBeat s.ram.beat (s.oresp i) = 0 := by
        rw [nextBeat, if_pos ((ha.last hb).mp hl).1, if_pos hl]
      rw [hz, ite_self, ite_self]

/-- The beats of a cache follow those of the memory, if it has a burst of its own or a single
beat. -/
theorem SimTop.step_grantBeat_cache (hg : s.top.GrantOk s.ram.beat)
    (ha : s.top.Answered s.ram.beat (s.oresp i)) (hr : i.reset = false)
    (hsingle : s.top.mux.busy = true → s.top.mux.index = j → d.missState = .idle →
      s.top.mux.savedReq.len = mlen1) :
    (s.step i).grantBeat j = d.beatNxt (s.grantBeat j) (s.top.mux.iresps (s.oresp i) j) := by
  rw [step_grantBeat hg ha hr]
  by_cases hgr : s.top.mux.busy = true ∧ s.top.mux.index = j
  · rw [if_pos hgr, grantBeat_granted hgr.1 hgr.2, ← hgr.2, CBusArbiter.iresps_granted _ hgr.1,
      Cache.beatNxt]
    by_cases hn : d.missState = .idle
    · have hlen := hsingle hgr.1 hgr.2 hn
      have hk : s.ram.beat = 0 := by
        have := hg.beats hgr.1
        rw [hlen] at this
        exact Nat.le_zero.mp this
      rw [if_pos hn, nextBeat, hk]
      cases hready : (s.oresp i).ready with
      | false => rfl
      | true =>
        have hl : (s.oresp i).last = true := (ha.last hgr.1).mpr ⟨hready, by rw [hk, hlen]; rfl⟩
        rw [if_pos rfl, if_pos hl]
    · rw [if_neg hn]
  · rw [if_neg hgr, grantBeat, if_neg hgr, CBusArbiter.iresps, if_neg (by simpa using hgr),
      Cache.beatNxt]
    split <;> rfl

/-- An idle instruction cache is granted a single beat. -/
theorem VTop.GrantOk.fetch_single {s : VTop} {beat : ℕ} (h : s.GrantOk beat)
    (hb : s.mux.busy = true) (hj : s.mux.index = (1 : Fin 2)) (hn : s.icache.missState = .idle) :
    s.FetchGranted s.mux.savedReq :=
  (h.fetch hb hj).resolve_left fun hp => hp.busy hn

/-- An idle data cache is granted a single beat. -/
theorem VTop.GrantOk.access_single {s : VTop} {beat : ℕ} (h : s.GrantOk beat)
    (hb : s.mux.busy = true) (hj : s.mux.index = (0 : Fin 2)) (hn : s.dcache.missState = .idle) :
    s.AccessGranted s.mux.savedReq :=
  (h.data hb hj).resolve_left fun hp => hp.busy hn

theorem SimTop.step_grantBeat_icache (hg : s.top.GrantOk s.ram.beat)
    (ha : s.top.Answered s.ram.beat (s.oresp i)) (hr : i.reset = false) :
    (s.step i).grantBeat 1 =
      Cache.beatNxt s.top.icache (s.grantBeat 1) (s.top.icresp (s.oresp i)) :=
  step_grantBeat_cache hg ha hr fun hb hj hn => (hg.fetch_single hb hj hn).burst.len

theorem SimTop.step_grantBeat_dcache (hg : s.top.GrantOk s.ram.beat)
    (ha : s.top.Answered s.ram.beat (s.oresp i)) (hr : i.reset = false) :
    (s.step i).grantBeat 0 =
      Cache.beatNxt s.top.dcache (s.grantBeat 0) (s.top.dcresp (s.oresp i)) :=
  step_grantBeat_cache hg ha hr fun hb hj hn => (hg.access_single hb hj hn).burst.len

/-! ## Memory -/

/-- Memory is written by the bursts of the data cache alone. -/
theorem SimTop.step_ram_word (hg : s.top.GrantOk s.ram.beat) (hr : i.reset = false)
    (hclean : (s.top.icreq i.pins).isWrite = false)
    (hrefill : Cache.RefillOk s.top.dcache (s.grantBeat 0)) (a : ReqAddr 8) :
    (s.step i).ram.word a.word =
      Cache.writtenAt s.top.dcache (s.top.dcresp (s.oresp i)) a (s.ram.word a.word) := by
  refine SimTop.drives_dcache.writtenAt hrefill hg.lines (by omega) hr fun hno => ?_
  have hword : (s.step i).ram.word = s.ram.wordNxt (s.oreq i) (s.oresp i) := by
    simp [step, Ram.step, hr]
  rw [hword, Ram.wordNxt, if_neg]
  simp only [Bool.and_eq_true]
  rintro ⟨⟨⟨hv, _⟩, hw⟩, hc⟩
  cases hb : s.top.mux.busy with
  | false =>
    rw [oreq, VTop.oreq, CBusArbiter.oreq, hb] at hv
    cases hv
  | true =>
    rcases s.top.index_cases with hj | hj
    · by_cases hn : s.top.dcache.missState = .idle
      · -- an uncached access is none of memory
        have hacc := hg.access_single hb hj hn
        rw [oreq, hacc.oreq hb hj] at hc
        have hun := hacc.uncached
        change isCached s.top.core.em.aluout = true at hc
        rw [hun] at hc
        cases hc
      · exact hno ⟨hb, hj, hn⟩
    · rw [oreq, VTop.oreq, CBusArbiter.oreq, if_pos hb, hj, VTop.ireqs, if_neg (by decide),
        hclean] at hw
      cases hw

/-! ## The distance between answers -/

/-- The instruction port rests after an answer, whether it comes from the cache or past
it. -/
theorem VTop.GrantOk.gap {s : VTop} {i : VTopIn} {beat : ℕ} (h : s.GrantOk beat)
    (hr : i.reset = false) (hf : s.core.csrFlush i.pins = false) (j : VTopIn) :
    s.core.Gap (s.coreIn i) ((s.step i).coreIn j).iresp.dataOk := by
  intro hok
  by_contra hne
  have hd : ((s.step i).iresp j).dataOk = true := Bool.not_eq_false _ ▸ hne
  cases hskip : Cache.skip (s.step i).icache ((s.step i).core.ireq j.pins).toDreq with
  | true =>
    have hlast : ((s.step i).icresp j.oresp).last = true := by
      rw [VTop.iresp, ICache.iresp, Cache.dresp_of_skip _ hskip] at hd
      exact hd
    have hne0 : (s.step i).icresp j.oresp ≠ 0 := by
      intro h0
      rw [h0] at hlast
      cases hlast
    obtain ⟨hb', hj'⟩ := CBusArbiter.iresps_ne_zero hne0
    have hidle : (s.step i).icache.missState = .idle := by
      simp only [Cache.skip, Bool.and_eq_true, beq_iff_eq] at hskip
      exact hskip.2
    cases hs : Cache.skip s.icache (s.core.ireq i.pins).toDreq with
    | true =>
      -- the word that is asked for has not arrived
      have hv : (s.core.ireq i.pins).valid = true := by
        simp only [Cache.skip, Bool.and_eq_true] at hs
        exact hs.1.2
      have hreq : s.core.fetch.icacheReqO = false := by
        refine Core.not_asked hf hok ?_
        change (s.iresp i).dataOk = false
        rw [VTop.iresp, ICache.iresp, Cache.dresp_of_skip _ hs]
        exact VTop.icresp_last hr hb'
      rw [Core.ireq, Fetch.ireq, hreq] at hv
      cases hv
    | false =>
      refine h.step_fetch hr hs (fun _ _ hg => ?_) hb' hj' hidle
      exact Bool.false_ne_true (hs.symm.trans (hg.skip hf))
  | false =>
    have hwait := (VTop.waits_of_hit hr (ICache.drespDataOk_of_dataOk hskip hd)).2
    exact Bool.false_ne_true (hwait.symm.trans hok)

end Bus

end RiscvCpu
