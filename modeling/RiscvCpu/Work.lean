import RiscvCpu.Coherence.Reachable
import RiscvCpu.Grant

/-!
# Work left on the bus

How many beats and grants it takes until the two caches have nothing more to ask for,
if the core holds its requests.  A miss costs the beats of its refill, those of the
write-back of the line it displaces, and a grant for each.  An uncached request costs
its grant and its beat.

The work of a cache never rises while the request to it is held or withdrawn
(`Cache.BusCycle.work_step`).  The work of the system falls in every cycle in which
memory is ready to answer (`SimTop.work_step`).
-/

namespace RiscvCpu

/-! ## One cache -/

section Work

variable {ib : Nat} (s : Cache ib) (dreq : DbusReq) (granted : Bool) (beat : ℕ)

/-- The work of the burst of the miss registers and of the write-back behind it. -/
def Cache.burstWork : ℕ :=
  let burst := if granted then 16 - beat else 17
  match s.missState with
  | .idle => 0
  | .load => burst + if s.wbMeta.valid && s.wbMeta.dirty then 17 else 0
  | .writeback => burst

/-- The work of a request that has not been dealt with.  A miss brings a refill and a
write-back at most. -/
def Cache.requestWork : ℕ :=
  if dreq.valid then
    if isCached dreq.addr then if s.isHit dreq then 0 else 35
    else if s.skip dreq && granted then 1 else 2
  else 0

/-- The work of a cache. -/
def Cache.work : ℕ := s.burstWork granted beat + s.requestWork dreq granted

/-- The cache bus as one cache sees it.  It is granted or not before and after the
cycle, with the beats of its transaction that are done. -/
structure Cache.BusCycle (cresp : CbusResp) (granted' : Bool) (beat' : ℕ) : Prop where
  /-- A grant is for a request of the cache. -/
  asked : granted = true → (s.creq dreq).valid = true ∧ beat ≤ (s.creq dreq).len.toNat
  alone : granted = false → cresp = 0
  last : granted = true →
    (cresp.last = true ↔ cresp.ready = true ∧ beat = (s.creq dreq).len.toNat)
  keeps : granted = true → cresp.last = false →
    granted' = true ∧ beat' = if cresp.ready then beat + 1 else beat
  frees : cresp.last = true → granted' = false
  grants : granted = false → granted' = true → (s.creq dreq).valid = true ∧ beat' = 0

variable {s dreq granted beat} {cresp : CbusResp} {fsmToMiss granted' : Bool} {dreq' : DbusReq}
  {beat' : ℕ}

@[simp] theorem Cache.requestWork_of_not_valid (h : dreq.valid = false) :
    s.requestWork dreq granted = 0 := by
  simp [requestWork, h]

theorem Cache.burstWork_le : s.burstWork granted beat ≤ 34 := by
  unfold burstWork
  cases s.missState <;> cases granted <;> cases s.wbMeta.valid && s.wbMeta.dirty <;>
    simp <;> omega

/-- A cache that has no work is idle, and the request to it is a hit. -/
theorem Cache.of_work_zero (h : s.work dreq granted beat = 0)
    (hg : granted = true → beat < 16) :
    s.missState = .idle ∧
      (dreq.valid = true → isCached dreq.addr = true ∧ s.isHit dreq = true) := by
  obtain ⟨hb, hr⟩ := Nat.add_eq_zero_iff.mp h
  constructor
  · cases hs : s.missState with
    | idle => rfl
    | load =>
      rw [burstWork, hs] at hb
      cases granted with
      | true =>
        have := hg rfl
        simp at hb
        omega
      | false => simp at hb
    | writeback =>
      rw [burstWork, hs] at hb
      cases granted with
      | true =>
        have := hg rfl
        simp at hb
        omega
      | false => simp at hb
  · intro hv
    cases hc : isCached dreq.addr <;> cases hh : s.isHit dreq <;>
      simp [requestWork, hv, hc, hh] at hr ⊢
    · split at hr <;> omega
    · split at hr <;> omega

/-! ### The request -/

theorem Cache.skip_idle (h : s.skip dreq = true) :
    s.missState = .idle ∧ dreq.valid = true ∧ isCached dreq.addr = false := by
  simp only [skip, Bool.and_eq_true, Bool.not_eq_true', beq_iff_eq] at h
  exact ⟨h.2, h.1.2, h.1.1⟩

theorem Cache.skip_of_idle (hs : s.missState = .idle) (hv : dreq.valid = true)
    (hu : isCached dreq.addr = false) : s.skip dreq = true := by
  simp [skip, hs, hv, hu]

/-- A miss pays for its refill and the write-back. -/
theorem Cache.MayMiss.work_step (h : s.MayMiss dreq cresp true) (hv : dreq.valid = true)
    (hc : isCached dreq.addr = true) (hnext : dreq' = dreq ∨ dreq'.valid = false) :
    (s.step dreq cresp true false).work dreq' granted' beat' < s.work dreq granted beat := by
  have hno := (h rfl).1
  have hbefore : s.requestWork dreq granted = 35 := by
    simp [requestWork, hv, hc, hno]
  have hafter : (s.step dreq cresp true false).requestWork dreq' granted' = 0 := by
    rcases hnext with rfl | hv'
    · simp [requestWork, hc, h.step_isHit]
    · exact requestWork_of_not_valid hv'
  have hburst : (s.step dreq cresp true false).burstWork granted' beat' ≤ 34 := burstWork_le
  rw [work, work, hbefore, hafter]
  omega

/-! ### Without a miss -/

/-- The work of a request that is held or withdrawn.  It falls with the grant and the
beat of an uncached request. -/
theorem Cache.BusCycle.requestWork_step (h : s.BusCycle dreq granted beat cresp granted' beat')
    (hnext : dreq' = dreq ∨ dreq'.valid = false)
    (hans : s.skip dreq = true → cresp.last = true → dreq'.valid = false) :
    (s.step dreq cresp false false).requestWork dreq' granted' ≤ s.requestWork dreq granted ∧
      (s.skip dreq = true → cresp.ready = true ∨ granted = false ∧ granted' = true →
        (s.step dreq cresp false false).requestWork dreq' granted' <
          s.requestWork dreq granted) := by
  have hpos : s.skip dreq = true → 0 < s.requestWork dreq granted := by
    intro hk
    obtain ⟨_, hv, hu⟩ := skip_idle hk
    cases granted <;> simp [requestWork, hv, hu, hk]
  rcases hnext with rfl | hv'
  · by_cases hk : s.skip dreq' = true
    · -- the request goes on, so its beat has not arrived
      obtain ⟨hi, hv, hu⟩ := skip_idle hk
      have hlast : cresp.last = false := by
        by_contra hc
        rw [hans hk (Bool.not_eq_false _ ▸ hc)] at hv
        cases hv
      have hk' : (s.step dreq' cresp false false).skip dreq' = true :=
        skip_of_idle (step_of_idle _ _ hi) hv hu
      have hready : cresp.ready = false := by
        by_contra hc
        have hr := Bool.not_eq_false _ ▸ hc
        have hg : granted = true := by
          by_contra hg
          rw [h.alone (Bool.not_eq_true _ ▸ hg)] at hr
          cases hr
        have hlen : (s.creq dreq').len = mlen1 := by
          rw [creq_of_skip hk]
          rfl
        have hbeat := (h.asked hg).2
        have hl := (h.last hg).mpr ⟨hr, by
          rw [hlen] at hbeat ⊢
          exact Nat.le_antisymm hbeat (Nat.zero_le _)⟩
        rw [hlast] at hl
        cases hl
      simp only [requestWork, hv, hu, hk, hk', if_true, Bool.true_and, Bool.false_eq_true,
        if_false]
      cases hg : granted with
      | true =>
        rw [(h.keeps hg hlast).1]
        simp [hready]
      | false => cases granted' <;> simp [hready]
    · refine ⟨?_, fun hk' => absurd hk' hk⟩
      rw [requestWork, requestWork, step_isHit]
      simp only [Bool.not_eq_true _ ▸ hk, Bool.false_and, Bool.false_eq_true, if_false]
      split
      · split
        · exact Nat.le_refl _
        · split <;> omega
      · exact Nat.le_refl _
  · rw [requestWork_of_not_valid hv']
    exact ⟨Nat.zero_le _, fun hk _ => hpos hk⟩

/-- The work of the burst under way falls with its grant and its beats. -/
theorem Cache.BusCycle.burstWork_step (h : s.BusCycle dreq granted beat cresp granted' beat') :
    (s.step dreq cresp false false).burstWork granted' beat' ≤ s.burstWork granted beat ∧
      (s.missState ≠ .idle → cresp.ready = true ∨ granted = false ∧ granted' = true →
        (s.step dreq cresp false false).burstWork granted' beat' < s.burstWork granted beat) := by
  by_cases hi : s.missState = .idle
  · refine ⟨?_, fun hn => absurd hi hn⟩
    simp [burstWork, step_of_idle dreq cresp hi]
  · have hcr : s.creq dreq = s.creqNoSkip := creq_of_miss hi
    have hlen : (s.creq dreq).len.toNat = 15 := by
      rw [hcr]
      rfl
    have hbeat : granted = true → beat ≤ 15 := fun hg => hlen ▸ (h.asked hg).2
    have hquiet : granted = false → cresp.ready = false ∧ cresp.last = false := by
      intro hg
      rw [h.alone hg]
      exact ⟨rfl, rfl⟩
    have hlast := h.last
    have hkeeps := h.keeps
    have hfrees := h.frees
    have hgrants := fun hg hg' => (h.grants hg hg').2
    rw [hlen] at hlast
    cases hs : s.missState with
    | idle => exact absurd hs hi
    | load =>
      obtain ⟨hst, _, _, _, hmeta, _⟩ := step_of_load dreq cresp hs
      simp only [burstWork, hst, hs, hmeta]
      cases granted <;> cases granted' <;> cases hl : cresp.last <;> cases hr : cresp.ready <;>
        cases hd : (s.wbMeta.valid && s.wbMeta.dirty) <;> simp_all <;> omega
    | writeback =>
      obtain ⟨hst, _⟩ := step_of_writeback dreq cresp hs
      simp only [burstWork, hst, hs]
      cases granted <;> cases granted' <;> cases hl : cresp.last <;> cases hr : cresp.ready <;>
        simp_all
      omega

/-- One cycle of a cache whose request is held or withdrawn. -/
theorem Cache.BusCycle.work_step (h : s.BusCycle dreq granted beat cresp granted' beat')
    (hm : s.MayMiss dreq cresp fsmToMiss)
    (hc : fsmToMiss = true → dreq.valid = true ∧ isCached dreq.addr = true)
    (hnext : dreq' = dreq ∨ dreq'.valid = false)
    (hans : s.skip dreq = true → cresp.last = true → dreq'.valid = false) :
    (s.step dreq cresp fsmToMiss false).work dreq' granted' beat' ≤ s.work dreq granted beat ∧
      (fsmToMiss = true ∨ cresp.ready = true ∨ granted = false ∧ granted' = true →
        (s.step dreq cresp fsmToMiss false).work dreq' granted' beat' <
          s.work dreq granted beat) := by
  cases fsmToMiss with
  | true =>
    have hlt : (s.step dreq cresp true false).work dreq' granted' beat' <
        s.work dreq granted beat := hm.work_step (hc rfl).1 (hc rfl).2 hnext
    exact ⟨hlt.le, fun _ => hlt⟩
  | false =>
    obtain ⟨hrle, hrlt⟩ := h.requestWork_step hnext hans
    obtain ⟨hble, hblt⟩ := h.burstWork_step
    refine ⟨Nat.add_le_add hble hrle, fun hmove => ?_⟩
    have hmove' := hmove.resolve_left Bool.false_ne_true
    -- the transaction is that of an uncached request or that of the miss registers
    have hvalid : (s.creq dreq).valid = true := by
      rcases hmove' with hr | ⟨hg, hg'⟩
      · refine (h.asked ?_).1
        by_contra hg
        rw [h.alone (Bool.not_eq_true _ ▸ hg)] at hr
        cases hr
      · exact (h.grants hg hg').1
    by_cases hi : s.missState = .idle
    · have hk : s.skip dreq = true := by
        by_contra hk
        rw [creq, if_neg hk] at hvalid
        simp [creqNoSkip, hi] at hvalid
      exact Nat.add_lt_add_of_le_of_lt hble (hrlt hk hmove')
    · exact Nat.add_lt_add_of_lt_of_le (hblt hi hmove') hrle

/-- A cache with work left that asks for nothing on the bus has a request that misses. -/
theorem Cache.misses_of_work (hv : (s.creq dreq).valid = false)
    (hw : 0 < s.work dreq granted beat) :
    s.missState = .idle ∧ dreq.valid = true ∧ isCached dreq.addr = true ∧
      s.isHit dreq = false := by
  have hk : s.skip dreq = false := by
    by_contra hc
    have hk := Bool.not_eq_false _ ▸ hc
    rw [creq_of_skip hk] at hv
    exact Bool.false_ne_true (hv.symm.trans (skip_idle hk).2.1)
  have hi : s.missState = .idle := by
    by_contra hn
    rw [creq_of_miss hn] at hv
    simp [creqNoSkip, hn] at hv
  have hrequest : 0 < s.requestWork dreq granted := by
    simpa [work, burstWork, hi] using hw
  have hvalid : dreq.valid = true := by
    by_contra hc
    rw [requestWork_of_not_valid (Bool.not_eq_true _ ▸ hc)] at hrequest
    omega
  have hcached : isCached dreq.addr = true := by
    by_contra hc
    rw [skip_of_idle hi hvalid (Bool.not_eq_true _ ▸ hc)] at hk
    cases hk
  refine ⟨hi, hvalid, hcached, ?_⟩
  by_contra hc
  simp [requestWork, hvalid, hcached, Bool.not_eq_false _ ▸ hc] at hrequest

end Work

/-! ## The system -/

section System

variable {s : SimTop} {i : SimTopIn}

/-- The arbiter is granted to input `j`. -/
def VTop.granted (s : VTop) (j : Fin 2) : Bool := s.mux.busy && s.mux.index = j

theorem VTop.granted_iff {s : VTop} {j : Fin 2} :
    s.granted j = true ↔ s.mux.busy = true ∧ s.mux.index = j := by
  simp [granted]

/-- The work left on the bus. -/
def SimTop.work (s : SimTop) (pins : Pins) : ℕ :=
  Cache.work s.top.dcache (s.top.core.dreq pins) (s.top.granted 0) s.ram.beat +
    Cache.work s.top.icache (s.top.core.ireq pins).toDreq (s.top.granted 1) s.ram.beat

/-- The core holds its requests in the next cycle or withdraws them, and it withdraws an
uncached request that has been answered. -/
structure SimTop.Holds (s : SimTop) (i : SimTopIn) (pins' : Pins) : Prop where
  data : (s.step i).top.core.dreq pins' = s.top.core.dreq i.pins ∨
    ((s.step i).top.core.dreq pins').valid = false
  dataDone : Cache.skip s.top.dcache (s.top.core.dreq i.pins) = true →
    (s.top.dcresp (s.oresp i)).last = true → ((s.step i).top.core.dreq pins').valid = false
  fetch : (s.step i).top.core.ireq pins' = s.top.core.ireq i.pins ∨
    ((s.step i).top.core.ireq pins').valid = false
  fetchDone : Cache.skip s.top.icache (s.top.core.ireq i.pins).toDreq = true →
    (s.top.icresp (s.oresp i)).last = true → ((s.step i).top.core.ireq pins').valid = false

/-- If the selected input is not valid no input is. -/
theorem not_valid_of_select {maxIndex : ℕ} {ireqs : Fin (maxIndex + 1) → CbusReq}
    (h : (ireqs (select ireqs)).valid = false) (j : Fin (maxIndex + 1)) :
    (ireqs j).valid = false := by
  unfold select at h
  cases hf : (List.finRange (maxIndex + 1)).find? fun i => (ireqs i).valid with
  | none => simpa using List.find?_eq_none.mp hf j (List.mem_finRange j)
  | some k =>
    rw [hf, Option.getD_some, List.find?_some hf] at h
    cases h

theorem SimTop.step_mux_busy (hr : i.reset = false) (hb : s.top.mux.busy = true) :
    (s.step i).top.mux =
      if (s.oresp i).last then { s.top.mux with busy := false, savedReq := 0 } else s.top.mux := by
  simp [step, VTop.step, topIn, CBusArbiter.step, hr, hb]

theorem SimTop.step_mux_idle (hr : i.reset = false) (hb : s.top.mux.busy = false) :
    (s.step i).top.mux = ⟨(s.top.ireqs i.pins (select (s.top.ireqs i.pins))).valid,
      select (s.top.ireqs i.pins), s.top.ireqs i.pins (select (s.top.ireqs i.pins))⟩ := by
  simp [step, VTop.step, topIn, CBusArbiter.step, hr, hb]

/-- The cache bus as the requester at input `j` sees it. -/
theorem SimTop.busCycle {ib : Nat} {c : Cache ib} {dreq : DbusReq} {j : Fin 2}
    (hg : s.top.GrantOk s.ram.beat) (hw : ¬s.top.Withdraws i.pins) (hr : i.reset = false)
    (hreq : s.top.ireqs i.pins j = c.creq dreq) :
    c.BusCycle dreq (s.top.granted j) s.ram.beat (s.top.mux.iresps (s.oresp i) j)
      ((s.step i).top.granted j) (s.step i).ram.beat := by
  have ha := answered hg i hw
  have hbeat : (s.step i).ram.beat = nextBeat s.ram.beat (s.oresp i) := by
    simp [SimTop.step, Ram.step, hr]
  have hresp : s.top.granted j = true → s.top.mux.iresps (s.oresp i) j = s.oresp i := by
    intro h
    obtain ⟨hb, hj⟩ := VTop.granted_iff.mp h
    rw [← hj, CBusArbiter.iresps_granted _ hb]
  have hquiet : s.top.granted j = false → s.top.mux.iresps (s.oresp i) j = 0 := by
    intro h
    by_contra hne
    exact Bool.false_ne_true (h.symm.trans
      (VTop.granted_iff.mpr (CBusArbiter.iresps_ne_zero hne)))
  refine ⟨fun h => ?_, hquiet, fun h => ?_, fun h hl => ?_, fun hl => ?_, fun h h' => ?_⟩
  · obtain ⟨hb, rfl⟩ := VTop.granted_iff.mp h
    obtain ⟨hv, hsame⟩ := hg.request hb hw
    rw [hreq] at hv hsame
    exact ⟨hv, hsame.len ▸ hg.beats hb⟩
  · obtain ⟨hb, rfl⟩ := VTop.granted_iff.mp h
    have hsame := (hg.request hb hw).2
    rw [hreq] at hsame
    rw [hresp h, ← hsame.len]
    exact ha.last hb
  · obtain ⟨hb, hj⟩ := VTop.granted_iff.mp h
    rw [hresp h] at hl ⊢
    refine ⟨?_, by rw [hbeat, nextBeat, hl]; simp⟩
    rw [VTop.granted_iff, step_mux_busy hr hb, hl]
    exact ⟨hb, hj⟩
  · cases h : s.top.granted j with
    | false =>
      rw [hquiet h] at hl
      cases hl
    | true =>
      rw [hresp h] at hl
      simp [VTop.granted, step_mux_busy hr (VTop.granted_iff.mp h).1, hl]
  · obtain ⟨hb', hj'⟩ := VTop.granted_iff.mp h'
    cases hb : s.top.mux.busy with
    | true =>
      -- a busy arbiter changes no grant
      rw [step_mux_busy hr hb] at hb' hj'
      split at hb'
      · cases hb'
      · rename_i hl
        rw [if_neg hl] at hj'
        exact absurd (h.symm.trans (VTop.granted_iff.mpr ⟨hb, hj'⟩)) Bool.false_ne_true
    | false =>
      rw [step_mux_idle hr hb] at hb' hj'
      simp only at hb' hj'
      rw [hj', hreq] at hb'
      refine ⟨hb', ?_⟩
      rw [hbeat, ha.idle hb, hg.rest hb]
      rfl

/-- One cycle of the system.  A ready memory takes work off the bus. -/
theorem SimTop.work_step {pins' : Pins} (hg : s.top.GrantOk s.ram.beat)
    (hw : ¬s.top.Withdraws i.pins) (hr : i.reset = false) (hclean : ICache.Clean s.top.icache)
    (hh : s.Holds i pins') :
    (s.step i).work pins' ≤ s.work i.pins ∧
      (i.ram.ready = true → 0 < s.work i.pins → (s.step i).work pins' < s.work i.pins) := by
  have hdreq : s.top.ireqs i.pins 0 = Cache.creq s.top.dcache (s.top.core.dreq i.pins) := rfl
  have hireq : s.top.ireqs i.pins 1 =
      Cache.creq s.top.icache (s.top.core.ireq i.pins).toDreq := rfl
  obtain ⟨hdle, hdlt⟩ := (busCycle hg hw hr hdreq).work_step (DCache.mayMiss _ _ _)
    (fun hm => ⟨by simp only [DCache.fsmToMiss, Bool.and_eq_true] at hm; exact hm.1.2,
      DCache.fsmToMiss_cached hm⟩) hh.data hh.dataDone
  have hfetch : ((s.step i).top.core.ireq pins').toDreq = (s.top.core.ireq i.pins).toDreq ∨
      ((s.step i).top.core.ireq pins').toDreq.valid = false :=
    hh.fetch.imp (congrArg IbusReq.toDreq) id
  obtain ⟨hile, hilt⟩ := (busCycle hg hw hr hireq).work_step (ICache.mayMiss _ _ _)
    (fun hm => ⟨by simp only [ICache.fsmToMiss, Bool.and_eq_true] at hm; exact hm.1.2,
      hclean.fsmToMiss_cached hm⟩) hfetch hh.fetchDone
  have hstep : (s.step i).work pins' =
      Cache.work (Cache.step s.top.dcache (s.top.core.dreq i.pins) (s.top.dcresp (s.oresp i))
        (DCache.fsmToMiss s.top.dcache (s.top.core.dreq i.pins) (s.top.dcresp (s.oresp i))) false)
        ((s.step i).top.core.dreq pins') ((s.step i).top.granted 0) (s.step i).ram.beat +
      Cache.work (Cache.step s.top.icache (s.top.core.ireq i.pins).toDreq
        (s.top.icresp (s.oresp i))
        (ICache.fsmToMiss s.top.icache (s.top.core.ireq i.pins) (s.top.icresp (s.oresp i))) false)
        ((s.step i).top.core.ireq pins').toDreq ((s.step i).top.granted 1)
        (s.step i).ram.beat := by
    rw [work, ← hr]
    rfl
  rw [hstep, work]
  refine ⟨Nat.add_le_add hdle hile, fun hready hpos => ?_⟩
  -- it is enough that one of the caches moves
  have hsum : ∀ {a b c d : ℕ}, a ≤ b → c ≤ d → a < b ∨ c < d → a + c < b + d := by omega
  refine hsum hdle hile ?_
  cases hb : s.top.mux.busy with
  | true =>
    have hbeat : (s.oresp i).ready = true := by
      rw [oresp, Ram.resp, if_pos]
      rw [oreq, VTop.oreq, CBusArbiter.oreq, if_pos hb, (hg.request hb hw).1, hready]
      rfl
    rcases s.top.index_cases with hj | hj
    · refine .inl (hdlt (.inr (.inl ?_)))
      rw [← hj, CBusArbiter.iresps_granted _ hb, hbeat]
    · refine .inr (hilt (.inr (.inl ?_)))
      rw [← hj, CBusArbiter.iresps_granted _ hb, hbeat]
  | false =>
    have hfree : ∀ j, s.top.granted j = false := fun j => by simp [VTop.granted, hb]
    cases hv : (s.top.ireqs i.pins (select (s.top.ireqs i.pins))).valid with
    | true =>
      have hgrant : (s.step i).top.granted (select (s.top.ireqs i.pins)) = true := by
        rw [VTop.granted_iff, step_mux_idle hr hb]
        exact ⟨hv, rfl⟩
      rcases Fin.exists_fin_two.mp ⟨select (s.top.ireqs i.pins), rfl⟩ with hj | hj
      · exact .inl (hdlt (.inr (.inr ⟨hfree 0, hj ▸ hgrant⟩)))
      · exact .inr (hilt (.inr (.inr ⟨hfree 1, hj ▸ hgrant⟩)))
    | false =>
      -- nothing is asked for on the bus, so a miss starts
      rcases Nat.add_pos_iff_pos_or_pos.mp hpos with hpos | hpos
      · obtain ⟨hi, hval, hc, hh⟩ := Cache.misses_of_work
          (hdreq ▸ not_valid_of_select hv 0) hpos
        refine .inl (hdlt (.inl ?_))
        simp [DCache.fsmToMiss, Cache.missReady, hi, hval, hc, hh]
      · obtain ⟨hi, hval, hc, hh⟩ := Cache.misses_of_work
          (hireq ▸ not_valid_of_select hv 1) hpos
        have hval' : (s.top.core.ireq i.pins).valid = true := hval
        refine .inr (hilt (.inl ?_))
        simp [ICache.fsmToMiss, Cache.missReady, Cache.skip, hi, hval', hc, hh]

end System

end RiscvCpu
