import RiscvCpu.Refinement
import RiscvCpu.Sync.Progress
import RiscvCpu.Work

/-!
# The pipeline makes progress

A memory that is ready again and again keeps the pipeline going.  A stalled memory stage
holds its request until the work on the bus is done, and then the cache accepts it.  A
front end that stays stalled lets the pipeline behind it drain, after which it waits for
fetch alone, and fetch gets its word as soon as the work on the bus is done.

So a program runs to any length: every one of its commits is reported.
-/

namespace RiscvCpu

open Filter

/-! ## The multicycle unit -/

section Unit

variable {m : Multicycle} {op : Op} {a b x y : BitVec 64}

/-- A rank that falls as long as the unit is busy.  The counter of the divider is a bit
that is shifted down. -/
def Multicycle.remaining (m : Multicycle) : ℕ :=
  (if m.divT.div0.state = .doing then m.divT.div0.count.toNat else 2 ^ 65) +
    if m.mulT.mul0.state = .init then 1 else 0

theorem Multicycle.Dividing.remaining {j : ℕ} (h : m.Dividing op a b j) :
    m.remaining = 2 ^ (64 - j) + 1 := by
  rw [Multicycle.remaining, if_pos h.state, if_pos h.mulState, h.count,
    BitVec.toNat_shiftLeft, Nat.shiftLeft_eq, Nat.mod_eq_of_lt]
  · simp
  · have : 2 ^ (64 - j) ≤ 2 ^ 64 := Nat.pow_le_pow_right (by omega) (by omega)
    simp
    omega

theorem Multicycle.Multiplying.remaining (h : m.Multiplying op a b) :
    m.remaining = 2 ^ 65 := by
  simp [Multicycle.remaining, h.state, h.divState]

theorem Multicycle.Idle.remaining (h : m.Idle) : m.remaining = 2 ^ 65 + 1 := by
  simp [Multicycle.remaining, h.mul, h.div]

/-- An operation that has just been started. -/
theorem Multicycle.Working.remaining_le (h : m.Working op a b) : m.remaining ≤ 2 ^ 65 := by
  rcases h with ⟨_, hm⟩ | ⟨j, _, _, _, hd⟩
  · exact hm.remaining.le
  · have : 2 ^ (64 - j) ≤ 2 ^ 64 := Nat.pow_le_pow_right (by omega) (by omega)
    rw [hd.remaining]
    omega

/-- A further cycle of an operation brings it closer to its end. -/
theorem Multicycle.Working.remaining_lt (h : m.Working op a b) (hdoing : m.doing op y = true) :
    (m.step false op x y).remaining < m.remaining := by
  rcases h with ⟨hmul, hm⟩ | ⟨j, hj, hdiv, hz, hd⟩
  · exact absurd ((hm.last (x := x) (y := y) hmul).1.symm.trans hdoing) Bool.false_ne_true
  · rcases Nat.lt_or_eq_of_le hj with hlt | rfl
    · have hpow : 2 ^ (64 - (j + 1)) < 2 ^ (64 - j) :=
        Nat.pow_lt_pow_right (by omega) (by omega)
      rw [hd.remaining, (hd.step (x := x) (y := y) hdiv hlt).2.remaining]
      omega
    · exact absurd ((hd.last (x := x) (y := y) hdiv hz).1.symm.trans hdoing) Bool.false_ne_true

end Unit

section Cycle

variable {c : Core} {i : CoreIn} {pins' : Pins}

/-- The unit gets closer to its end in every cycle in which it holds `de`. -/
theorem Core.InOrder.remaining_lt (h : c.InOrder) (hd : c.Decoded) (hr : c.pipeReset i = false)
    (hdoing : c.multicycleDoing = true) :
    (c.step i).execute.remaining < c.execute.remaining := by
  obtain ⟨hm, hwork⟩ := h.step_working hd hr hdoing
  rcases h.unit with ⟨hidle, _⟩ | ⟨_, hw, _⟩
  · have := hwork.remaining_le
    rw [hidle.remaining]
    omega
  · rw [doing_of_multicycle hm] at hdoing
    rw [step_execute hr]
    exact hw.remaining_lt hdoing

/-! ## A stalled memory stage -/

/-- A stalled memory stage drives the request in `em` and drives it again in the next
cycle. -/
theorem Core.Spaced.dreq_of_stall {dataOk : Bool} (h : c.Spaced dataOk) (pins' : Pins)
    (hr : c.pipeReset i = false) (hs : c.stallDataOk i = true) :
    i.dresp.addrOk = false ∧ c.dreq i.pins = c.em.dataMtmp.dreq true ∧
      (c.step i).dreq pins' = c.em.dataMtmp.dreq true := by
  have hm := h.isMem_of_stall hr hs
  have hem : (c.step i).em = c.em := by
    rw [step_em hr, hs, if_pos rfl]
  have hmw : (c.step i).mw = 0 := by
    rw [step_mw hr, hs, if_pos rfl]
  have hdrives : i.dresp.addrOk = false ∧ c.memory.drivesM1 = false ∧
      (c.step i).memory.drivesM1 = false := by
    rw [stallDataOk_eq hr] at hs
    rw [Core.step_memory hr]
    cases hst : c.memory.state with
    | idle =>
      rw [Memory.stallDataOk_idle hst, hm] at hs
      have ha : i.dresp.addrOk = false := by simpa using hs
      rw [Memory.step_idle hst, hm, ha]
      simp [Memory.drivesM1, hst]
    | memory01 =>
      rw [Memory.stallDataOk_memory01 hst] at hs
      cases hs
    | memory10 =>
      rw [Memory.stallDataOk_memory10 hst] at hs
      have ha : i.dresp.addrOk = false := by simpa using hs
      rw [Memory.step_memory10_wait hst ha]
      simp [Memory.drivesM1, hst, ha]
    | memory11 => exact absurd hst h.single
  obtain ⟨ha, hfirst, hfirst'⟩ := hdrives
  refine ⟨ha, ?_, ?_⟩
  · rw [Core.dreq, Memory.dreq, hfirst, csrFlush_of_pipeReset hr, hm]
    rfl
  · rw [Core.dreq, Memory.dreq, hfirst', hem, csrFlush_of_mw hmw, hm]
    rfl

/-- Fetch holds its request while it waits, and drops it when the word has arrived and the
memory stage is stalled. -/
theorem Core.step_ireq (hr : c.pipeReset i = false) (hf : (c.step i).csrFlush pins' = false)
    (hfront : c.frontStall i = true) (hs : c.iDataOk i = true → c.stallDataOk i = true) :
    ((c.step i).ireq pins' = c.ireq i.pins ∨ ((c.step i).ireq pins').valid = false) ∧
      (c.iDataOk i = true → ((c.step i).ireq pins').valid = false) := by
  have hnow : ∀ d : Core, ∀ p, d.csrFlush p = false →
      d.ireq p = ⟨d.fetch.icacheReqO, d.fetch.pc⟩ := by
    intro d p hd
    have hv : (d.csrPcNxt p).csrPcValid = false := hd
    rw [Core.ireq, Fetch.ireq, hv]
    simp
  rw [hnow _ _ hf, hnow _ _ (csrFlush_of_pipeReset hr), step_icacheReqO hr, step_pc hr, hfront,
    if_pos rfl]
  cases hok : c.iDataOk i with
  | true => simp [hs hok]
  | false => simp

end Cycle

/-! ## One cycle of the system -/

section System

variable {s : SimTop} {i : SimTopIn} {pins' : Pins}

theorem Cache.creq_len_le {ib : Nat} (s : Cache ib) (dreq : DbusReq) :
    (s.creq dreq).len.toNat ≤ 15 := by
  unfold Cache.creq
  split <;> simp [DbusReq.creqSkip, Cache.creqNoSkip, mlen1, mlen16]

/-- A hit in an idle cache is accepted. -/
theorem Cache.isMissDataLoaded_of_idle {ib : Nat} {s : Cache ib} {dreq : DbusReq}
    (hs : s.missState = .idle) : s.isMissDataLoaded dreq = true := by
  simp [Cache.isMissDataLoaded, Cache.fsmInMiss, hs]

theorem SimTop.last_ready (s : SimTop) (i : SimTopIn) {j : Fin 2}
    (hl : (s.top.mux.iresps (s.oresp i) j).last = true) :
    (s.top.mux.iresps (s.oresp i) j).ready = true := by
  unfold CBusArbiter.iresps at hl ⊢
  split at hl
  · rename_i hc
    rw [if_pos hc]
    exact ((Ram.last_resp _ _ _).mp hl).1
  · cases hl

/-- Without work the requests of the core hit in idle caches. -/
theorem SimTop.Proceeds.of_work_zero (hp : s.Proceeds i) (h : s.work i.pins = 0) :
    (s.top.dcache.missState = .idle ∧ ((s.top.core.dreq i.pins).valid = true →
      isCached (s.top.core.dreq i.pins).addr = true ∧
        Cache.isHit s.top.dcache (s.top.core.dreq i.pins) = true)) ∧
    (s.top.icache.missState = .idle ∧ ((s.top.core.ireq i.pins).valid = true →
      isCached (s.top.core.ireq i.pins).addr = true ∧
        Cache.isHit s.top.icache (s.top.core.ireq i.pins).toDreq = true)) := by
  have hbeat : ∀ j, s.top.granted j = true → s.ram.beat < 16 := by
    intro j hj
    have hd := SimTop.busCycle (j := 0) hp.grant hp.not_withdraws hp.noReset
      (rfl : s.top.ireqs i.pins 0 = Cache.creq s.top.dcache (s.top.core.dreq i.pins))
    have hi := SimTop.busCycle (j := 1) hp.grant hp.not_withdraws hp.noReset
      (rfl : s.top.ireqs i.pins 1 = Cache.creq s.top.icache (s.top.core.ireq i.pins).toDreq)
    rcases Fin.exists_fin_two.mp ⟨j, rfl⟩ with rfl | rfl
    · have := (hd.asked hj).2
      have := Cache.creq_len_le s.top.dcache (s.top.core.dreq i.pins)
      omega
    · have := (hi.asked hj).2
      have := Cache.creq_len_le s.top.icache (s.top.core.ireq i.pins).toDreq
      omega
  obtain ⟨hd, hi⟩ := Nat.add_eq_zero_iff.mp h
  exact ⟨Cache.of_work_zero hd (hbeat 0), Cache.of_work_zero hi (hbeat 1)⟩

/-- An uncached word that arrives is no longer waited for. -/
theorem SimTop.iDataOk_of_last
    (hk : Cache.skip s.top.icache (s.top.core.ireq i.pins).toDreq = true)
    (hl : (s.top.icresp (s.oresp i)).last = true) :
    s.top.core.iDataOk (s.top.coreIn (s.topIn i)) = true := by
  have hok : (s.top.coreIn (s.topIn i)).iresp.dataOk = true := by
    change (ICache.iresp s.top.icache (s.top.core.ireq i.pins) _).dataOk = true
    rw [ICache.iresp, Cache.dresp_of_skip _ hk]
    exact hl
  rw [Core.iDataOk, Fetch.iDataOk, hok]
  rfl

/-- In a stall of the memory stage the core holds its requests. -/
theorem SimTop.Proceeds.holds_of_stall (hp : s.Proceeds i)
    (hf : (s.step i).top.core.csrFlush pins' = false)
    (hs : s.top.core.stallDataOk (s.top.coreIn (s.topIn i)) = true) : s.Holds i pins' := by
  obtain ⟨ha, hnow, hnext⟩ := hp.spaced.dreq_of_stall pins' hp.pipeReset hs
  have hfront : s.top.core.frontStall (s.top.coreIn (s.topIn i)) = true := by
    rw [Core.frontStall, hs]
    rfl
  obtain ⟨hkeep, hdrop⟩ := Core.step_ireq hp.pipeReset hf hfront fun _ => hs
  refine ⟨.inl (hnext.trans hnow.symm), fun hk hl => ?_, hkeep, fun hk hl =>
    hdrop (SimTop.iDataOk_of_last hk hl)⟩
  -- an uncached request that is answered does not stall
  have hready := SimTop.last_ready s i hl
  change (DCache.dresp s.top.dcache (s.top.core.dreq i.pins) _).addrOk = false at ha
  rw [DCache.dresp, Cache.dresp_of_skip _ hk] at ha
  exact absurd (ha.symm.trans hready) Bool.false_ne_true

/-- In a stall of the memory stage there is work left. -/
theorem SimTop.Proceeds.work_pos_of_stall (hp : s.Proceeds i)
    (hs : s.top.core.stallDataOk (s.top.coreIn (s.topIn i)) = true) : 0 < s.work i.pins := by
  rcases Nat.eq_zero_or_pos (s.work i.pins) with h0 | hpos
  · obtain ⟨ha, hnow, _⟩ := hp.spaced.dreq_of_stall i.pins hp.pipeReset hs
    obtain ⟨hidle, hreq⟩ := (hp.of_work_zero h0).1
    obtain ⟨hc, hhit⟩ := hreq (congrArg DbusReq.valid hnow)
    have hskip : Cache.skip s.top.dcache (s.top.core.dreq i.pins) = false := by
      simp [Cache.skip, hc]
    change (DCache.dresp s.top.dcache (s.top.core.dreq i.pins) _).addrOk = false at ha
    simp [DCache.dresp, Cache.dresp, hskip, hhit, Cache.isMissDataLoaded_of_idle hidle] at ha
  · exact hpos

/-- What is left of the pipeline once the front end has been stalled for long. -/
structure Core.Drained (c : Core) : Prop where
  de : c.de = 0
  em : c.em = 0
  state : c.memory.state = .idle
  dataM1 : c.memory.dataM1.instr = 0

theorem Core.multicycleDoing_bubble {c : Core} (h : c.de = 0) : c.multicycleDoing = false := by
  rw [Core.multicycleDoing, h]
  exact Bool.and_false _

/-- Behind a stalled front end `de` empties as soon as the multicycle unit lets go. -/
theorem Core.Spaced.step_de_bubble {c : Core} {j : CoreIn} {dataOk : Bool} (h : c.Spaced dataOk)
    (hd : c.Decoded) (hr : c.pipeReset j = false) (hfront : c.frontStall j = true)
    (hdone : c.multicycleDoing = false) : (c.step j).de = 0 := by
  rw [step_de hr, hdone]
  cases hs : c.stallDataOk j with
  | true => exact h.de_bubble hd (h.isMem_of_stall hr hs)
  | false =>
    rw [frontStall_eq, hs, hdone] at hfront
    have hfront' : (c.operandStall || !c.iDataOk j) = true := hfront
    rw [hfront']
    rfl

/-- Behind a bubble in `de` the register `em` empties as soon as the memory stage lets
go. -/
theorem Core.step_em_bubble {c : Core} {j : CoreIn} (hr : c.pipeReset j = false)
    (hde : c.de = 0) (hgo : c.stallDataOk j = false ∨ c.em = 0) : (c.step j).em = 0 := by
  rw [step_em hr, dataE_bubble hde, multicycleDoing_bubble hde]
  rcases hgo with hs | h0
  · rw [hs]
    rfl
  · rw [h0]
    split <;> rfl

/-- Behind two bubbles the memory stage empties. -/
theorem Core.Spaced.drained {c : Core} {j : CoreIn} {dataOk : Bool} (h : c.Spaced dataOk)
    (hr : c.pipeReset j = false) (hde : (c.step j).de = 0) (hem : c.em = 0)
    (hem' : (c.step j).em = 0) : (c.step j).Drained := by
  have hno : c.em.instr.ctl.isMem = false := by
    rw [hem]
    rfl
  have hmem : (c.step j).memory = ⟨.idle, c.em.dataMtmp⟩ := by
    rw [Core.step_memory hr]
    cases hst : c.memory.state with
    | idle =>
      rw [Memory.step_idle hst, hno]
      rfl
    | memory01 =>
      rw [Memory.step_memory01 hst, hno]
      rfl
    | memory10 => exact absurd (hno.symm.trans (h.request hst)) Bool.false_ne_true
    | memory11 => exact absurd hst h.single
  refine ⟨hde, hem', by rw [hmem], ?_⟩
  rw [hmem, hem]
  rfl

/-- In a drained pipeline the front end waits for fetch alone. -/
theorem Core.Drained.waits {c : Core} {j : CoreIn} (h : c.Drained) (hr : c.pipeReset j = false)
    (hfront : c.frontStall j = true) : c.iDataOk j = false := by
  have hno : ∀ en ra, (0 : Instr).writes en ra = false := fun en ra => by
    cases en <;> rfl
  have hzero : c.de.instr = 0 ∧ c.em.instr = 0 := by
    rw [h.de, h.em]
    exact ⟨rfl, rfl⟩
  have hop : c.operandStall = false := by
    simp [Core.operandStall, lustall, bjstall, hzero, h.dataM1, hno]
  have hstall : c.stallDataOk j = false := by
    rw [Core.stallDataOk_eq hr, Memory.stallDataOk_idle h.state, hzero.2]
    rfl
  simpa [Core.frontStall, hstall, hop, multicycleDoing_bubble h.de] using hfront

/-- A drained pipeline asks its data cache for nothing. -/
theorem Core.Drained.dreq {c : Core} (h : c.Drained) (pins : Pins) :
    (c.dreq pins).valid = false := by
  simp only [Core.dreq, Memory.dreq, Memory.drivesM1, h.state, h.em]
  rfl

/-- A drained pipeline that waits for fetch holds its requests. -/
theorem SimTop.Proceeds.holds_of_drained (hp : s.Proceeds i)
    (hf : (s.step i).top.core.csrFlush pins' = false) (hd' : (s.step i).top.core.Drained)
    (hfront : s.top.core.frontStall (s.top.coreIn (s.topIn i)) = true)
    (hwait : s.top.core.iDataOk (s.top.coreIn (s.topIn i)) = false) : s.Holds i pins' := by
  obtain ⟨hkeep, hdrop⟩ := Core.step_ireq hp.pipeReset hf hfront fun h =>
    absurd (hwait.symm.trans h) Bool.false_ne_true
  exact ⟨.inr (hd'.dreq _), fun _ _ => hd'.dreq _, hkeep, fun hk hl =>
    hdrop (SimTop.iDataOk_of_last hk hl)⟩

/-- A word that hits in an idle cache arrives within two cycles. -/
theorem SimTop.Proceeds.hit_of_work_zero (hp : s.Proceeds i) (h : s.work i.pins = 0)
    (hwait : s.top.core.iDataOk (s.top.coreIn (s.topIn i)) = false) :
    s.top.icache.drespDataOk = false ∧ (s.step i).top.icache.drespDataOk = true := by
  simp only [Core.iDataOk, Fetch.iDataOk, Bool.or_eq_false_iff, Bool.not_eq_false'] at hwait
  obtain ⟨hno, hasked⟩ := hwait
  have hv : (s.top.core.ireq i.pins).valid = true := hasked
  obtain ⟨hidle, hreq⟩ := (hp.of_work_zero h).2
  obtain ⟨hc, hhit⟩ := hreq hv
  have hskip : Cache.skip s.top.icache (s.top.core.ireq i.pins).toDreq = false := by
    simp [Cache.skip, IbusReq.toDreq, hc]
  have hloaded : Cache.isMissDataLoaded s.top.icache (s.top.core.ireq i.pins).toDreq = true :=
    Cache.isMissDataLoaded_of_idle hidle
  have hrest : s.top.icache.drespDataOk = false := by
    change (ICache.iresp s.top.icache (s.top.core.ireq i.pins) _).dataOk = false at hno
    simpa [ICache.iresp, DbusResp.toIresp, Cache.dresp, hskip, hhit, hloaded] using hno
  have htohit : Cache.fsmToHit s.top.icache (s.top.core.ireq i.pins).toDreq = true := by
    rw [Cache.fsmToHit, hhit, hskip, hloaded]
    simpa [IbusReq.toDreq] using hv
  refine ⟨hrest, ?_⟩
  change (ICache.step s.top.icache i.reset (s.top.core.ireq i.pins) _).drespDataOk = true
  rw [hp.noReset]
  simp [ICache.step, Cache.step, hrest, htohit]

end System

/-! ## Runs -/

section Run

variable {s : ℕ → SimTop} {i : ℕ → SimTopIn}

/-- The inputs of `icache`. -/
def VTop.icacheIn (s : VTop) (i : VTopIn) : ICacheIn :=
  ⟨i.reset, s.core.ireq i.pins, s.icresp i.oresp⟩

theorem VTop.IsRun.icache {s : ℕ → VTop} {i : ℕ → VTopIn} (h : VTop.IsRun s i) :
    ICache.IsRun (fun t => (s t).icache) fun t => (s t).icacheIn (i t) :=
  h.project VTop.icache VTop.icacheIn (fun _ _ => rfl) fun _ _ => Iff.rfl

/-- The work in the next cycle. -/
theorem SimTop.IsRun.work_step (h : SimTop.IsRun s i) {t : ℕ} (hp : (s t).Proceeds (i t))
    (hh : (s t).Holds (i t) (i (t + 1)).pins) (hpos : 0 < (s t).work (i t).pins) :
    (s (t + 1)).work (i (t + 1)).pins ≤ (s t).work (i t).pins ∧
      ((i t).ram.ready = true →
        (s (t + 1)).work (i (t + 1)).pins < (s t).work (i t).pins) := by
  obtain ⟨hle, hlt⟩ := SimTop.work_step hp.grant hp.not_withdraws hp.noReset
    (h.top.icache.clean t) hh
  rw [h.next t]
  exact ⟨hle, fun hready => hlt hready hpos⟩

/-- The memory stage does not stall for ever. -/
theorem SimTop.IsRun.frequently_accepts (h : SimTop.IsRun s i)
    (hp : ∀ᶠ t in atTop, (s t).Proceeds (i t)) (fair : ∃ᶠ t in atTop, (i t).ram.ready = true) :
    ∃ᶠ t in atTop,
      (s t).top.core.stallDataOk ((s t).top.coreIn ((s t).topIn (i t))) = false := by
  refine Sync.frequently_of_rank fair (fun t => (s t).work (i t).pins) ?_
  filter_upwards [hp, Sync.eventually_succ hp] with t hp hp' hs
  have hstall := Bool.not_eq_false _ ▸ hs
  have hflush := hp'.noFlush
  rw [h.next t] at hflush
  exact h.work_step hp (hp.holds_of_stall hflush hstall) (hp.work_pos_of_stall hstall)

/-- The multicycle unit does not hold `de` for ever. -/
theorem SimTop.IsRun.frequently_done (h : SimTop.IsRun s i)
    (hp : ∀ᶠ t in atTop, (s t).Proceeds (i t)) :
    ∃ᶠ t in atTop, (s t).top.core.multicycleDoing = false := by
  have always : ∃ᶠ _t : ℕ in atTop, True := (Eventually.of_forall fun _ => trivial).frequently
  refine Sync.frequently_of_rank always (fun t => (s t).top.core.execute.remaining) ?_
  filter_upwards [hp] with t hp hdoing
  have ho := hp.orderly
  have hcsr : (s t).top.core.mw.instr.op.isCsr = false := by
    by_contra hc
    have := ho.decoded.csrFlush_of_isCsr (Bool.not_eq_false _ ▸ hc) (i t).pins
    exact Bool.false_ne_true (hp.noFlush.symm.trans this)
  have hlt := (ho.inOrder hcsr).remaining_lt ho.decoded hp.pipeReset
    (Bool.not_eq_false _ ▸ hdoing)
  rw [h.next t]
  exact ⟨hlt.le, fun _ => hlt⟩

theorem SimTop.IsRun.core_next (h : SimTop.IsRun s i) (t : ℕ) :
    (s (t + 1)).top.core = (s t).top.core.step ((s t).top.coreIn ((s t).topIn (i t))) := by
  rw [h.next t]
  rfl

/-- Behind a front end that stays stalled the pipeline drains. -/
theorem SimTop.IsRun.eventually_drained (h : SimTop.IsRun s i)
    (hp : ∀ᶠ t in atTop, (s t).Proceeds (i t)) (fair : ∃ᶠ t in atTop, (i t).ram.ready = true)
    (hfront : ∀ᶠ t in atTop,
      (s t).top.core.frontStall ((s t).top.coreIn ((s t).topIn (i t))) = true) :
    ∀ᶠ t in atTop, (s t).top.core.Drained := by
  -- a multicycle instruction comes to its end and leaves a bubble in `de`
  have hde : ∀ᶠ t in atTop, (s t).top.core.de = 0 := by
    have hstep : ∀ᶠ t in atTop, (s t).top.core.multicycleDoing = false →
        (s (t + 1)).top.core.de = 0 := by
      filter_upwards [hp, hfront] with t hp hf hdone
      rw [h.core_next t]
      exact hp.spaced.step_de_bubble hp.orderly.decoded hp.pipeReset hf hdone
    exact Sync.eventually_of_kept (h.frequently_done hp) hstep
      (hstep.mono fun t ht h0 => ht (Core.multicycleDoing_bubble h0))
  -- an access in `em` is accepted and leaves a bubble there
  have hem : ∀ᶠ t in atTop, (s t).top.core.em = 0 := by
    refine Sync.eventually_of_kept (h.frequently_accepts hp fair) ?_ ?_
    · filter_upwards [hp, hde] with t hp h0 hs
      rw [h.core_next t]
      exact Core.step_em_bubble hp.pipeReset h0 (.inl hs)
    · filter_upwards [hp, hde] with t hp h0 h0'
      rw [h.core_next t]
      exact Core.step_em_bubble hp.pipeReset h0 (.inr h0')
  refine Sync.eventually_of_succ ?_
  filter_upwards [hp, Sync.eventually_succ hde, hem, Sync.eventually_succ hem] with
    t hp hde' h0 h0'
  rw [h.core_next t] at hde' h0' ⊢
  exact hp.spaced.drained hp.pipeReset hde' h0 h0'

/-- The front end does not stall for ever. -/
theorem SimTop.IsRun.frequently_front (h : SimTop.IsRun s i)
    (hp : ∀ᶠ t in atTop, (s t).Proceeds (i t)) (fair : ∃ᶠ t in atTop, (i t).ram.ready = true) :
    ∃ᶠ t in atTop,
      (s t).top.core.frontStall ((s t).top.coreIn ((s t).topIn (i t))) = false := by
  by_contra hno
  have hfront : ∀ᶠ t in atTop,
      (s t).top.core.frontStall ((s t).top.coreIn ((s t).topIn (i t))) = true :=
    (not_frequently.mp hno).mono fun t ht => Bool.not_eq_false _ ▸ ht
  have hdrained := h.eventually_drained hp fair hfront
  have hwait : ∀ᶠ t in atTop, (s t).Proceeds (i t) ∧
      (s t).top.core.iDataOk ((s t).top.coreIn ((s t).topIn (i t))) = false := by
    filter_upwards [hp, hdrained, hfront] with t hp hd hf
    exact ⟨hp, hd.waits hp.pipeReset hf⟩
  -- fetch waits, so the work on the bus comes to its end
  have hstep : ∀ᶠ t in atTop, (s t).Proceeds (i t) ∧ (s t).Holds (i t) (i (t + 1)).pins := by
    filter_upwards [Sync.eventually_succ hp, Sync.eventually_succ hdrained, hfront, hwait] with
      t hp' hd' hf hw
    have hflush := hp'.noFlush
    rw [h.next t] at hd' hflush
    exact ⟨hw.1, hw.1.holds_of_drained hflush hd' hf hw.2⟩
  have hzero : ∀ᶠ t in atTop, (s t).work (i t).pins = 0 := by
    have hkept : ∀ᶠ t in atTop, (s t).work (i t).pins = 0 →
        (s (t + 1)).work (i (t + 1)).pins = 0 := by
      filter_upwards [hstep] with t hh h0
      have hle := (SimTop.work_step hh.1.grant hh.1.not_withdraws hh.1.noReset
        (h.top.icache.clean t) hh.2).1
      rw [h.next t]
      omega
    refine Sync.eventually_of_kept ?_ hkept hkept
    refine Sync.frequently_of_rank fair (fun t => (s t).work (i t).pins) ?_
    filter_upwards [hstep] with t hh hne
    exact h.work_step hh.1 hh.2 (Nat.pos_of_ne_zero hne)
  -- and then the word is there one cycle later
  obtain ⟨t, ⟨⟨h0, hw⟩, h0'⟩, hw'⟩ := (((hzero.and hwait).and (Sync.eventually_succ hzero)).and
    (Sync.eventually_succ hwait)).exists
  have hnow := (hw.1.hit_of_work_zero h0 hw.2).2
  have hthen := (hw'.1.hit_of_work_zero h0' hw'.2).1
  rw [h.next t] at hthen
  exact Bool.false_ne_true (hthen.symm.trans hnow)

/-! ## Programs -/

variable {word : BitVec 61 → BitVec 64} {x : ℕ → Isa.State} {op : ℕ → Op} {dev : ℕ → BitVec 64}

theorem FetchData.Spans.le {d : FetchData} {a b : ℕ} (h : d.Spans x a b) : b ≤ a + 1 := by
  rcases h with ⟨_, rfl⟩ | ⟨_, rfl⟩ <;> omega

/-- Fetch is at most five instructions ahead of write-back. -/
theorem Core.Follows.fetch_le {c : Core} {g : Places} (h : c.Follows x g) :
    g.fetch ≤ g.mw + 5 := by
  have := h.mw.le
  have := h.dataM1.le
  have := h.em.le
  have := h.de.le
  have := h.heads.fd.le
  omega

theorem Places.step_fetch (g : Places) (c : Core) (i : CoreIn) :
    (g.step c i).fetch =
      if c.frontStall i then g.fetch else if c.jumpFlush then g.fetch else g.fetch + 1 := rfl

/-- Fetch goes on in every second cycle at least in which it is not stalled. -/
theorem SimTop.IsRun.frequently_fetches (h : SimTop.IsRun s i)
    (hp : ∀ᶠ t in atTop, (s t).Proceeds (i t)) (fair : ∃ᶠ t in atTop, (i t).ram.ready = true) :
    ∃ᶠ t in atTop, (places s i t).fetch < (places s i (t + 1)).fetch := by
  -- a jump that flushes the word behind it leaves a bubble in decode
  refine Sync.frequently_of_rank (h.frequently_front hp fair)
    (fun t => if (s t).top.core.fd = 0 then 0 else 1) ?_
  filter_upwards [hp] with t hp hno
  simp only [places, Places.step_fetch] at hno
  rw [h.core_next t, Core.step_fd hp.pipeReset]
  cases hf : (s t).top.core.frontStall ((s t).top.coreIn ((s t).topIn (i t))) with
  | true => simp
  | false =>
    have hflush : (s t).top.core.jumpFlush = true := by
      by_contra hc
      simp [hf, hc] at hno
    have hne : (s t).top.core.fd ≠ 0 := fun h0 =>
      Bool.false_ne_true ((Core.jumpFlush_bubble h0).symm.trans hflush)
    simp [hflush, hne]

/-- Write-back comes to each instruction of the program. -/
theorem SimTop.IsRun.exists_places_mw (h : SimTop.IsRun s i)
    (hx : Isa.Executes (s 0).ram.word x op dev) (hdev : ∀ t, DevicesReturn s i dev t)
    (fair : ∃ᶠ t in atTop, (i t).ram.ready = true) (n : ℕ) : ∃ t, (places s i t).mw = n := by
  have hsim := fun t => h.simulates hx t (hdev t)
  have hp : ∀ᶠ t in atTop, (s t).Proceeds (i t) := .of_forall fun t => (hsim t).2.1
  have hmono : ∀ t, (places s i t).fetch ≤ (places s i (t + 1)).fetch := fun t => by
    rw [places, Places.step_fetch]
    split_ifs <;> omega
  obtain ⟨t, ht⟩ := Sync.exists_le_of_frequently_lt hmono (h.frequently_fetches hp fair)
    (n + 5)
  have hmw : n ≤ (places s i t).mw := by
    have := (hsim t).1.core.follows.fetch_le
    omega
  have hone : ∀ u, (places s i (u + 1)).mw ≤ (places s i u).mw + 1 := fun u =>
    (hsim u).1.core.follows.mw.le
  exact Sync.exists_eq_of_le rfl hone hmw

/-- A program runs to any length.  In a run from a memory that holds a program, under any
pins, and with a memory that is ready to answer in infinitely many cycles, the reports of
write-back come to be the first `n` commits of the program, for every `n`. -/
theorem SimTop.IsRun.commits_all (h : SimTop.IsRun s i)
    (hx : Isa.Executes (s 0).ram.word x op dev) (hdev : ∀ t, DevicesReturn s i dev t)
    (fair : ∃ᶠ t in atTop, (i t).ram.ready = true) (n : ℕ) :
    ∃ t, commitsBefore s t = (List.range n).map fun k => (x k).commit (op k) dev := by
  obtain ⟨t, rfl⟩ := h.exists_places_mw hx hdev fair n
  exact ⟨t, h.commitsBefore_eq hx t (hdev t)⟩

/-- If all devices return one word the stream of their words is constant. -/
theorem SimTop.IsRun.devicesReturn_const (h : SimTop.IsRun s i) {v : BitVec 64}
    (hx : Isa.Executes (s 0).ram.word x op fun _ => v) (hv : ∀ t, (i t).ram.device = v)
    (t : ℕ) : DevicesReturn s i (fun _ => v) t := by
  induction t with
  | zero => exact fun u hu => absurd hu (Nat.not_lt_zero u)
  | succ t ih =>
    intro u hu hread
    rcases Nat.lt_succ_iff_lt_or_eq.mp hu with hlt | rfl
    · exact ih u hlt hread
    · have hp := (h.simulates hx u ih).2.1
      exact (hread.oresp_data hp.grant hp.not_withdraws).trans (hv u)

end Run

/-! ## An example run -/

/-- The loop is entered, whatever the pins show. -/
theorem addThenLoop_commits_all :
    ∃ t, SimTop.commitsBefore (SimTop.boot addThenLoop ⟨true, true, true⟩) t =
      (List.range 5).map fun k => (addThenLoopState k).commit (addThenLoopOp k) fun _ => 0 :=
  have hrun := SimTop.boot_isRun addThenLoop ⟨true, true, true⟩
  hrun.commits_all addThenLoop_executes
    (hrun.devicesReturn_const addThenLoop_executes fun _ => rfl)
    (Eventually.of_forall fun _ => rfl).frequently 5

end RiscvCpu
