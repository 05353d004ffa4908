import RiscvCpu.Coherence.Memory
import RiscvCpu.Spacing

/-!
# No record is lost

In a stall of the memory stage `dataM1` keeps its record and write-back takes none,
and in any other cycle write-back takes the record of `dataM1` and `dataM1` the one of
`em`.  The two sides are decided by different parts of the source: the stall by the
answer of the data cache alone, `dataM1` by the answer and the request.  They would
part if `MEMORY10` was answered with no request in `em`.

`MEMORY10` is entered without a request if two loads or stores follow each other
directly, which takes an uncached fetch.  The stage then stalls for good: the data cache
has nothing to answer.  Three loads or stores never follow each other directly, since an
instruction port that answers in two cycles running rests in the third.
-/

namespace RiscvCpu

section Memory

variable {c : Core} {i : CoreIn}

/-- `dataM1` keeps its record exactly in a stall of the memory stage. -/
def Core.Lossless (c : Core) (i : CoreIn) : Prop :=
  c.pipeReset i = false →
    c.memory.keeps c.em (c.csrFlush i.pins) i.dresp = c.stallDataOk i

/-- The data port accepts nothing for a bubble. -/
def Core.Mute (c : Core) (i : CoreIn) : Prop :=
  c.memory.state = .memory10 → c.em = 0 → i.dresp.addrOk = false

/-- The loads and stores in `em`, `de` and `fd`.  `dataOk` and `dataOkNxt` are the answers
of the instruction port in this cycle and the next. -/
structure Core.Queued (c : Core) (dataOk dataOkNxt : Bool) : Prop where
  /-- Behind two of them the next word is still asked for. -/
  idle : c.memory.state = .idle → c.em.instr.ctl.isMem = true → c.de.instr.ctl.isMem = true →
    c.fetch.icacheReqO = true ∧ dataOk = false
  /-- Of three in a row the first is in `em`. -/
  front : c.de.instr.ctl.isMem = true → c.fd.instr.ctl.isMem = true →
    c.em.instr.ctl.isMem = true ∨ c.memory.state = .memory10 ∨
      (c.fetch.icacheReqO = true ∧ (dataOk = true → dataOkNxt = false))
  memory01 : c.memory.state = .memory01 → c.em.instr.ctl.isMem = true → c.de = 0
  memory10 : c.memory.state = .memory10 → c.em.instr.ctl.isMem = true ∨ c.em = 0
  memory11 : c.memory.state = .memory11 → c.em.instr.ctl.isMem = true

theorem Core.Queued.lossless {dataOk dataOkNxt : Bool} (h : c.Queued dataOk dataOkNxt)
    (hm : c.Mute i) : c.Lossless i := by
  intro hr
  rw [stallDataOk_eq hr, csrFlush_of_pipeReset hr]
  cases hs : c.memory.state with
  | idle =>
    rw [Memory.stallDataOk_idle hs]
    simp [Memory.keeps, hs]
  | memory01 =>
    rw [Memory.stallDataOk_memory01 hs]
    simp [Memory.keeps, hs]
  | memory10 =>
    rw [Memory.stallDataOk_memory10 hs]
    rcases h.memory10 hs with hem | hem
    · simp [Memory.keeps, hs, Memory.dreq, Memory.drivesM1, MemoryData.dreq, hem]
    · simp [Memory.keeps, hs, hm hs hem]
  | memory11 =>
    rw [Memory.stallDataOk_memory11 hs]
    simp [Memory.keeps, hs]

theorem Core.queued_of_pipeReset (hr : c.pipeReset i = true) (dataOk dataOkNxt : Bool) :
    (c.step i).Queued dataOk dataOkNxt := by
  obtain ⟨_, hde, hem, hm, _⟩ := step_pipeReset hr
  constructor
  · rw [hem]
    intro _ h
    cases h
  · rw [hde]
    intro h
    cases h
  · rw [hem]
    intro _ h
    cases h
  · exact fun _ => .inr hem
  · rw [hm]
    intro h
    cases h

/-- Without an instruction in `em` the memory stage waits in `MEMORY10` for good. -/
theorem Core.Mute.stalls (hm : c.Mute i) (hr : c.pipeReset i = false)
    (hs : c.memory.state = .memory10) (hem : c.em = 0) :
    c.stallDataOk i = true ∧ (c.step i).memory.state = .memory10 := by
  have ha := hm hs hem
  rw [stallDataOk_eq hr, Memory.stallDataOk_memory10 hs, ha, step_memory hr,
    Memory.step_memory10_wait hs ha]
  exact ⟨rfl, rfl⟩

/-- A load or store that enters `em` with the memory stage idle afterwards has found it
idle and `em` without one. -/
theorem Core.Queued.of_step_idle {dataOk dataOkNxt : Bool} (h : c.Queued dataOk dataOkNxt)
    (hm : c.Mute i) (hr : c.pipeReset i = false) (hst : (c.step i).memory.state = .idle)
    (hmem : (c.step i).em.instr.ctl.isMem = true) :
    c.em.instr.ctl.isMem = false ∧ c.memory.state ≠ .memory10 ∧ c.stallDataOk i = false := by
  cases hs : c.memory.state with
  | idle =>
    rw [step_memory hr, Memory.step_idle hs] at hst
    rw [stallDataOk_eq hr, Memory.stallDataOk_idle hs]
    cases hem : c.em.instr.ctl.isMem with
    | false => exact ⟨rfl, by simp, rfl⟩
    | true =>
      rw [hem, if_pos rfl] at hst
      split at hst <;> cases hst
  | memory01 =>
    rw [step_memory hr, Memory.step_memory01 hs] at hst
    rw [stallDataOk_eq hr, Memory.stallDataOk_memory01 hs]
    cases hem : c.em.instr.ctl.isMem with
    | false => exact ⟨rfl, by simp, rfl⟩
    | true =>
      rw [hem] at hst
      cases hst
  | memory10 =>
    rcases h.memory10 hs with hem | hem
    · rw [step_memory hr, Memory.step_memory10 hs hem] at hst
      rw [step_em hr, stallDataOk_eq hr, Memory.stallDataOk_memory10 hs] at hmem
      cases ha : i.dresp.addrOk with
      | false =>
        rw [ha] at hst
        cases hst
      | true =>
        -- the state machine looks at the instruction that moves into `em`
        have hexe : c.dataE.instr.ctl.isMem = true := by
          rw [ha] at hmem
          split at hmem
          · rename_i hc
            cases hc
          · split at hmem
            · cases hmem
            · exact hmem
        rw [ha, hexe, if_pos rfl] at hst
        split at hst <;> cases hst
    · rw [(hm.stalls hr hs hem).2] at hst
      cases hst
  | memory11 =>
    rw [step_memory hr, Memory.step_memory11 hs] at hst
    cases hst

/-- What moves into `de` has come from `fd` with the answer of the port. -/
theorem Core.of_step_de_isMem (hd : c.Decoded) (hr : c.pipeReset i = false)
    (hgo : c.stallDataOk i = false) (hde : (c.step i).de.instr.ctl.isMem = true) :
    c.iDataOk i = true ∧ c.operandStall = false ∧ c.multicycleDoing = false ∧
      c.fd.instr.ctl.isMem = true := by
  rw [step_de hr, hgo, Bool.false_or] at hde
  cases hmul : c.multicycleDoing with
  | true =>
    rw [hmul, if_pos rfl] at hde
    rw [hd.not_multicycleDoing hde] at hmul
    cases hmul
  | false =>
    rw [hmul, if_neg Bool.false_ne_true] at hde
    split at hde
    · cases hde
    · rename_i hwait
      simp only [Bool.or_eq_true, Bool.not_eq_true', not_or, Bool.not_eq_true,
        Bool.not_eq_false] at hwait
      exact ⟨hwait.2, hwait.1, rfl, hde⟩

theorem Core.of_step_em_isMem (hr : c.pipeReset i = false) (hgo : c.stallDataOk i = false)
    (hem : (c.step i).em.instr.ctl.isMem = true) : c.de.instr.ctl.isMem = true := by
  rw [step_em hr, hgo, if_neg Bool.false_ne_true] at hem
  split at hem
  · cases hem
  · exact hem

theorem Core.Queued.step_idle {dataOkNxt : Bool}
    (h : c.Queued i.iresp.dataOk dataOkNxt) (hm : c.Mute i) (hd : c.Decoded)
    (hr : c.pipeReset i = false) (hst : (c.step i).memory.state = .idle)
    (hem : (c.step i).em.instr.ctl.isMem = true) (hde : (c.step i).de.instr.ctl.isMem = true) :
    (c.step i).fetch.icacheReqO = true ∧ dataOkNxt = false := by
  obtain ⟨hno, h10, hgo⟩ := h.of_step_idle hm hr hst hem
  obtain ⟨hok, hop, _, hfd⟩ := of_step_de_isMem hd hr hgo hde
  have hthree := h.front (of_step_em_isMem hr hgo hem) hfd
  rw [hno] at hthree
  rcases hthree with h' | h' | ⟨hreq, hrest⟩
  · cases h'
  · exact absurd h' h10
  · rw [step_icacheReqO hr, hok, hgo, hop]
    refine ⟨rfl, hrest ?_⟩
    rw [← iDataOk_eq hr hreq]
    exact hok

/-- A stall is one for a load or store in `em`, or the one without end. -/
theorem Core.Queued.of_stall {dataOk dataOkNxt : Bool} (h : c.Queued dataOk dataOkNxt)
    (hr : c.pipeReset i = false) (hstall : c.stallDataOk i = true) :
    c.em.instr.ctl.isMem = true ∨
      (c.memory.state = .memory10 ∧ (c.step i).memory.state = .memory10) := by
  rw [stallDataOk_eq hr] at hstall
  cases hs : c.memory.state with
  | idle =>
    rw [Memory.stallDataOk_idle hs, Bool.and_eq_true] at hstall
    exact .inl hstall.1
  | memory01 =>
    rw [Memory.stallDataOk_memory01 hs] at hstall
    cases hstall
  | memory10 =>
    rw [Memory.stallDataOk_memory10 hs, Bool.not_eq_true'] at hstall
    rw [step_memory hr, Memory.step_memory10_wait hs hstall]
    exact .inr ⟨rfl, rfl⟩
  | memory11 => exact .inl (h.memory11 hs)

/-- The memory stage waits in `MEMORY10` only behind a stall or for a load or store in
execute. -/
theorem Core.Queued.step_state_ne {dataOk dataOkNxt : Bool} (h : c.Queued dataOk dataOkNxt)
    (hm : c.Mute i) (hr : c.pipeReset i = false) (hgo : c.stallDataOk i = false)
    (hde : c.de ≠ 0) (hmem : c.de.instr.ctl.isMem = false) :
    (c.step i).memory.state ≠ .memory10 := by
  have hexe : c.dataE.instr.ctl.isMem = false := hmem
  rw [step_memory hr]
  rw [stallDataOk_eq hr] at hgo
  cases hs : c.memory.state with
  | idle =>
    rw [Memory.stallDataOk_idle hs] at hgo
    rw [Memory.step_idle hs]
    cases hem : c.em.instr.ctl.isMem with
    | false => simp
    | true =>
      rw [hem, Bool.true_and, Bool.not_eq_false'] at hgo
      simp [hgo]
  | memory01 =>
    rw [Memory.step_memory01 hs]
    cases hem : c.em.instr.ctl.isMem with
    | false => simp
    | true => exact absurd (h.memory01 hs hem) hde
  | memory10 =>
    rw [Memory.stallDataOk_memory10 hs, Bool.not_eq_false'] at hgo
    rcases h.memory10 hs with hem | hem
    · rw [Memory.step_memory10 hs hem, hgo, hexe]
      simp only [Bool.false_eq_true, if_false, if_true]
      split <;> simp
    · rw [hm hs hem] at hgo
      cases hgo
  | memory11 =>
    rw [Memory.stallDataOk_memory11 hs] at hgo
    cases hgo

theorem Core.Queued.step_front {dataOkNxt dataOkNxt' : Bool}
    (h : c.Queued i.iresp.dataOk dataOkNxt) (hd : c.Decoded) (hr : c.pipeReset i = false)
    (hrest : c.iDataOk i = true → dataOkNxt = true → dataOkNxt' = false)
    (hde : (c.step i).de.instr.ctl.isMem = true) :
    (c.step i).em.instr.ctl.isMem = true ∨ (c.step i).memory.state = .memory10 ∨
      ((c.step i).fetch.icacheReqO = true ∧ (dataOkNxt = true → dataOkNxt' = false)) := by
  cases hs : c.stallDataOk i with
  | true =>
    rcases h.of_stall hr hs with hem | ⟨_, h10⟩
    · rw [step_em hr, hs, if_pos rfl]
      exact .inl hem
    · exact .inr (.inl h10)
  | false =>
    obtain ⟨hok, hop, _, _⟩ := of_step_de_isMem hd hr hs hde
    rw [step_icacheReqO hr, hok, hs, hop]
    exact .inr (.inr ⟨rfl, hrest hok⟩)

/-- What the states of the memory stage say about the records in front of it. -/
structure Core.StateQueued (c : Core) : Prop where
  memory01 : c.memory.state = .memory01 → c.em.instr.ctl.isMem = true → c.de = 0
  memory10 : c.memory.state = .memory10 → c.em.instr.ctl.isMem = true ∨ c.em = 0
  memory11 : c.memory.state = .memory11 → c.em.instr.ctl.isMem = true

theorem Core.stateQueued_of_idle {c : Core} (hs : c.memory.state = .idle) : c.StateQueued := by
  constructor <;> intro h <;> cases hs.symm.trans h

theorem Core.stateQueued_of_memory01 {c : Core} (hs : c.memory.state = .memory01)
    (h : c.em.instr.ctl.isMem = true → c.de = 0) : c.StateQueued := by
  refine ⟨fun _ => h, ?_, ?_⟩ <;> intro h <;> cases hs.symm.trans h

theorem Core.stateQueued_of_memory10 {c : Core} (hs : c.memory.state = .memory10)
    (h : c.em.instr.ctl.isMem = true ∨ c.em = 0) : c.StateQueued := by
  refine ⟨?_, fun _ => h, ?_⟩ <;> intro h <;> cases hs.symm.trans h

theorem Core.stateQueued_of_memory11 {c : Core} (hs : c.memory.state = .memory11)
    (h : c.em.instr.ctl.isMem = true) : c.StateQueued := by
  refine ⟨?_, ?_, fun _ => h⟩ <;> intro h <;> cases hs.symm.trans h

theorem Core.Queued.stateQueued_idle {dataOkNxt : Bool} (h : c.Queued i.iresp.dataOk dataOkNxt)
    (hd : c.Decoded) (hr : c.pipeReset i = false) (hs : c.memory.state = .idle) :
    (c.step i).StateQueued := by
  have hstall := stallDataOk_eq hr
  rw [Memory.stallDataOk_idle hs] at hstall
  have hst := (congrArg Memory.state (Core.step_memory hr)).trans
    (congrArg Memory.state (Memory.step_idle hs))
  cases hem : c.em.instr.ctl.isMem with
  | false =>
    rw [hem] at hst
    exact stateQueued_of_idle hst
  | true =>
    rw [hem, Bool.true_and] at hstall
    cases ha : i.dresp.addrOk with
    | true =>
      rw [ha] at hstall
      rw [hem, ha] at hst
      refine stateQueued_of_memory01 hst fun hem' => ?_
      have hde := of_step_em_isMem hr hstall hem'
      obtain ⟨hreq, hno⟩ := h.idle hs hem hde
      have hwait : c.iDataOk i = false := by
        rw [iDataOk_eq hr hreq, hno]
      rw [step_de hr, hstall, hd.not_multicycleDoing hde, hwait]
      simp
    | false =>
      rw [ha] at hstall
      rw [hem, ha] at hst
      refine stateQueued_of_memory10 hst (.inl ?_)
      rw [step_em hr, hstall]
      exact hem

theorem Core.Queued.stateQueued_memory01 {dataOkNxt : Bool}
    (h : c.Queued i.iresp.dataOk dataOkNxt) (hr : c.pipeReset i = false)
    (hs : c.memory.state = .memory01) : (c.step i).StateQueued := by
  have hst := (congrArg Memory.state (Core.step_memory hr)).trans
    (congrArg Memory.state (Memory.step_memory01 hs))
  cases hem : c.em.instr.ctl.isMem with
  | false =>
    rw [hem] at hst
    exact stateQueued_of_idle hst
  | true =>
    rw [hem] at hst
    refine stateQueued_of_memory10 hst (.inr ?_)
    rw [step_em hr, stallDataOk_eq hr, Memory.stallDataOk_memory01 hs,
      dataE_bubble (h.memory01 hs hem)]
    simp

theorem Core.Queued.stateQueued_memory10 {dataOkNxt : Bool}
    (h : c.Queued i.iresp.dataOk dataOkNxt) (hm : c.Mute i) (hd : c.Decoded)
    (hr : c.pipeReset i = false) (hs : c.memory.state = .memory10) : (c.step i).StateQueued := by
  rcases h.memory10 hs with hem | hem
  · have hstall := stallDataOk_eq hr
    rw [Memory.stallDataOk_memory10 hs] at hstall
    have hst := (congrArg Memory.state (Core.step_memory hr)).trans
      (congrArg Memory.state (Memory.step_memory10 hs hem))
    cases ha : i.dresp.addrOk with
    | false =>
      rw [ha] at hstall hst
      refine stateQueued_of_memory10 hst (.inl ?_)
      rw [step_em hr, hstall]
      exact hem
    | true =>
      rw [ha] at hstall hst
      rw [if_pos rfl] at hst
      -- what execute hands over enters `em`
      have hexe : (c.step i).em.instr.ctl.isMem = true ↔ c.dataE.instr.ctl.isMem = true := by
        constructor
        · exact of_step_em_isMem hr hstall
        · intro hde
          rw [step_em hr, hstall, hd.not_multicycleDoing hde]
          exact hde
      cases hcached : c.em.aluout.getLsbD 31 with
      | true =>
        rw [hcached, if_pos rfl] at hst
        cases hde : c.dataE.instr.ctl.isMem with
        | true =>
          rw [hde] at hst
          exact stateQueued_of_memory11 hst (hexe.mpr hde)
        | false =>
          rw [hde] at hst
          refine stateQueued_of_memory01 hst fun hem' => ?_
          rw [hexe.mp hem'] at hde
          cases hde
      | false =>
        rw [hcached, if_neg Bool.false_ne_true] at hst
        cases hde : c.dataE.instr.ctl.isMem with
        | true =>
          rw [hde] at hst
          exact stateQueued_of_memory10 hst (.inl (hexe.mpr hde))
        | false =>
          rw [hde] at hst
          exact stateQueued_of_idle hst
  · obtain ⟨hstall, h10⟩ := hm.stalls hr hs hem
    refine stateQueued_of_memory10 h10 (.inr ?_)
    rw [step_em hr, hstall]
    exact hem

/-- The state machine moves on with what execute hands over. -/
theorem Core.Queued.step_stateQueued {dataOkNxt : Bool} (h : c.Queued i.iresp.dataOk dataOkNxt)
    (hm : c.Mute i) (hd : c.Decoded) (hr : c.pipeReset i = false) :
    (c.step i).StateQueued := by
  cases hs : c.memory.state with
  | idle => exact h.stateQueued_idle hd hr hs
  | memory01 => exact h.stateQueued_memory01 hr hs
  | memory10 => exact h.stateQueued_memory10 hm hd hr hs
  | memory11 =>
    have hst := (congrArg Memory.state (Core.step_memory hr)).trans
      (congrArg Memory.state (Memory.step_memory11 hs))
    refine stateQueued_of_memory10 hst (.inl ?_)
    rw [step_em hr, stallDataOk_eq hr, Memory.stallDataOk_memory11 hs]
    exact h.memory11 hs

/-- One cycle preserves the queue. -/
theorem Core.Queued.step {dataOkNxt dataOkNxt' : Bool} (h : c.Queued i.iresp.dataOk dataOkNxt)
    (hm : c.Mute i) (hd : c.Decoded)
    (hrest : c.iDataOk i = true → dataOkNxt = true → dataOkNxt' = false) :
    (c.step i).Queued dataOkNxt dataOkNxt' := by
  cases hr : c.pipeReset i with
  | true => exact queued_of_pipeReset hr _ _
  | false =>
    obtain ⟨h01, h10, h11⟩ := h.step_stateQueued hm hd hr
    exact ⟨h.step_idle hm hd hr, fun hde _ => h.step_front hd hr hrest hde, h01, h10, h11⟩

end Memory

/-! ## Runs of the core -/

theorem Core.IsRun.queued {s : ℕ → Core} {i : ℕ → CoreIn} (h : Core.IsRun s i)
    (hm : ∀ t, (s t).Mute (i t))
    (hrest : ∀ t, (s t).iDataOk (i t) = true → (i (t + 1)).iresp.dataOk = true →
      (i (t + 2)).iresp.dataOk = false) (t : ℕ) :
    (s t).Queued (i t).iresp.dataOk (i (t + 1)).iresp.dataOk := by
  induction t with
  | zero =>
    obtain ⟨x, j, hj, hs⟩ := h.start
    rw [hs]
    exact queued_of_pipeReset (pipeReset_of_reset hj) _ _
  | succ t ih =>
    rw [h.next t]
    exact ih.step (hm t) (h.decoded t) (hrest t)

/-! ## The caches -/

section Top

variable {s : ℕ → VTop} {i : ℕ → VTopIn}

/-- An uncached word arrives with the last beat of a granted burst. -/
theorem VTop.busy_of_skip {x : VTop} {j : VTopIn}
    (hs : Cache.skip x.icache (x.core.ireq j.pins).toDreq = true)
    (hok : (x.coreIn j).iresp.dataOk = true) : x.mux.busy = true ∧ j.oresp.last = true := by
  have hlast : (x.icresp j.oresp).last = true := by
    change (Cache.dresp x.icache _ (x.icresp j.oresp) (x.icresp j.oresp).last).dataOk = true at hok
    rw [Cache.dresp_of_skip _ hs] at hok
    exact hok
  rw [icresp, CBusArbiter.iresps] at hlast
  split at hlast
  · rename_i hb
    rw [Bool.and_eq_true] at hb
    exact ⟨hb.1, hlast⟩
  · cases hlast

theorem VTop.IsRun.waits_of_hit (h : VTop.IsRun s i) {t : ℕ}
    (hd : (s (t + 1)).icache.drespDataOk = true) :
    Cache.fsmToHit (s t).icache ((s t).core.ireq (i t).pins).toDreq = true ∧
      (s t).core.iDataOk ((s t).coreIn (i t)) = false := by
  rw [h.next t] at hd
  exact VTop.waits_of_hit (Bool.eq_false_iff.mpr (h.noReset t)) hd

/-- The instruction cache gives two answers in two cycles only if the second is an
uncached word, and then it rests. -/
theorem VTop.IsRun.dataOk_rests (h : VTop.IsRun s i) (t : ℕ)
    (hok : (s t).core.iDataOk ((s t).coreIn (i t)) = true)
    (hnext : ((s (t + 1)).coreIn (i (t + 1))).iresp.dataOk = true) :
    ((s (t + 2)).coreIn (i (t + 2))).iresp.dataOk = false := by
  have hskip : Cache.skip (s (t + 1)).icache ((s (t + 1)).core.ireq (i (t + 1)).pins).toDreq
      = true := by
    by_contra hc
    have hwait := (h.waits_of_hit (ICache.drespDataOk_of_dataOk (Bool.not_eq_true _ ▸ hc) hnext)).2
    exact Bool.false_ne_true (hwait.symm.trans hok)
  obtain ⟨hb, hlast⟩ := busy_of_skip hskip hnext
  by_contra hc
  have hthird := Bool.not_eq_false _ ▸ hc
  cases hs : Cache.skip (s (t + 2)).icache ((s (t + 2)).core.ireq (i (t + 2)).pins).toDreq with
  | true =>
    -- the arbiter has let go of the burst
    have hr : (i (t + 1)).reset = false := Bool.eq_false_iff.mpr (h.noReset (t + 1))
    have hb' := (busy_of_skip hs hthird).1
    rw [h.next (t + 1)] at hb'
    simp [step, CBusArbiter.step, hr, hb, hlast] at hb'
  | false =>
    have hhit := (h.waits_of_hit (ICache.drespDataOk_of_dataOk hs hthird)).1
    rw [ICache.skip_of_fsmToHit hhit] at hskip
    cases hskip

theorem VTop.IsRun.linesCached (h : VTop.IsRun s i) (t : ℕ) : (s t).dcache.LinesCached :=
  Sync.FromReset.always h (P := fun x => x.dcache.LinesCached)
    (fun x j hj => by
      have hj' : j.reset = true := hj
      simp only [step, DCache.step, hj']
      exact Cache.linesCached_of_reset _ _ _ _)
    (fun x j hj hx => by
      have hj' : j.reset = false := Bool.eq_false_iff.mpr hj
      simp only [step, DCache.step, hj']
      exact hx.step (by decide) (by decide) (DCache.mayMiss _ _ _)
        fun hf => DCache.fsmToMiss_cached hf) t

/-- A bubble has an uncached address and no request. -/
theorem VTop.IsRun.mute (h : VTop.IsRun s i) (t : ℕ) :
    (s t).core.Mute ((s t).coreIn (i t)) := by
  intro hs hem
  have hreq : (s t).core.dreq (i t).pins = (0 : ExecuteData).dataMtmp.dreq false := by
    simp [Core.dreq, Memory.dreq, Memory.drivesM1, hs, hem]
    rfl
  have hmiss : Cache.isHit (s t).dcache ((s t).core.dreq (i t).pins) = false := by
    rw [hreq]
    exact (h.linesCached t).isHit_uncached (by decide) (by decide) rfl
  have hskip : Cache.skip (s t).dcache ((s t).core.dreq (i t).pins) = false := by
    rw [hreq]
    simp [Cache.skip, MemoryData.dreq]
  change (DCache.dresp _ _ _).addrOk = false
  simp [DCache.dresp, Cache.dresp, hskip, hmiss]

/-- No record is lost in any run. -/
theorem VTop.IsRun.lossless (h : VTop.IsRun s i) (t : ℕ) :
    (s t).core.Lossless ((s t).coreIn (i t)) :=
  (h.core.queued h.mute h.dataOk_rests t).lossless (h.mute t)

end Top

end RiscvCpu
