import RiscvCpu.Flush
import RiscvCpu.Grant
import RiscvCpu.Issue

/-!
# Uncached accesses

An uncached load or store waits in `em` until the arbiter has granted it and its
beat arrives, and leaves with the beat.  So the single beats of the data side and
the uncached accesses that leave `em` are the same events (`leaves_iff_beat`), and
no instruction leaves `em` twice.
-/

namespace RiscvCpu

/-- An uncached load or store leaves `em` without a flush. -/
def Core.LeavesUncached (c : Core) (i : CoreIn) : Prop :=
  c.Leaves i ∧ c.em.instr.ctl.isMem = true ∧ isCached c.em.aluout = false

instance (c : Core) (i : CoreIn) : Decidable (c.LeavesUncached i) :=
  inferInstanceAs (Decidable (_ ∧ _))

/-- The beat of a transaction of one beat arrives at the data cache. -/
def VTop.SingleBeat (s : VTop) (i : VTopIn) : Prop :=
  s.mux.busy = true ∧ s.mux.index = (0 : Fin 2) ∧ (s.oreq i.pins).len = mlen1 ∧
    i.oresp.ready = true

/-! ## One cycle -/

section Cycle

variable {s : VTop} {i : VTopIn} {beat : ℕ} {r : CbusReq}

/-- The request on the bus is that of the record in `em`. -/
theorem VTop.AccessGranted.oreq (h : s.AccessGranted r) (hb : s.mux.busy = true)
    (hj : s.mux.index = (0 : Fin 2)) (pins : Pins) :
    s.oreq pins = (s.core.em.dataMtmp.dreq true).creqSkip := by
  rw [VTop.oreq, CBusArbiter.oreq, if_pos hb, hj, ireqs, if_pos rfl, dcreq,
    Cache.creq_of_skip (h.skip pins), h.dreq]

theorem VTop.AccessGranted.dresp (h : s.AccessGranted r) (hb : s.mux.busy = true)
    (hj : s.mux.index = (0 : Fin 2)) :
    s.dresp i = ⟨i.oresp.ready, i.oresp.last, i.oresp.data⟩ := by
  rw [VTop.dresp, DCache.dresp, Cache.dresp_of_skip _ (h.skip _), dcresp_granted hb hj]

theorem VTop.AccessGranted.pipeReset (h : s.AccessGranted r) (hr : i.reset = false) :
    s.core.pipeReset (s.coreIn i) = false := by
  rw [Core.pipeReset, Bool.or_eq_false_iff]
  exact ⟨hr, Core.csrFlush_of_mw h.mw _⟩

/-- A transaction of one beat belongs to the record in `em`. -/
theorem VTop.GrantOk.accessGranted (h : s.GrantOk beat) (hb : s.mux.busy = true)
    (hj : s.mux.index = (0 : Fin 2)) (hlen : s.mux.savedReq.len = mlen1) :
    s.AccessGranted s.mux.savedReq := by
  rcases h.data hb hj with hp | hg
  · have hlen' : s.mux.savedReq.len = mlen16 := hp.burst.len
    rw [hlen] at hlen'
    cases hlen'
  · exact hg

theorem VTop.GrantOk.savedReq_len (h : s.GrantOk beat) (hb : s.mux.busy = true) {pins : Pins}
    (hw : ¬s.Withdraws pins) (hlen : (s.oreq pins).len = mlen1) :
    s.mux.savedReq.len = mlen1 := by
  rw [VTop.oreq, CBusArbiter.oreq, if_pos hb] at hlen
  exact (h.request hb hw).2.len.trans hlen

/-- A single beat is that of the record in `em`. -/
theorem VTop.GrantOk.accessGranted_of_beat (h : s.GrantOk beat) (hw : ¬s.Withdraws i.pins)
    (hbeat : s.SingleBeat i) : s.AccessGranted s.mux.savedReq :=
  h.accessGranted hbeat.1 hbeat.2.1 (h.savedReq_len hbeat.1 hw hbeat.2.2.1)

/-- A load or store that leaves `em` has been driven and accepted. -/
theorem Core.Spaced.presents {c : Core} {i : CoreIn} {dataOk : Bool} (h : c.Spaced dataOk)
    (hl : c.Leaves i) (hm : c.em.instr.ctl.isMem = true) :
    c.memory.drivesM1 = false ∧ c.dreq i.pins = c.em.dataMtmp.dreq true ∧
      i.dresp.addrOk = true := by
  obtain ⟨hr, hgo⟩ := hl
  have hflush := Core.csrFlush_of_pipeReset hr
  rw [Core.stallDataOk_eq hr] at hgo
  rw [Core.dreq, Memory.dreq, hflush, hm]
  cases hst : c.memory.state with
  | idle =>
    rw [Memory.stallDataOk_idle hst, hm] at hgo
    exact ⟨by simp [Memory.drivesM1, hst], by simp [Memory.drivesM1, hst], by simpa using hgo⟩
  | memory01 =>
    rw [h.accepted hst] at hm
    cases hm
  | memory10 =>
    rw [Memory.stallDataOk_memory10 hst] at hgo
    exact ⟨by simp [Memory.drivesM1, hst], by simp [Memory.drivesM1, hst], by simpa using hgo⟩
  | memory11 => exact absurd hst h.single

/-- The accesses that leave are the single beats. -/
theorem VTop.GrantOk.leaves_iff_beat (h : s.GrantOk beat) (hw : ¬s.Withdraws i.pins)
    (hs : s.core.Spaced (s.coreIn i).iresp.dataOk) (hr : i.reset = false) :
    s.core.LeavesUncached (s.coreIn i) ↔ s.SingleBeat i := by
  constructor
  · rintro ⟨hl, hm, hun⟩
    obtain ⟨_, hdreq, hok⟩ := hs.presents hl hm
    obtain ⟨hb, hj, hg, hready⟩ := h.accepts_uncached hdreq hun hok
    refine ⟨hb, hj, ?_, hready⟩
    rw [hg.oreq hb hj]
    rfl
  · intro hbeat
    have hg := h.accessGranted_of_beat hw hbeat
    obtain ⟨hb, hj, _, hready⟩ := hbeat
    have hreset := hg.pipeReset hr
    refine ⟨⟨hreset, ?_⟩, hg.isMem, hg.uncached⟩
    have hok : (s.coreIn i).dresp.addrOk = true := by
      change (s.dresp i).addrOk = true
      rw [hg.dresp hb hj]
      exact hready
    rw [Core.stallDataOk_eq hreset, Memory.stallDataOk_memory10 hg.waits, hok]
    rfl

/-- The record takes the data of the beat with it. -/
theorem VTop.AccessGranted.step_memory (h : s.AccessGranted r)
    (hs : s.core.Spaced (s.coreIn i).iresp.dataOk) (hd : s.core.Decoded) (hr : i.reset = false)
    (hb : s.mux.busy = true) (hj : s.mux.index = (0 : Fin 2)) (hready : i.oresp.ready = true) :
    (s.step i).core.memory =
        ⟨.idle, { s.core.em.dataMtmp with memrData := i.oresp.data }⟩ ∧
      (s.step i).core.em = 0 := by
  have hreset := h.pipeReset hr
  have hexe : s.core.dataE = 0 := Core.dataE_bubble (hs.de_bubble hd h.isMem)
  have hun : s.core.em.aluout.getLsbD 31 = false := h.uncached
  have hresp : (s.coreIn i).dresp = ⟨i.oresp.ready, i.oresp.last, i.oresp.data⟩ :=
    h.dresp hb hj
  constructor
  · change (s.core.step _).memory = _
    rw [Core.step_memory hreset, Memory.step_memory10 h.waits h.isMem, hresp, hready, hun, hexe]
    rfl
  · change (s.core.step _).em = 0
    rw [Core.step_em hreset, Core.stallDataOk_eq hreset, Memory.stallDataOk_memory10 h.waits,
      hresp, hready, hexe]
    exact ite_self _

end Cycle

/-- A record in `dataM1` with a bubble behind it reaches write-back. -/
theorem Core.step_mw_of_idle {c : Core} {i : CoreIn} (hr : c.pipeReset i = false)
    (hst : c.memory.state = .idle) (hem : c.em = 0) :
    (c.step i).mw = { c.memory.dataM1 with strobe := 0 } := by
  have hno : c.em.instr.ctl.isMem = false := by
    rw [hem]
    rfl
  rw [step_mw hr, stallDataOk_eq hr, Memory.stallDataOk_idle hst, hno]
  simp [dataM, Memory.dataM, hst]

/-! ## Runs -/

section Run

variable {s : ℕ → SimTop} {i : ℕ → SimTopIn} {t : ℕ}

/-- The tags of a run of `SimTop`. -/
def SimTop.tags (s : ℕ → SimTop) (i : ℕ → SimTopIn) : ℕ → Tags :=
  VTop.tags (fun t => (s t).top) fun t => (s t).topIn (i t)

/-- No uncached word is asked for in cycle `t`. -/
def SimTop.CachedFetch (s : ℕ → SimTop) (i : ℕ → SimTopIn) (t : ℕ) : Prop :=
  ((s t).top.core.ireq (i t).pins).IsCached

/-- In cycle `t` an uncached load or store leaves `em`. -/
def SimTop.LeavesUncached (s : ℕ → SimTop) (i : ℕ → SimTopIn) (t : ℕ) : Prop :=
  (s t).top.core.LeavesUncached ((s t).top.coreIn ((s t).topIn (i t)))

instance (t : ℕ) : Decidable (SimTop.CachedFetch s i t) := inferInstanceAs (Decidable (_ → _))

instance (t : ℕ) : Decidable (SimTop.LeavesUncached s i t) := inferInstanceAs (Decidable (_ ∧ _))

/-- The transaction of the data side that was granted in cycle `g` is that of the
record in `em` in cycle `t`, from the grant up to its single beat in cycle `t`. -/
structure SimTop.Transacts (s : ℕ → SimTop) (i : ℕ → SimTopIn) (g t : ℕ) : Prop where
  serves : CBusArbiter.Serves (fun u => (s u).top.mux)
    (fun u => (s u).top.muxIn ((s u).topIn (i u))) g (0 : Fin 2) t
  waits : ∀ u, g < u → u ≤ t → (s u).top.core.em = (s t).top.core.em
  request : ∀ u, g < u → u ≤ t →
    (s u).oreq (i u) = ((s t).top.core.em.dataMtmp.dreq true).creqSkip
  beats : readyBeats (fun u => (s u).oresp (i u)) (g + 1) (t + 1) = [(s t).oresp (i t)]
  last : ((s t).oresp (i t)).last = true

/-- What is known of every cycle of a run without uncached fetches. -/
theorem SimTop.IsRun.cycle (h : SimTop.IsRun s i) (hc : ∀ u ≤ t, CachedFetch s i u) :
    (s t).top.GrantOk (s t).ram.beat ∧ (s t).top.FetchBurst ∧
      (s t).top.core.Spaced ((s t).top.coreIn ((s t).topIn (i t))).iresp.dataOk ∧
      (s t).top.core.Decoded ∧ (i t).reset = false := by
  obtain ⟨hg, hf⟩ := h.grantOk_of_cached t fun u hu => hc u (by omega)
  exact ⟨hg, hf, h.top.spaced fun u hu => hc u hu, h.top.core.decoded t,
    Bool.eq_false_iff.mpr (h.noReset t)⟩

/-- A beat that is not the last of a single-beat transaction does not arrive. -/
theorem SimTop.IsRun.waits_of_serves (h : SimTop.IsRun s i) {g : ℕ}
    (hc : ∀ u ≤ t, CachedFetch s i u)
    (hs : CBusArbiter.Serves (fun u => (s u).top.mux)
      (fun u => (s u).top.muxIn ((s u).topIn (i u))) g (0 : Fin 2) t)
    (hlen : ((s g).top.ireqs (i g).pins (0 : Fin 2)).len = mlen1) {u : ℕ} (hu : g < u)
    (hut : u ≤ t) :
    (s u).top.mux.busy = true ∧ (s u).top.mux.index = (0 : Fin 2) ∧
      (s u).top.AccessGranted (s u).top.mux.savedReq ∧
      (u < t → ((s u).oresp (i u)).ready = false) := by
  have hsu : CBusArbiter.Serves (fun u => (s u).top.mux)
      (fun u => (s u).top.muxIn ((s u).topIn (i u))) g (0 : Fin 2) u :=
    ⟨hs.1, hu, fun v hv hvu => hs.2.2 v hv (by omega)⟩
  have hmux := h.mux.serves_state hsu
  have hb : (s u).top.mux.busy = true := congrArg CBusArbiter.busy hmux
  have hj : (s u).top.mux.index = (0 : Fin 2) := congrArg CBusArbiter.index hmux
  have hsaved : (s u).top.mux.savedReq.len = mlen1 :=
    (congrArg (fun m => m.savedReq.len) hmux).trans hlen
  obtain ⟨hg, hf, _⟩ := h.cycle (t := u) fun v hv => hc v (by omega)
  refine ⟨hb, hj, hg.accessGranted hb hj hsaved, fun hlt => ?_⟩
  exact hg.single_beat (i := (s u).topIn (i u)) hb
    (answered hg (i u) (hf.not_withdraws _)) hsaved (hs.2.2 u hu hlt)

/-- A single beat ends a transaction of its own, which was that of `em` all along. -/
theorem SimTop.IsRun.transacts (h : SimTop.IsRun s i) (hc : ∀ u ≤ t, CachedFetch s i u)
    (hbeat : (s t).top.SingleBeat ((s t).topIn (i t))) : ∃ g, Transacts s i g t := by
  obtain ⟨hb, hj, hlen, hready⟩ := hbeat
  obtain ⟨hok, hf, _⟩ := h.cycle hc
  obtain ⟨g, hg⟩ := h.mux.busy_serves hb
  rw [hj] at hg
  have hgt := hg.2.1
  have hsaved := hok.savedReq_len hb (hf.not_withdraws _) hlen
  have hgrant : ((s g).top.ireqs (i g).pins (0 : Fin 2)).len = mlen1 :=
    (congrArg (fun m => m.savedReq.len) (h.mux.serves_state hg)).symm.trans hsaved
  have hcycle := fun u hu hut => h.waits_of_serves hc hg hgrant (u := u) hu hut
  -- `em` is held from the grant on
  have hem : ∀ k u, u + k = t → g < u → (s u).top.core.em = (s t).top.core.em := by
    intro k
    induction k with
    | zero =>
      intro u hu _
      rw [← hu]
      rfl
    | succ k ih =>
      intro u hu hgu
      obtain ⟨hbu, hju, hau, hwait⟩ := hcycle u hgu (by omega)
      have hno : ((s u).top.dcresp ((s u).topIn (i u)).oresp).ready = false := by
        rw [VTop.dcresp_granted hbu hju]
        exact hwait (by omega)
      have hstep := (hau.step (Bool.eq_false_iff.mpr (h.noReset u)) hno).2
      rw [← ih (u + 1) (by omega) (by omega), h.next u]
      exact hstep.symm
  refine ⟨g, hg, fun u hu hut => hem (t - u) u (by omega) hu, fun u hu hut => ?_, ?_, ?_⟩
  · obtain ⟨hbu, hju, hau, _⟩ := hcycle u hu hut
    rw [← hem (t - u) u (by omega) hu]
    exact hau.oreq hbu hju _
  · exact readyBeats_single (by omega) (fun u hu hut => (hcycle u hu (by omega)).2.2.2 hut) hready
  · by_contra hc'
    have := hok.single_beat (i := (s t).topIn (i t)) hb
      (answered hok (i t) (hf.not_withdraws _)) hsaved (Bool.eq_false_iff.mpr hc')
    exact Bool.false_ne_true (this.symm.trans hready)

/-- The data of the beat reaches write-back, unless the instruction is flushed on the
way. -/
theorem SimTop.IsRun.uncached_mw (h : SimTop.IsRun s i) (hc : ∀ u ≤ t, CachedFetch s i u)
    (hbeat : (s t).top.SingleBeat ((s t).topIn (i t)))
    (hreset : (s (t + 1)).top.core.csrFlush (i (t + 1)).pins = false) :
    (s (t + 2)).top.core.mw = { (s t).top.core.em.dataMtmp with
      memrData := ((s t).oresp (i t)).data, strobe := 0 } := by
  obtain ⟨hb, hj, hlen, hready⟩ := hbeat
  obtain ⟨hok, hf, hs, hd, hr⟩ := h.cycle hc
  have hsaved := hok.savedReq_len hb (hf.not_withdraws _) hlen
  have hstep := (hok.accessGranted hb hj hsaved).step_memory (i := (s t).topIn (i t)) hs hd hr hb hj
    hready
  have hpipe : (s (t + 1)).top.core.pipeReset
      ((s (t + 1)).top.coreIn ((s (t + 1)).topIn (i (t + 1)))) = false := by
    rw [Core.pipeReset, Bool.or_eq_false_iff]
    exact ⟨Bool.eq_false_iff.mpr (h.noReset (t + 1)), hreset⟩
  have hmem : (s (t + 1)).top.core.memory = ⟨.idle, { (s t).top.core.em.dataMtmp with
      memrData := ((s t).oresp (i t)).data }⟩ := by
    rw [h.next t]
    exact hstep.1
  have hem : (s (t + 1)).top.core.em = 0 := by
    rw [h.next t]
    exact hstep.2
  have hmw := Core.step_mw_of_idle hpipe (by rw [hmem]) hem
  rw [hmem] at hmw
  rw [h.next (t + 1)]
  exact hmw

/-- A record that leaves `em` has a tag, and is found in `dataM1` next. -/
theorem SimTop.IsRun.leaves_tag (h : SimTop.IsRun s i) (hc : ∀ u ≤ t, CachedFetch s i u)
    (hl : LeavesUncached s i t) :
    (tags s i t).em ≠ none ∧ (tags s i (t + 1)).dataM1 = (tags s i t).em := by
  obtain ⟨_, _, _, hd, _⟩ := h.cycle hc
  obtain ⟨⟨hreset, hgo⟩, hm, _⟩ := hl
  constructor
  · intro hnone
    have h0 := (h.top.core.tagsOk t).em.1 hnone
    rw [hd.em.instr, h0, FetchData.instr_zero] at hm
    cases hm
  · change ((tags s i t).step _ _ t).dataM1 = _
    rw [(h.top.lossless t).step_tags hreset, hgo]
    rfl

/-- No instruction leaves `em` twice. -/
theorem SimTop.IsRun.leaves_once (h : SimTop.IsRun s i) {u : ℕ} (htu : t < u)
    (hc : ∀ v ≤ u, CachedFetch s i v) (ht : LeavesUncached s i t) :
    (tags s i t).em ≠ (tags s i u).em := by
  intro heq
  have hct : ∀ v ≤ t, CachedFetch s i v := fun v hv => hc v (by omega)
  obtain ⟨hne, hm1⟩ := h.leaves_tag hct ht
  obtain ⟨x, hx⟩ := Option.ne_none_iff_exists'.mp hne
  have hord : (tags s i (t + 1)).Ordered (t + 1) := Core.tags_ordered h.top.lossless (t + 1)
  rw [hx] at hm1 heq
  have hnow := hord.dataM1 x hm1 (t + 1) rfl
  exact Core.tags_front_gone hnow (hord.not_front hm1 (Nat.le_refl x)) htu
    (.inr (.inr heq.symm))

/-- Exactly one transaction for each uncached access.  An uncached access leaves `em`
in the cycles of the single beats of the data side, each of which ends a transaction
with the request of the access.  The access takes the data of the beat to write-back,
and it does not leave twice. -/
theorem SimTop.IsRun.one_transaction (h : SimTop.IsRun s i) (n : ℕ)
    (hc : ∀ u ≤ n, CachedFetch s i u) :
    (∀ t ≤ n, LeavesUncached s i t ↔ (s t).top.SingleBeat ((s t).topIn (i t))) ∧
    (∀ t ≤ n, LeavesUncached s i t →
      (∃ g, Transacts s i g t) ∧
      ((s (t + 1)).top.core.csrFlush (i (t + 1)).pins = false →
        (s (t + 2)).top.core.mw = { (s t).top.core.em.dataMtmp with
          memrData := ((s t).oresp (i t)).data, strobe := 0 })) ∧
    (∀ t u, t < u → u ≤ n → LeavesUncached s i t → LeavesUncached s i u →
      (tags s i t).em ≠ none ∧ (tags s i t).em ≠ (tags s i u).em) ∧
    ∀ t ≤ n, (s t).top.mux.busy = true → (s t).top.mux.index = (0 : Fin 2) →
      ((s t).oreq (i t)).len = mlen1 →
      (s t).oreq (i t) = ((s t).top.core.em.dataMtmp.dreq true).creqSkip ∧
      (s t).top.core.em.instr.ctl.isMem = true ∧ isCached (s t).top.core.em.aluout = false ∧
      (s t).top.core.csrFlush (i t).pins = false := by
  have hiff : ∀ t ≤ n, LeavesUncached s i t ↔ (s t).top.SingleBeat ((s t).topIn (i t)) := by
    intro t ht
    obtain ⟨hok, hf, hs, _, hr⟩ := h.cycle (t := t) fun u hu => hc u (by omega)
    exact hok.leaves_iff_beat (i := (s t).topIn (i t)) (hf.not_withdraws _) hs hr
  refine ⟨hiff, fun t ht hl => ?_, fun t u htu hu hl _ => ?_, fun t ht hb hj hlen => ?_⟩
  · have hct : ∀ u ≤ t, CachedFetch s i u := fun u hu => hc u (by omega)
    have hbeat := (hiff t ht).mp hl
    exact ⟨h.transacts hct hbeat, h.uncached_mw hct hbeat⟩
  · exact ⟨(h.leaves_tag (fun v hv => hc v (by omega)) hl).1,
      h.leaves_once htu (fun v hv => hc v (by omega)) hl⟩
  · obtain ⟨hok, hf, _⟩ := h.cycle (t := t) fun u hu => hc u (by omega)
    have hg := hok.accessGranted hb hj (hok.savedReq_len hb (hf.not_withdraws _) hlen)
    exact ⟨hg.oreq hb hj _, hg.isMem, hg.uncached, Core.csrFlush_of_mw hg.mw _⟩

end Run

/-! ## An example run -/

/-- `lw x1, 0(x0)`. -/
def uncachedLoad : List (BitVec 32) := [0x00002083#32]

theorem uncachedLoad_one_transaction :
    ∃ g, SimTop.Transacts (SimTop.boot uncachedLoad .low) (fun _ => .fast .low) g 19 :=
  (((SimTop.boot_isRun uncachedLoad .low).one_transaction 19 (by decide +kernel)).2.1 19
    (by decide) (by decide +kernel)).1

end RiscvCpu
