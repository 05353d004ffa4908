import RiscvCpu.Tags

/-!
# Redirects of the CSR unit

The CSR unit redirects the pc for the instruction in write-back, and everything
behind it is flushed.  By then nothing behind it has had an effect: the instruction
was no multiplication or division, so a bubble stands in `dataM1`, and the data port
is not driven for `em` in the cycle of the redirect.  What the pipeline holds
afterwards was fetched after the redirect, from its target on.
-/

namespace RiscvCpu

/-! ## What a tagged instruction does -/

/-- The instruction in write-back redirects the pc by its own exception, a CSR write
or `mret`. -/
def Core.Redirects (c : Core) (pins : Pins) : Prop :=
  c.mw.csrCtlW.isExcept = true ∨ c.csr.csrWen c.mw pins = true ∨ c.mw.csrCtlW.isMret = true

instance (c : Core) (pins : Pins) : Decidable (c.Redirects pins) :=
  inferInstanceAs (Decidable (_ ∨ _))

/-- The instruction tagged `x` has its load or store accepted on the data port. -/
def Core.Accepts (c : Core) (g : Tags) (i : CoreIn) (x : ℕ) : Prop :=
  (c.dreq i.pins).valid = true ∧ i.dresp.addrOk = true ∧
    (if c.memory.drivesM1 then g.dataM1 else g.em) = some x

/-- The instruction tagged `x` takes effect: it is accepted on the data port, or it
is in write-back, where registers and CSRs are written. -/
def Core.TakesEffect (c : Core) (g : Tags) (i : CoreIn) (x : ℕ) : Prop :=
  c.Accepts g i x ∨ g.mw = some x

theorem Core.Redirects.csrFlush {c : Core} {pins : Pins} (h : c.Redirects pins) :
    c.csrFlush pins = true := by
  rcases h with h | h | h <;> simp [Core.csrFlush, csrPcNxt, Csr.csrPcNxt, Csr.excOrInt, h]

/-- A multiplication or division does not redirect the pc. -/
theorem Core.Decoded.redirects_aluop {c : Core} (h : c.Decoded) {pins : Pins}
    (hr : c.Redirects pins) : c.mw.pcAndInstr.instr.ctl.aluop ≠ .aluMulticycle := by
  intro hm
  have hx := h.mw.multicycle_csrCtlW hm
  rcases hr with hr | hr | hr
  · rw [hx] at hr
    cases hr
  · rw [Csr.csrWen, hx] at hr
    cases hr
  · rw [hx] at hr
    cases hr

/-! ## The bubble in front of write-back -/

/-- Two instructions meet behind execute only if the older one is a multiplication or
division. -/
structure Core.Apart (c : Core) (g : Tags) : Prop where
  dataM1 : g.dataM1 ≠ none → g.em ≠ none →
    c.memory.dataM1.pcAndInstr.instr.ctl.aluop = .aluMulticycle
  mw : g.mw ≠ none → g.dataM1 ≠ none → c.mw.pcAndInstr.instr.ctl.aluop = .aluMulticycle

theorem Core.apart_empty (c : Core) : c.Apart .empty where
  dataM1 h := absurd rfl h
  mw h := absurd rfl h

theorem Core.Apart.step {c : Core} {g : Tags} {i : CoreIn} (now : ℕ) (h : c.Apart g)
    (hs : c.Spaced i.iresp.dataOk) (hl : c.Lossless i) (hd : c.Decoded)
    (hde : g.de ≠ none → c.de ≠ 0) (hem : g.em ≠ none → c.em ≠ 0) :
    (c.step i).Apart (g.step c i now) := by
  cases hr : c.pipeReset i with
  | true =>
    rw [Tags.step_pipeReset hr]
    exact apart_empty _
  | false =>
    rw [hl.step_tags hr]
    refine ⟨fun h1 h2 => ?_, fun h1 h2 => ?_⟩
    · rw [hl.step_dataM1_pcAndInstr hr]
      cases hst : c.stallDataOk i with
      | true =>
        simp only [hst, if_true] at h1 h2
        exact h.dataM1 h1 h2
      | false =>
        simp only [hst, Bool.false_eq_true, if_false] at h1 h2
        cases hmul : c.multicycleDoing with
        | true =>
          rw [hmul] at h2
          exact absurd rfl h2
        | false =>
          rw [hmul, if_neg Bool.false_ne_true] at h2
          rw [if_neg Bool.false_ne_true, ← hd.em.instr]
          exact hs.multi (hde h2) (hem h1)
    · rw [step_mw_pcAndInstr hr]
      cases hst : c.stallDataOk i with
      | true =>
        rw [hst] at h1
        exact absurd rfl h1
      | false =>
        simp only [hst, Bool.false_eq_true, if_false] at h1 h2
        exact h.dataM1 h1 h2

/-! ## Runs -/

section Run

variable {s : ℕ → Core} {i : ℕ → CoreIn} {c t x : ℕ}

/-- What is accepted on the data port is found in `dataM1` at once or in the next
cycle. -/
theorem Core.Accepts.dataM1 (h : (s t).Accepts (tags s i t) (i t) x)
    (hr : (i t).reset = false) :
    (tags s i t).dataM1 = some x ∨ (tags s i (t + 1)).dataM1 = some x := by
  obtain ⟨hv, ha, hx⟩ := h
  cases hd : (s t).memory.drivesM1 with
  | true =>
    rw [hd, if_pos rfl] at hx
    exact .inl hx
  | false =>
    rw [hd, if_neg Bool.false_ne_true] at hx
    have hmem : ((s t).em.instr.ctl.isMem && !(s t).csrFlush (i t).pins) = true := by
      rw [dreq, Memory.dreq, hd] at hv
      exact hv
    have hflush : (s t).csrFlush (i t).pins = false := by
      simp only [Bool.and_eq_true, Bool.not_eq_true'] at hmem
      exact hmem.2
    have hkeep : (s t).memory.keeps (s t).em ((s t).csrFlush (i t).pins) (i t).dresp = false := by
      cases hst : (s t).memory.state with
      | idle => simp [Memory.keeps, hst, ha]
      | memory10 =>
        have hv' : ((s t).memory.dreq (s t).em ((s t).csrFlush (i t).pins)).valid = true := hv
        simp [Memory.keeps, hst, ha, hv']
      | memory01 => simp [Memory.drivesM1, hst] at hd
      | memory11 => simp [Memory.drivesM1, hst] at hd
    refine .inr ?_
    simp only [tags, Tags.step, pipeReset, hr, hflush, Bool.or_self, Bool.false_eq_true, if_false]
    rw [hflush] at hkeep
    rw [hkeep, if_neg Bool.false_ne_true]
    exact hx

/-- A tagged record is no bubble. -/
theorem Core.Named.ne_zero {tag : Option ℕ} {d : FetchData} (h : Named s i tag d)
    (ht : tag ≠ none)
    (hpc : ∀ n, tag = some n → (s n).Captures (i n) → (s n).fetch.pc ≠ 0) : d ≠ 0 := by
  obtain ⟨n, hn⟩ := Option.ne_none_iff_exists'.mp ht
  obtain ⟨hcap, hd⟩ := h.2 n hn
  intro h0
  refine hpc n hn hcap ?_
  have hpcO : ((s n).dataF (i n)).pcO = (0 : FetchData).pcO := by
    rw [← hd, h0]
  exact hpcO

theorem Core.IsRun.apart (h : Core.IsRun s i) (hl : ∀ u, (s u).Lossless (i u)) (t : ℕ)
    (hs : ∀ u < t, (s u).Spaced (i u).iresp.dataOk)
    (hpc : ∀ n < t, (s n).Captures (i n) → (s n).fetch.pc ≠ 0) :
    (s t).Apart (tags s i t) := by
  induction t with
  | zero => exact apart_empty _
  | succ t ih =>
    have hord := tags_ordered hl t
    have hok := h.tagsOk t
    rw [h.next t]
    refine (ih (fun u hu => hs u (by omega)) fun n hn => hpc n (by omega)).step t (hs t (by omega))
      (hl t) (h.decoded t) (fun hde h0 => ?_) (fun hem h0 => ?_)
    · refine hok.de.ne_zero hde (fun n hn => hpc n ?_) (by rw [h0]; rfl)
      have := hord.de n hn t rfl
      omega
    · refine hok.em.ne_zero hem (fun n hn => hpc n ?_) (by rw [h0]; rfl)
      have := hord.em n hn t rfl
      omega

/-- No instruction younger than one that redirects the pc ever reaches `dataM1`. -/
theorem Core.IsRun.younger_not_dataM1 (h : Core.IsRun s i) (hl : ∀ u, (s u).Lossless (i u))
    (hs : ∀ u ≤ c, (s u).Spaced (i u).iresp.dataOk)
    (hpc : ∀ n ≤ c, (s n).Captures (i n) → (s n).fetch.pc ≠ 0)
    (hx : (tags s i c).mw = some x) (hr : (s c).Redirects (i c).pins) {y : ℕ} (hxy : x < y)
    (hy : y ≤ c) (t : ℕ) : (tags s i t).dataM1 ≠ some y := by
  intro hm1
  rcases Nat.lt_trichotomy t c with ht | ht | ht
  · -- the older instruction would have left the front before the younger one got there
    have hord := tags_ordered hl t
    have hyt := hord.dataM1 y hm1 t rfl
    have hgone : ¬(tags s i t).Holds x := by
      rintro (hh | hh)
      · exact hord.not_front hm1 (by omega) hh
      · rw [hm1] at hh
        cases hh
        omega
    obtain ⟨u, rfl⟩ : ∃ u, c = u + 1 := ⟨c - 1, by omega⟩
    exact tags_gone (by omega) hgone (u := u) (by omega)
      (.inr (Tags.step_mw hx))
  · subst ht
    have hap := h.apart hl t (fun u hu => hs u (by omega)) fun n hn => hpc n (by omega)
    exact (h.decoded t).redirects_aluop hr (hap.mw (by rw [hx]; simp) (by rw [hm1]; simp))
  · have hflush : (s c).pipeReset (i c) = true := by
      rw [pipeReset, hr.csrFlush, Bool.or_true]
    have := tags_after hflush ht (.inr hm1)
    omega

/-- No instruction younger than one that redirects the pc, and in the pipeline by
then, ever takes effect. -/
theorem Core.IsRun.younger_no_effect (h : Core.IsRun s i) (hl : ∀ u, (s u).Lossless (i u))
    (hs : ∀ u ≤ c, (s u).Spaced (i u).iresp.dataOk)
    (hpc : ∀ n ≤ c, (s n).Captures (i n) → (s n).fetch.pc ≠ 0)
    (hx : (tags s i c).mw = some x) (hr : (s c).Redirects (i c).pins) {y : ℕ} (hxy : x < y)
    (hy : y ≤ c) (t : ℕ) : ¬(s t).TakesEffect (tags s i t) (i t) y := by
  have hno := h.younger_not_dataM1 hl hs hpc hx hr hxy hy
  rintro (ha | hmw)
  · rcases ha.dataM1 (Bool.eq_false_iff.mpr (h.noReset t)) with h' | h'
    · exact hno t h'
    · exact hno (t + 1) h'
  · cases t with
    | zero => cases hmw
    | succ t => exact hno t (Tags.step_mw hmw)

end Run

/-! ## The next instruction -/

/-- The oldest record in front of write-back has the pc `n`, and so has the word to
fetch if there is no record. -/
structure Core.Leads (c : Core) (g : Tags) (n : BitVec 64) : Prop where
  dataM1 : g.dataM1 ≠ none → c.memory.dataM1.pcAndInstr.pcO = n
  em : g.dataM1 = none → g.em ≠ none → c.em.pcAndInstr.pcO = n
  de : g.dataM1 = none → g.em = none → g.de ≠ none → c.de.pcAndInstr.pcO = n
  fd : g.dataM1 = none → g.em = none → g.de = none → g.fd ≠ none → c.fd.pcO = n
  fetch : g.dataM1 = none → g.em = none → g.de = none → g.fd = none → c.fetch.pc = n

/-- A redirect leaves an empty pipeline and its target as the pc. -/
theorem Core.leads_of_csrFlush {c : Core} {i : CoreIn} (g : Tags) (now : ℕ)
    (hf : c.csrFlush i.pins = true) (hr : i.reset = false) :
    (c.step i).Leads (g.step c i now) (c.csrPcNxt i.pins).pcNxt := by
  have hv : (c.csrPcNxt i.pins).csrPcValid = true := hf
  rw [Tags.step_pipeReset (by rw [pipeReset, hf, Bool.or_true])]
  refine ⟨fun h => absurd rfl h, fun _ h => absurd rfl h, fun _ _ h => absurd rfl h,
    fun _ _ _ h => absurd rfl h, fun _ _ _ _ => ?_⟩
  simp [step, Fetch.step, pcselect, hr, hv]

section Lead

variable {c : Core} {i : CoreIn} {g : Tags} {now : ℕ} {n : BitVec 64}

/-- Behind a load or store that waits nothing moves. -/
theorem Core.Leads.step_stall (h : c.Leads g n) (hl : c.Lossless i) (hr : c.pipeReset i = false)
    (hst : c.stallDataOk i = true) : (c.step i).Leads (g.step c i now) n := by
  have hfront : c.frontStall i = true := by
    rw [frontStall_eq, hst]
    rfl
  rw [hl.step_tags hr]
  constructor <;> simp only [hst, hfront, Bool.true_or, if_true]
  · rw [hl.step_dataM1_pcAndInstr hr, hst]
    exact h.dataM1
  · rw [step_em_pcAndInstr hr, hst]
    exact h.em
  · rw [step_de_pcAndInstr hr, hst]
    exact h.de
  · rw [step_fd hr, hfront]
    exact h.fd
  · rw [step_pc hr, hfront]
    exact h.fetch

/-- Behind a multiplication or division `em` moves alone. -/
theorem Core.Leads.step_multicycle (h : c.Leads g n) (hl : c.Lossless i)
    (hr : c.pipeReset i = false) (hno : g.dataM1 = none) (hst : c.stallDataOk i = false)
    (hmul : c.multicycleDoing = true) : (c.step i).Leads (g.step c i now) n := by
  have hfront : c.frontStall i = true := by
    rw [frontStall_eq, hst, hmul]
    rfl
  rw [hl.step_tags hr]
  constructor <;>
    simp only [hst, hmul, hfront, Bool.or_true, if_true, Bool.false_eq_true, if_false]
  · rw [hl.step_dataM1_pcAndInstr hr, hst]
    exact h.em hno
  · exact fun _ hc => absurd rfl hc
  · rw [step_de_pcAndInstr hr, hst, hmul]
    exact fun he _ => h.de hno he
  · rw [step_fd hr, hfront]
    exact fun he _ => h.fd hno he
  · rw [step_pc hr, hfront]
    exact fun he _ => h.fetch hno he

/-- Decode waits for an operand or for the word to fetch. -/
theorem Core.Leads.step_wait (h : c.Leads g n) (hl : c.Lossless i) (hr : c.pipeReset i = false)
    (hno : g.dataM1 = none) (hst : c.stallDataOk i = false) (hmul : c.multicycleDoing = false)
    (hwait : (c.operandStall || !c.iDataOk i) = true) : (c.step i).Leads (g.step c i now) n := by
  have hfront : c.frontStall i = true := by
    rw [frontStall_eq, hst, hmul, hwait]
    rfl
  rw [hl.step_tags hr]
  constructor <;>
    simp only [hst, hmul, hwait, hfront, Bool.or_false, if_true, Bool.false_eq_true, if_false]
  · rw [hl.step_dataM1_pcAndInstr hr, hst]
    exact h.em hno
  · rw [step_em_pcAndInstr hr, hst, hmul]
    exact h.de hno
  · exact fun _ _ hc => absurd rfl hc
  · rw [step_fd hr, hfront]
    exact fun he hd _ => h.fd hno he hd
  · rw [step_pc hr, hfront]
    exact fun he hd _ => h.fetch hno he hd

/-- All records move, and the word that is fetched follows them. -/
theorem Core.Leads.step_go (h : c.Leads g n) (hl : c.Lossless i) (hr : c.pipeReset i = false)
    (hfd : g.fd = none → c.fd = 0) (hno : g.dataM1 = none) (hst : c.stallDataOk i = false)
    (hmul : c.multicycleDoing = false) (hwait : (c.operandStall || !c.iDataOk i) = false) :
    (c.step i).Leads (g.step c i now) n := by
  have hfront : c.frontStall i = false := by
    rw [frontStall_eq, hst, hmul, hwait]
    rfl
  rw [hl.step_tags hr]
  constructor <;>
    simp only [hst, hmul, hwait, hfront, Bool.or_false, Bool.false_eq_true, if_false]
  · rw [hl.step_dataM1_pcAndInstr hr, hst]
    exact h.em hno
  · rw [step_em_pcAndInstr hr, hst, hmul]
    exact h.de hno
  · rw [step_de_pcAndInstr hr, hst, hmul, hwait]
    exact h.fd hno
  · intro he hd hf _
    have hbub := hfd hf
    rw [step_fd hr, hfront, jumpFlush_bubble hbub]
    exact h.fetch hno he hd hf
  · -- the word that is fetched enters the empty pipeline
    intro he hd hf hfresh
    rw [jumpFlush_bubble (hfd hf)] at hfresh
    cases hfresh

/-- As long as nothing reaches write-back the oldest record stays the oldest. -/
theorem Core.Leads.step (h : c.Leads g n) (hl : c.Lossless i) (hr : c.pipeReset i = false)
    (hfd : g.fd = none → c.fd = 0) (hmw : (g.step c i now).mw = none) :
    (c.step i).Leads (g.step c i now) n := by
  cases hst : c.stallDataOk i with
  | true => exact h.step_stall hl hr hst
  | false =>
    -- `dataM1` is empty, since its record would reach write-back
    have hno : g.dataM1 = none := by
      rw [hl.step_tags hr] at hmw
      simpa [hst] using hmw
    cases hmul : c.multicycleDoing with
    | true => exact h.step_multicycle hl hr hno hst hmul
    | false =>
      cases hwait : c.operandStall || !c.iDataOk i with
      | true => exact h.step_wait hl hr hno hst hmul hwait
      | false => exact h.step_go hl hr hfd hno hst hmul hwait

end Lead

section Run

variable {s : ℕ → Core} {i : ℕ → CoreIn} {c t : ℕ}

theorem Core.IsRun.leads (h : Core.IsRun s i) (hl : ∀ u, (s u).Lossless (i u))
    (hf : (s c).csrFlush (i c).pins = true) (ht : c < t)
    (hmw : ∀ u, c < u → u ≤ t → (tags s i u).mw = none) :
    (s t).Leads (tags s i t) ((s c).csrPcNxt (i c).pins).pcNxt := by
  induction t, ht using Nat.le_induction with
  | base =>
    rw [h.next c]
    exact leads_of_csrFlush _ c hf (Bool.eq_false_iff.mpr (h.noReset c))
  | succ t ht ih =>
    have hok := h.tagsOk t
    have hbub := hok.mw.1 (hmw t ht (by omega))
    have hr : (s t).pipeReset (i t) = false := by
      rw [pipeReset, Bool.or_eq_false_iff]
      exact ⟨Bool.eq_false_iff.mpr (h.noReset t), (h.decoded t).csrFlush_of_bubble hbub _⟩
    rw [h.next t]
    exact (ih fun u hu hut => hmw u hu (by omega)).step (hl t) hr hok.fd.1
      (hmw (t + 1) (by omega) (Nat.le_refl _))

/-- The next instruction to reach write-back after a redirect is the one at its
target. -/
theorem Core.IsRun.next_pc (h : Core.IsRun s i) (hl : ∀ u, (s u).Lossless (i u))
    (hf : (s c).csrFlush (i c).pins = true) (ht : c < t)
    (hmw : ∀ u, c < u → u < t → (tags s i u).mw = none) (hnext : (tags s i t).mw ≠ none) :
    (s t).mw.pcW = ((s c).csrPcNxt (i c).pins).pcNxt := by
  obtain ⟨t, rfl⟩ : ∃ u, t = u + 1 := ⟨t - 1, by omega⟩
  obtain ⟨z, hz⟩ := Option.ne_none_iff_exists'.mp hnext
  have hm1 : (tags s i t).dataM1 = some z := Tags.step_mw hz
  have hct : c < t := by
    by_contra hc
    obtain rfl : c = t := by omega
    rw [tags, Tags.step_pipeReset (by rw [pipeReset, hf, Bool.or_true])] at hz
    cases hz
  have hlead := (h.leads hl hf hct fun u hu hut => hmw u hu (by omega)).dataM1
    (by rw [hm1]; simp)
  -- the record in write-back is the one that was in `dataM1`
  rw [MemoryData.pcW, ((h.tagsOk (t + 1)).mw.2 z hz).2, ← ((h.tagsOk t).dataM1.2 z hm1).2]
  exact hlead

end Run

/-! ## Runs of the top module -/

section Top

variable {s : ℕ → VTop} {i : ℕ → VTopIn}

/-- The tags of a run of `VTop`. -/
def VTop.tags (s : ℕ → VTop) (i : ℕ → VTopIn) : ℕ → Tags :=
  Core.tags (fun t => (s t).core) fun t => (s t).coreIn (i t)

/-- Without uncached fetches the pc is cached, but in the cycle of a redirect. -/
theorem VTop.IsRun.pc_cached (h : VTop.IsRun s i) (t : ℕ) (hc : ∀ u ≤ t, CachedFetch s i u)
    (hf : (s t).core.csrFlush (i t).pins = false) : isCached (s t).core.fetch.pc = true := by
  cases hreq : (s t).core.fetch.icacheReqO with
  | true =>
    have hv : ((s t).core.csrPcNxt (i t).pins).csrPcValid = false := hf
    refine hc t (Nat.le_refl t) ?_
    simp [Core.ireq, Fetch.ireq, hreq, hv]
  | false =>
    induction t with
    | zero =>
      obtain ⟨x, j, hj, hs⟩ := h.start
      have hj' : (x.coreIn j).reset = true := hj
      rw [hs] at hreq
      simp [step, Core.step, Fetch.step, hj'] at hreq
    | succ t ih =>
      have hr : (i t).reset = false := Bool.eq_false_iff.mpr (h.noReset t)
      rw [h.next t] at hreq ⊢
      obtain ⟨hreset, _, hstall⟩ := Core.of_step_icacheReqO hr hreq
      have hpc : ((s t).step (i t)).core.fetch.pc = (s t).core.fetch.pc := by
        change ((s t).core.step _).fetch.pc = _
        rw [Core.step_pc hreset, hstall, if_pos rfl]
      have hf' : (s t).core.csrFlush (i t).pins = false := Core.csrFlush_of_pipeReset hreset
      rw [hpc]
      cases hreq' : (s t).core.fetch.icacheReqO with
      | true =>
        have hv : ((s t).core.csrPcNxt (i t).pins).csrPcValid = false := hf'
        refine hc t (by omega) ?_
        simp [Core.ireq, Fetch.ireq, hreq', hv]
      | false => exact ih (fun u hu => hc u (by omega)) hf' hreq'

theorem VTop.IsRun.captured_pc (h : VTop.IsRun s i) {n : ℕ} (hc : ∀ u ≤ n, CachedFetch s i u)
    (hcap : (s n).core.Captures ((s n).coreIn (i n))) : (s n).core.fetch.pc ≠ 0 := by
  intro h0
  have hpc := h.pc_cached n hc (Core.csrFlush_of_pipeReset hcap.1)
  rw [h0] at hpc
  cases hpc

/-- Nothing younger than an instruction that redirects the pc ever takes effect, and
the next instruction to reach write-back is the one at the target. -/
theorem VTop.IsRun.redirect_discards_younger (h : VTop.IsRun s i) (n c : ℕ) (hcn : c ≤ n)
    (hc : ∀ u ≤ n, CachedFetch s i u) (hr : (s c).core.Redirects (i c).pins) :
    ∃ x, (tags s i c).mw = some x ∧
      (∀ y, x < y → y ≤ c → ∀ t,
        ¬(s t).core.TakesEffect (tags s i t) ((s t).coreIn (i t)) y) ∧
      ∀ t ≤ n, c < t → (∀ u, c < u → u < t → (tags s i u).mw = none) → (tags s i t).mw ≠ none →
        (s t).core.mw.pcW = ((s c).core.csrPcNxt (i c).pins).pcNxt := by
  have hs : ∀ u ≤ n, (s u).core.Spaced ((s u).coreIn (i u)).iresp.dataOk :=
    fun u hu => h.spaced fun v hv => hc v (by omega)
  have hne : (tags s i c).mw ≠ none := by
    intro hnone
    have hflush := (h.core.decoded c).csrFlush_of_bubble ((h.core.tagsOk c).mw.1 hnone) (i c).pins
    rw [hr.csrFlush] at hflush
    cases hflush
  obtain ⟨x, hx⟩ := Option.ne_none_iff_exists'.mp hne
  refine ⟨x, hx, fun y hxy hy => ?_, fun t ht hct hmw hnext => ?_⟩
  · exact h.core.younger_no_effect h.lossless (fun u hu => hs u (by omega))
      (fun m hm hcap => h.captured_pc (fun u hu => hc u (by omega)) hcap) hx hr hxy hy
  · exact h.core.next_pc h.lossless hr.csrFlush hct hmw hnext

end Top

/-! ## An example run -/

/-- `csrrwi x0, mscratch, 5` and two additions. -/
def csrThenAdds : List (BitVec 32) := [0x3402d073#32, 0x00500093#32, 0x00108093#32]

/-- The CSR write reaches write-back in cycle 10, with the first addition, fetched in
cycle 6, in `em`.  The addition is fetched again and reaches write-back in cycle 18. -/
theorem csrThenAdds_discards_younger :
    (∀ t, ¬(SimTop.boot csrThenAdds .low t).top.core.TakesEffect
      (VTop.tags (fun u => (SimTop.boot csrThenAdds .low u).top)
        (fun u => (SimTop.boot csrThenAdds .low u).topIn (.fast .low)) t)
      ((SimTop.boot csrThenAdds .low t).top.coreIn
        ((SimTop.boot csrThenAdds .low t).topIn (.fast .low))) 6) ∧
    (SimTop.boot csrThenAdds .low 18).top.core.mw.pcW =
      ((SimTop.boot csrThenAdds .low 10).top.core.csrPcNxt .low).pcNxt := by
  have hempty : ∀ u < 18, 10 < u →
      (VTop.tags (fun u => (SimTop.boot csrThenAdds .low u).top)
        (fun u => (SimTop.boot csrThenAdds .low u).topIn (.fast .low)) u).mw = none := by
    decide +kernel
  have hfour : (VTop.tags (fun u => (SimTop.boot csrThenAdds .low u).top)
      (fun u => (SimTop.boot csrThenAdds .low u).topIn (.fast .low)) 10).mw = some 4 := by
    decide +kernel
  obtain ⟨x, hx, hyounger, hnext⟩ :=
    (SimTop.boot_isRun csrThenAdds .low).top.redirect_discards_younger 18 10 (by decide)
      (by decide +kernel) (by decide +kernel)
  obtain rfl : 4 = x := Option.some.inj (hfour.symm.trans hx)
  exact ⟨hyounger 6 (by decide) (by decide), hnext 18 (by decide) (by decide)
    (fun u hu hut => hempty u hut hu) (by decide +kernel)⟩

end RiscvCpu
