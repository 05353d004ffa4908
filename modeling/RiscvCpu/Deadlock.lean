import RiscvCpu.Liveness
import RiscvCpu.Uncached

/-!
# No deadlock

Whatever words are in memory, and whatever the interrupt pins show, the system never comes to
a halt as long as memory is ready again and again and no uncached word is fetched:
instructions keep arriving in write-back.  This is not about programs alone.  The words may be
CSR instructions or no instructions at all, with any number of traps.

If write-back held bubbles from some cycle on nothing would redirect the pc any more, and
whatever is in the pipeline would move on to write-back.
-/

namespace RiscvCpu

open Filter

section Cycle

variable {c : Core} {i : CoreIn}

/-- The record in `de` moves on as soon as the multicycle unit lets go. -/
theorem Core.Spaced.step_em_of_done {dataOk : Bool} (h : c.Spaced dataOk) (hd : c.Decoded)
    (hr : c.pipeReset i = false) (hne : c.de.pcAndInstr ≠ 0) :
    (c.multicycleDoing = true → (c.step i).de = c.de) ∧
      (c.multicycleDoing = false → (c.step i).em.pcAndInstr = c.de.pcAndInstr) := by
  have hgo : c.stallDataOk i = false := by
    by_contra hs
    rw [h.de_bubble hd (h.isMem_of_stall hr (Bool.not_eq_false _ ▸ hs))] at hne
    exact hne rfl
  rw [step_de hr, step_em hr, hgo]
  constructor
  · intro hm
    rw [hm]
    rfl
  · intro hm
    rw [hm]
    rfl

/-- The record in decode moves on as soon as the front end is not stalled. -/
theorem Core.step_de_of_front (hr : c.pipeReset i = false) :
    (c.frontStall i = true → (c.step i).fd = c.fd) ∧
      (c.frontStall i = false → (c.step i).de.pcAndInstr = c.fd) := by
  rw [step_fd hr, step_de hr, frontStall_eq]
  constructor
  · intro hf
    rw [if_pos hf]
  · intro hf
    simp only [Bool.or_eq_false_iff] at hf
    rw [hf.1.1, hf.1.2, hf.2.1, hf.2.2]
    rfl

end Cycle

section Run

variable {s : ℕ → SimTop} {i : ℕ → SimTopIn}

/-- With bubbles in write-back and no uncached fetch a run proceeds. -/
theorem SimTop.IsRun.proceeds_of_bubble (h : SimTop.IsRun s i)
    (hc : ∀ t, CachedFetch s i t) {t : ℕ}
    (h0 : (s t).top.core.mw.pcAndInstr = 0) : (s t).Proceeds (i t) where
  orderly := h.orderly t
  grant := (h.grantOk_of_cached t fun u _ => hc u).1
  spaced := h.top.spaced fun u _ => hc u
  noReset := Bool.eq_false_iff.mpr (h.noReset t)
  noFlush := (h.top.core.decoded t).csrFlush_of_bubble h0 _

/-- With bubbles in write-back from some cycle on the run proceeds from then on. -/
theorem SimTop.IsRun.eventually_proceeds (h : SimTop.IsRun s i)
    (hc : ∀ t, CachedFetch s i t)
    (hmw : ∀ᶠ t in atTop, ¬(s t).top.core.mw.pcAndInstr ≠ 0) :
    ∀ᶠ t in atTop, (s t).Proceeds (i t) :=
  hmw.mono fun _ h0 => h.proceeds_of_bubble hc (not_not.mp h0)

/-- Bubbles in write-back from some cycle on leave bubbles in `de` from some cycle on. -/
theorem SimTop.IsRun.eventually_de_bubble (h : SimTop.IsRun s i)
    (hp : ∀ᶠ t in atTop, (s t).Proceeds (i t)) (fair : ∃ᶠ t in atTop, (i t).ram.ready = true)
    (hmw : ∀ᶠ t in atTop, ¬(s t).top.core.mw.pcAndInstr ≠ 0) :
    ∀ᶠ t in atTop, ¬(s t).top.core.de.pcAndInstr ≠ 0 := by
  have haccepts := h.frequently_accepts hp fair
  have hm1 : ∀ᶠ t in atTop, ¬(s t).top.core.memory.dataM1.pcAndInstr ≠ 0 := by
    refine Sync.eventually_not_of_passes haccepts ?_ ?_ hmw
    · filter_upwards [hp] with t hp hne hs
      rw [h.core_next t, hp.orderly.lossless.step_dataM1_pcAndInstr hp.pipeReset, if_pos]
      · exact hne
      · exact Bool.not_eq_false _ ▸ hs
    · filter_upwards [hp] with t hp hne hs
      rw [h.core_next t, Core.step_mw hp.pipeReset, hs]
      exact hne
  have hem : ∀ᶠ t in atTop, ¬(s t).top.core.em.pcAndInstr ≠ 0 := by
    refine Sync.eventually_not_of_passes haccepts ?_ ?_ hm1
    · filter_upwards [hp] with t hp hne hs
      rw [h.core_next t, Core.step_em hp.pipeReset, if_pos (Bool.not_eq_false _ ▸ hs)]
      exact hne
    · filter_upwards [hp] with t hp hne hs
      rw [h.core_next t, hp.orderly.lossless.step_dataM1_pcAndInstr hp.pipeReset, hs]
      exact hne
  refine Sync.eventually_not_of_passes (h.frequently_done hp) ?_ ?_ hem
  · filter_upwards [hp] with t hp hne hm
    rw [h.core_next t, (hp.spaced.step_em_of_done hp.orderly.decoded hp.pipeReset hne).1
      (Bool.not_eq_false _ ▸ hm)]
    exact hne
  · filter_upwards [hp] with t hp hne hm
    rw [h.core_next t, (hp.spaced.step_em_of_done hp.orderly.decoded hp.pipeReset hne).2 hm]
    exact hne

/-- Write-back does not hold bubbles for ever: the next word that decode takes would arrive
there. -/
theorem SimTop.IsRun.not_eventually_bubble (h : SimTop.IsRun s i)
    (hc : ∀ t, CachedFetch s i t)
    (fair : ∃ᶠ t in atTop, (i t).ram.ready = true) :
    ¬∀ᶠ t in atTop, ¬(s t).top.core.mw.pcAndInstr ≠ 0 := by
  intro hmw
  have hp := h.eventually_proceeds hc hmw
  have hfront := h.frequently_front hp fair
  have hfd : ∀ᶠ t in atTop, ¬(s t).top.core.fd ≠ 0 := by
    refine Sync.eventually_not_of_passes hfront ?_ ?_ (h.eventually_de_bubble hp fair hmw)
    · filter_upwards [hp] with t hp hne hf
      rw [h.core_next t, (Core.step_de_of_front hp.pipeReset).1 (Bool.not_eq_false _ ▸ hf)]
      exact hne
    · filter_upwards [hp] with t hp hne hf
      rw [h.core_next t, (Core.step_de_of_front hp.pipeReset).2 hf]
      exact hne
  obtain ⟨t, ⟨⟨hf, hp⟩, h0⟩, h0'⟩ :=
    (((hfront.and_eventually hp).and_eventually hfd).and_eventually
      (Sync.eventually_succ hfd)).exists
  refine h0' fun hzero => ?_
  rw [h.core_next t, Core.step_fd hp.pipeReset, hf, if_neg Bool.false_ne_true,
    Core.jumpFlush_bubble (not_not.mp h0), if_neg Bool.false_ne_true] at hzero
  have hpc : (s t).top.core.fetch.pc = 0 := congrArg FetchData.pcO hzero
  have hcached := h.top.pc_cached t (fun u _ => hc u) hp.noFlush
  rw [hpc] at hcached
  cases hcached

/-- No deadlock.  In a run from any contents of memory, under any pins, with a memory that is
ready to answer in infinitely many cycles, write-back holds an instruction in infinitely many
cycles, unless an uncached word is fetched. -/
theorem SimTop.IsRun.no_deadlock (h : SimTop.IsRun s i)
    (hc : ∀ t, CachedFetch s i t)
    (fair : ∃ᶠ t in atTop, (i t).ram.ready = true) :
    ∃ᶠ t in atTop, (s t).top.core.mw.pcAndInstr ≠ 0 := by
  by_contra hno
  exact h.not_eventually_bubble hc fair (not_frequently.mp hno)

/-! ## Programs -/

/-- Fetch is at an instruction of the program, or where one is predicted to lead. -/
theorem Core.Heads.pc_or_target {c : Core} {x : ℕ → Isa.State} {g : Places} (h : c.Heads x g) :
    c.fetch.pc = (x g.fetch).pc ∨
      ∃ n, ∃ bpb : Bpb, c.fetch.pc = (bpb.bpResult (x n).instr (x n).pc).targetPc := by
  by_cases h0 : c.fd = 0
  · exact .inl (h.resolved h0)
  · obtain ⟨bpb, -, hpc⟩ := h.predicted h0
    obtain ⟨his, -⟩ := h.fd.is h0
    rw [his.pcO, his.rawInstr] at hpc
    exact .inr ⟨g.fd, bpb, hpc⟩

end Run

/-! ## An example run -/

theorem addThenLoop_target (n : ℕ) (bpb : Bpb) :
    isCached (bpb.bpResult (addThenLoopState n).instr (addThenLoopState n).pc).targetPc = true := by
  cases n with
  | zero =>
    rw [bpResult_other (by decide +kernel) (by decide +kernel)]
    decide +kernel
  | succ n =>
    rw [addThenLoop_loops.state n, bpResult_jal (by decide +kernel)]
    decide +kernel

/-- The loop fetches cached words alone. -/
theorem addThenLoop_fetch (pins : Pins) (t : ℕ) :
    SimTop.CachedFetch (SimTop.boot addThenLoop pins) (fun _ => .fast pins) t := by
  intro _
  change isCached (SimTop.boot addThenLoop pins t).top.core.fetch.pc = true
  have hrun := SimTop.boot_isRun addThenLoop pins
  have hsim := (hrun.simulates addThenLoop_executes t
    (hrun.devicesReturn_const addThenLoop_executes (fun _ => rfl) t)).1
  rcases hsim.core.follows.heads.pc_or_target with hpc | ⟨n, bpb, hpc⟩
  · obtain ⟨hlo, hhi⟩ := (addThenLoop_executes.fits
      (SimTop.places (SimTop.boot addThenLoop pins) _ t).fetch).pcRange
    rw [hpc]
    exact isCached_of_range hlo hhi
  · rw [hpc]
    exact addThenLoop_target n bpb

theorem addThenLoop_no_deadlock :
    ∃ᶠ t in atTop, (SimTop.boot addThenLoop ⟨true, true, true⟩ t).top.core.mw.pcAndInstr ≠ 0 :=
  (SimTop.boot_isRun addThenLoop ⟨true, true, true⟩).no_deadlock
    (addThenLoop_fetch ⟨true, true, true⟩) (Eventually.of_forall fun _ => rfl).frequently

end RiscvCpu
