import RiscvCpu.Deadlock
import RiscvCpu.Hart.Refinement
import RiscvCpu.Interrupts

/-!
# Interrupts are taken

A pin that stays high is mirrored in `mie` and `mip`, so from the next cycle on only `mstatus`
holds its interrupt back.  Once software has enabled interrupts there, the next instruction in
write-back is interrupted.  A bubble changes nothing in `mstatus`, and the pipeline does not
come to a halt, so there is one.
-/

namespace RiscvCpu

open Filter

/-- In cycle `t` the instruction in write-back is interrupted.  The core goes on at `mtvec` in
machine mode, with the pc of the instruction in `mepc` and interrupts disabled. -/
structure SimTop.TakesInterrupt (s : ℕ → SimTop) (i : ℕ → SimTopIn) (t : ℕ) : Prop where
  isInterupt : (s t).top.core.csr.isInterupt (s t).top.core.mw (i t).pins = true
  pc : (s (t + 1)).top.core.fetch.pc = (s t).top.core.csr.regs.mtvec
  mepc : (s (t + 1)).top.core.csr.regs.mepc = (s t).top.core.mw.pcW
  mode : (s (t + 1)).top.core.csr.mode = machineMode
  masked : (s (t + 1)).top.core.Masked

section Cycle

variable {c : Core} {i : CoreIn}

/-- A trap goes to `mtvec`, with the pc of the instruction in `mepc`. -/
theorem Core.step_trap (hr : i.reset = false) (htrap : c.csr.excOrInt c.mw i.pins = true) :
    (c.step i).fetch.pc = c.csr.regs.mtvec ∧ (c.step i).csr.regs.mepc = c.mw.pcW ∧
      (c.step i).csr.mode = machineMode ∧ (c.step i).Masked := by
  have hcsr : (c.step i).csr = c.csr.step c.mw i.pins i.reset := rfl
  refine ⟨?_, ?_⟩
  · change (if i.reset then _ else pcselect _ _ _ (c.csrPcNxt i.pins) _) = _
    simp [hr, pcselect, csrPcNxt, Csr.csrPcNxt, htrap]
  · rw [Core.Masked, hcsr, hr, Csr.step_trap htrap]
    refine ⟨rfl, rfl, ?_⟩
    simp [mieBit, setMpp, setMie, getLsbD_setBit, -BitVec.getLsbD_eq_getElem]

end Cycle

section Run

variable {s : ℕ → SimTop} {i : ℕ → SimTopIn} {t : ℕ}

/-- An instruction in write-back has a pc other than zero. -/
theorem SimTop.IsRun.pcW_ne_zero (h : SimTop.IsRun s i) (hc : ∀ t, CachedFetch s i t)
    (hne : (s t).top.core.mw.pcAndInstr ≠ 0) : (s t).top.core.mw.pcW ≠ 0 := by
  have hnamed := (h.top.core.tagsOk t).mw
  cases htag : (Core.tags (fun t => (s t).top.core)
      (fun t => (s t).top.coreIn ((s t).topIn (i t))) t).mw with
  | none => exact absurd (hnamed.1 htag) hne
  | some p =>
    obtain ⟨hcap, hdata⟩ := hnamed.2 p htag
    rw [MemoryData.pcW, hdata]
    exact h.top.captured_pc (fun u _ => hc u) hcap

/-- A redirect leaves a bubble in write-back. -/
theorem SimTop.IsRun.pipeReset_of_mw (h : SimTop.IsRun s i)
    (hne : (s (t + 1)).top.core.mw.pcAndInstr ≠ 0) :
    (s t).top.core.pipeReset ((s t).top.coreIn ((s t).topIn (i t))) = false := by
  by_contra hr
  have hmw := (Core.step_pipeReset (Bool.not_eq_false _ ▸ hr)).2.2.2.2
  rw [← h.core_next t] at hmw
  exact hne (by rw [hmw]; rfl)

/-- A bubble in write-back leaves `mstatus` as it is. -/
theorem SimTop.IsRun.mstatus_of_bubble (h : SimTop.IsRun s i)
    (h0 : (s t).top.core.mw.pcAndInstr = 0) :
    (s (t + 1)).top.core.csr.regs.mstatus = (s t).top.core.csr.regs.mstatus := by
  have hr : (s t).top.core.pipeReset ((s t).top.coreIn ((s t).topIn (i t))) = false := by
    rw [Core.pipeReset, Bool.or_eq_false_iff]
    exact ⟨Bool.eq_false_iff.mpr (h.noReset t), (h.top.core.decoded t).csrFlush_of_bubble h0 _⟩
  rw [h.core_next t, Core.step_csr_mirrored hr]
  rfl

/-- A pin that is high in two cycles interrupts the instruction that is in write-back in the
second one, unless interrupts are disabled. -/
theorem SimTop.IsRun.takesInterrupt (h : SimTop.IsRun s i) (hc : ∀ t, CachedFetch s i t)
    {k : IntCause} (hpin : k.pin (i t).pins = true) (hpin' : k.pin (i (t + 1)).pins = true)
    (hne : (s (t + 1)).top.core.mw.pcAndInstr ≠ 0)
    (hmie : mieBit (s (t + 1)).top.core.csr.regs.mstatus = true) :
    TakesInterrupt s i (t + 1) := by
  -- the pins of the cycle before have enabled the interrupt
  have hregs := Core.step_csr_mirrored (h.pipeReset_of_mw hne)
  rw [← h.core_next t] at hregs
  have hbit : (s (t + 1)).top.core.csr.regs.mie.getLsbD k.code = true := by
    rw [hregs]
    exact (Csr.mirrored_mie (i := ⟨false, (s t).top.core.mw, (i t).pins⟩) k).trans hpin
  have hint : (s (t + 1)).top.core.csr.isInterupt (s (t + 1)).top.core.mw
      (i (t + 1)).pins = true :=
    (Csr.isInterupt_iff (i := ⟨false, (s (t + 1)).top.core.mw, (i (t + 1)).pins⟩)).mpr
      ⟨hmie, h.pcW_ne_zero hc hne, k, hpin', hbit⟩
  have htrap := Core.step_trap (c := (s (t + 1)).top.core)
    (i := (s (t + 1)).top.coreIn ((s (t + 1)).topIn (i (t + 1))))
    (Bool.eq_false_iff.mpr (h.noReset (t + 1)))
    (by rw [Csr.excOrInt]; exact Bool.or_eq_true_iff.mpr (.inr hint))
  rw [← h.core_next (t + 1)] at htrap
  exact ⟨hint, htrap.1, htrap.2.1, htrap.2.2.1, htrap.2.2.2⟩

/-- Interrupts are taken.  In a run from any contents of memory in which memory is ready to
answer in infinitely many cycles and no uncached word is fetched, let a timer or software pin
be high from cycle `t` on, and interrupts enabled in `mstatus` in a later cycle `u`.  Then an
instruction arrives in write-back from `u` on, and the first one is interrupted. -/
theorem SimTop.IsRun.interrupt_taken (h : SimTop.IsRun s i) (hc : ∀ t, CachedFetch s i t)
    (fair : ∃ᶠ t in atTop, (i t).ram.ready = true) {k : IntCause}
    (hpin : ∀ u, t ≤ u → k.pin (i u).pins = true) {u : ℕ} (hu : t < u)
    (hmie : mieBit (s u).top.core.csr.regs.mstatus = true) :
    ∃ v, u ≤ v ∧ (∀ w, u ≤ w → w < v → (s w).top.core.mw.pcAndInstr = 0) ∧
      TakesInterrupt s i v := by
  have again : ∃ᶠ v in atTop, (s v).top.core.mw.pcAndInstr ≠ 0 := by
    by_contra hno
    exact h.not_eventually_bubble hc fair (not_frequently.mp hno)
  obtain ⟨v, hv, hne, hmie', hfirst⟩ := Sync.exists_next
    (P := fun v => mieBit (s v).top.core.csr.regs.mstatus = true) again hmie
    fun w _ h0 hw => (congrArg mieBit (h.mstatus_of_bubble (not_not.mp h0))).trans hw
  refine ⟨v, hv, fun w hw hwv => not_not.mp (hfirst w hw hwv), ?_⟩
  obtain ⟨w, rfl⟩ : ∃ w, v = w + 1 := ⟨v - 1, by omega⟩
  exact h.takesInterrupt hc (hpin w (by omega)) (hpin (w + 1) (by omega)) hne hmie'

end Run

/-! ## An example run -/

section TrapLoop

theorem Isa.State.AtTrapLoop.path {y : Isa.State} (h : y.AtTrapLoop 7) (hbr : y.regs 3 ≠ 0)
    (dev : ℕ → BitVec 64) (n : ℕ) :
    (y.path trapLoopOps dev n).AtTrapLoop 7 ∧ (y.path trapLoopOps dev n).regs 3 ≠ 0 := by
  induction n with
  | zero => exact ⟨h, hbr⟩
  | succ n ih =>
    obtain ⟨hat, hregs⟩ := ih.1.exec_taken ih.2 dev
    exact ⟨hat, by rw [Isa.State.path, hregs]; exact ih.2⟩

theorem trapLoopPc_handler {k : Fin 10} (h : trapLoopPc k = 0x8000001c#64) : k = 7 := by
  have hall : ∀ k : Fin 10, trapLoopPc k = 0x8000001c#64 → k = 7 := by decide
  exact hall k h

variable {s : SimTop} {h : ℕ → Isa.Hart} {dev : ℕ → BitVec 64} {t u : ℕ} {g : Places}

/-- When the branch of the handler leads to itself, fetch does not leave the program. -/
theorem SimTop.InStep.isCached_trapLoop (hin : s.InStep h trapLoopOps dev t u g)
    (hat : (h u).prog.AtTrapLoop 7) (hbr : (h u).prog.regs 3 ≠ 0) :
    isCached s.top.core.fetch.pc = true := by
  have hpath := hat.path hbr dev
  have hinstr : ∀ n, ((h u).prog.path trapLoopOps dev n).instr = 0x00019063#32 :=
    fun n => (hpath n).1.instr.trans (by decide +kernel)
  have hahead : Isa.Ahead ((h u).prog.pathOp trapLoopOps dev) g.fd := by
    intro j _
    rw [Isa.State.pathOp, hinstr j]
    decide
  rcases (hin.hosts.core.tracks.heads hahead).pc_or_target with hpc | ⟨n, bpb, hpc⟩
  · rw [hpc, (hpath g.fetch).1.pc]
    decide
  · rw [hpc, hinstr n, (hpath n).1.pc, bpResult_beq (by decide)]
    split
    · decide
    · decide

/-- And nothing is redirected any more. -/
theorem SimTop.InStep.csrFlush_trapLoop (hin : s.InStep h trapLoopOps dev t u g)
    (hsound : Isa.Sound trapLoopOps dev h) (hat : (h u).prog.AtTrapLoop 7)
    (hbr : (h u).prog.regs 3 ≠ 0) (ht : ∃ k, (h t).AtTrapLoop k) {j : CoreIn}
    (ho : s.top.core.Orderly j) (pins : Pins) :
    s.top.core.Masked ∧ s.top.core.csrFlush pins = false := by
  obtain ⟨k, hk⟩ := ht
  have hpath := (hat.path hbr dev g.mw).1
  have hk7 : k = 7 := by
    refine trapLoopPc_handler ?_
    rw [← hk.prog.pc, ← hin.prog]
    exact hpath.pc
  have hmask : s.top.core.Masked := by
    rw [Core.Masked, hin.csr]
    exact hk.masked (by rw [hk7]; decide)
  refine ⟨hmask, ?_⟩
  by_cases h0 : s.top.core.mw.pcAndInstr = 0
  · exact ho.decoded.csrFlush_of_bubble h0 pins
  · have hx := hsound.stretch (t := u) hat.zero
    have hop : (h u).prog.pathOp trapLoopOps dev g.mw = .bne := by
      rw [Isa.State.pathOp, hpath.instr]
      decide +kernel
    rw [Core.csrFlush, hin.hosts.core.csrPcNxt hx ho h0 pins]
    exact Isa.State.asks_plain (hx.encodes _ hin.hosts.core.tracks.ahead) (by rw [hop]; decide)
      (Csr.isInterupt_of_mie hmask)

/-- The run of `trapLoop` with the timer pin high. -/
def trapLoopRun : ℕ → SimTop := SimTop.boot trapLoop .timer

/-- Where it is in each cycle. -/
def trapLoopStretch : ℕ → ℕ × Places :=
  SimTop.stretch trapLoopRun (fun _ => .fast .timer) trapLoopOps fun _ => 0

theorem trapLoopRun_isRun : SimTop.IsRun trapLoopRun fun _ => .fast .timer :=
  SimTop.boot_isRun trapLoop .timer

/-- In cycle `t` no uncached word is fetched, and no multiplication or division interrupted. -/
def TrapLoopQuiet (t : ℕ) : Prop :=
  SimTop.CachedFetch trapLoopRun (fun _ => .fast .timer) t ∧
    (trapLoopRun t).top.core.Precise .timer

instance (t : ℕ) : Decidable (TrapLoopQuiet t) := inferInstanceAs (Decidable (_ ∧ _))

theorem trapLoop_inStep {t : ℕ} (hq : ∀ u < t, TrapLoopQuiet u) :
    (trapLoopRun t).InStep trapLoopHart trapLoopOps (fun _ => 0) t (trapLoopStretch t).1
      (trapLoopStretch t).2 := by
  have hcycle := fun u (hu : u < t) =>
    trapLoopRun_isRun.cycle fun v (hv : v ≤ u) => (hq v (by omega)).1
  refine (trapLoopRun_isRun.inStep trapLoopHart_sound t (fun u hu => ?_)
    (fun u hu => (hq u hu).2) fun u hu hread => ?_).1
  · exact (hcycle u hu).2.1.not_withdraws _
  · exact hread.oresp_data (hcycle u hu).1 ((hcycle u hu).2.1.not_withdraws _)

/-- A redirect to the handler after the first one. -/
theorem trapLoop_handler {t : ℕ} (hq : ∀ u < t + 1, TrapLoopQuiet u)
    (hflush : (trapLoopRun t).top.core.csrFlush .timer = true)
    (hpc : (trapLoopRun (t + 1)).top.core.fetch.pc = 0x8000001c#64)
    (hregs : (trapLoopRun (t + 1)).top.core.regfile 3 ≠ 0) :
    (trapLoopStretch (t + 1)).1 = t + 1 ∧ (trapLoopHart (t + 1)).prog.AtTrapLoop 7 ∧
      (trapLoopHart (t + 1)).prog.regs 3 ≠ 0 := by
  have hstretch : trapLoopStretch (t + 1) = (t + 1, ⟨0, 0, 0, 0, 0, 0⟩) :=
    SimTop.stretch_flush hflush
  have hin := trapLoop_inStep hq
  rw [hstretch] at hin
  obtain ⟨k, hk⟩ := Isa.Hart.run_atTrapLoop (fun _ => 0) (SimTop.retires trapLoopRun) (t + 1)
  have hcore := hin.hosts.core
  have hfd : (trapLoopRun (t + 1)).top.core.fd = 0 := by
    rw [trapLoopRun_isRun.next t]
    exact (Core.step_pipeReset (Core.pipeReset_of_csrFlush hflush)).1
  have hk7 : k = 7 := by
    refine trapLoopPc_handler (hk.prog.pc.symm.trans ?_)
    exact ((hcore.tracks.heads (Isa.ahead_zero _)).resolved hfd).symm.trans hpc
  refine ⟨congrArg Prod.fst hstretch, hk7 ▸ hk.prog, ?_⟩
  rw [hcore.regfile] at hregs
  exact hregs

/-- The handler stays where it is, with interrupts disabled. -/
theorem trapLoop_stays {t : ℕ} (hq : ∀ u < t + 1, TrapLoopQuiet u)
    (hfirst : (trapLoopStretch t).1 = t) (hat : (trapLoopHart t).prog.AtTrapLoop 7)
    (hbr : (trapLoopHart t).prog.regs 3 ≠ 0) (n : ℕ) :
    (∀ u < t + n + 1, TrapLoopQuiet u) ∧ (trapLoopStretch (t + n)).1 = t := by
  induction n with
  | zero => exact ⟨hq, hfirst⟩
  | succ n ih =>
    obtain ⟨hpast, hst⟩ := ih
    have hin := trapLoop_inStep fun u (hu : u < t + n) => hpast u (by omega)
    rw [hst] at hin
    obtain ⟨_, hno⟩ := hin.csrFlush_trapLoop trapLoopHart_sound hat hbr
      (Isa.Hart.run_atTrapLoop _ _ _) (trapLoopRun_isRun.orderly (t + n)) .timer
    have hst' : (trapLoopStretch (t + n + 1)).1 = t :=
      (congrArg Prod.fst (SimTop.stretch_proceeds hno)).trans hst
    have hin' := trapLoop_inStep hpast
    rw [hst'] at hin'
    obtain ⟨hmask, _⟩ := hin'.csrFlush_trapLoop trapLoopHart_sound hat hbr
      (Isa.Hart.run_atTrapLoop _ _ _) (trapLoopRun_isRun.orderly (t + n + 1)) .timer
    refine ⟨fun u hu => ?_, hst'⟩
    rcases Nat.lt_succ_iff_lt_or_eq.mp hu with hlt | rfl
    · exact hpast u hlt
    · refine ⟨fun _ => hin'.isCached_trapLoop hat hbr, fun hint => ?_⟩
      exact absurd ((Csr.isInterupt_of_mie hmask).symm.trans hint) Bool.false_ne_true

/-- The second interrupt is taken in cycle 73. -/
theorem trapLoop_quiet (t : ℕ) : TrapLoopQuiet t := by
  have hstart : ∀ u < 73 + 1 + 1, TrapLoopQuiet u := by decide +kernel
  have hstate : (trapLoopRun 73).top.core.csrFlush .timer = true ∧
      (trapLoopRun (73 + 1)).top.core.fetch.pc = 0x8000001c#64 ∧
      (trapLoopRun (73 + 1)).top.core.regfile 3 ≠ 0 := by
    decide +kernel
  obtain ⟨hflush, hpc, hregs⟩ := hstate
  obtain ⟨hfirst, hat, hbr⟩ := trapLoop_handler (t := 73) (fun u hu => hstart u (by omega)) hflush
    hpc hregs
  exact (trapLoop_stays hstart hfirst hat hbr t).1 t (by omega)

end TrapLoop

/-- Interrupts are enabled in cycle 44, and the timer pin is high. -/
theorem trapLoop_interrupt_taken :
    ∃ v, 44 ≤ v ∧ (∀ w, 44 ≤ w → w < v → (trapLoopRun w).top.core.mw.pcAndInstr = 0) ∧
      SimTop.TakesInterrupt trapLoopRun (fun _ => .fast .timer) v :=
  trapLoopRun_isRun.interrupt_taken (fun t => (trapLoop_quiet t).1)
    (Eventually.of_forall fun _ => rfl).frequently (k := .timer) (t := 0) (fun _ _ => rfl)
    (by omega) (by decide +kernel)

end RiscvCpu
