import RiscvCpu.ArchState
import RiscvCpu.Hart.Memory

/-!
# The pipeline refines the hart

In a run from a memory that holds a program with CSR instructions, `ecall`, `mret` and
interrupts, the core goes through the states of the hart.  In every cycle the CSR unit and
the registers are those of the hart, and a record in write-back is reported as the commit of
its next instruction.

Between two redirects the run is in a stretch.  A redirect ends it, and the next one begins
with an empty pipeline where the hart goes on.
-/

namespace RiscvCpu

/-! ## Programs with traps -/

section Program

variable (ops : BitVec 32 → Op) (dev : ℕ → BitVec 64)

/-- The states from `y` on, without redirects.  `ops` names the operation of each word. -/
def Isa.State.path (y : Isa.State) : ℕ → Isa.State
  | 0 => y
  | n + 1 => (y.path n).exec (ops (y.path n).instr) dev

/-- The operations on the way. -/
def Isa.State.pathOp (y : Isa.State) (n : ℕ) : Op := ops (y.path ops dev n).instr

theorem Isa.State.path_add (y : Isa.State) (m n : ℕ) :
    y.path ops dev (m + n) = (y.path ops dev m).path ops dev n := by
  induction n with
  | zero => rfl
  | succ n ih =>
    rw [← Nat.add_assoc, path, path, ih]

/-- The state `z` lies ahead of a state of the hart, on the path without interrupts. -/
def Isa.Reached (h : ℕ → Isa.Hart) (z : Isa.State) : Prop :=
  ∃ t n, Isa.Ahead ((h t).prog.pathOp ops dev) n ∧ (h t).prog.path ops dev n = z

/-- The program keeps to the machine, wherever it is interrupted, and never changes a word
that it executes. -/
structure Isa.Sound (h : ℕ → Isa.Hart) : Prop where
  encodes : ∀ z, Isa.Reached ops dev h z → Isa.Encodes (ops z.instr) z.instr
  inBounds : ∀ z, Isa.Reached ops dev h z → z.InBounds (ops z.instr)
  code : ∀ y z, Isa.Reached ops dev h y → Isa.Reached ops dev h z → y.wordAt z.pc = z.instr

/-- The words of the program. -/
def Isa.Text (h : ℕ → Isa.Hart) (pc : BitVec 64) (w : BitVec 32) : Prop :=
  ∃ z, Isa.Reached ops dev h z ∧ z.pc = pc ∧ z.instr = w

variable {ops dev} {h : ℕ → Isa.Hart}

/-- A stretch begins in every state of the hart. -/
theorem Isa.Sound.stretch (hs : Isa.Sound ops dev h) {t : ℕ} (h0 : (h t).prog.regs 0 = 0) :
    Isa.Stretch ((h t).prog.path ops dev) ((h t).prog.pathOp ops dev) dev where
  next _ := rfl
  zero := h0
  encodes n hn := hs.encodes _ ⟨t, n, hn, rfl⟩
  inBounds n hn := hs.inBounds _ ⟨t, n, hn, rfl⟩

theorem Isa.Sound.loaded (hs : Isa.Sound ops dev h) (t : ℕ) :
    Isa.Loaded ((h t).prog.path ops dev) ((h t).prog.pathOp ops dev) (Isa.Text ops dev h) where
  own n hn := ⟨_, ⟨t, n, hn, rfl⟩, rfl, rfl⟩
  aligned := by
    rintro _ _ ⟨z, hz, rfl, rfl⟩
    exact (hs.inBounds z hz).pcAligned
  range := by
    rintro _ _ ⟨z, hz, rfl, rfl⟩
    exact (hs.inBounds z hz).pcRange
  fixed := by
    rintro n hn _ _ ⟨z, hz, rfl, rfl⟩
    exact hs.code _ z ⟨t, n, hn, rfl⟩ hz

theorem Isa.Hart.regsNxt_zero (x : Isa.Hart) (op : Op) (dev : ℕ → BitVec 64) :
    x.regsNxt op dev 0 = x.prog.regs 0 := by
  cases hc : op.isCsr with
  | true =>
    rw [regsNxt_csr dev hc, if_neg]
    rw [Bool.and_eq_true, bne_iff_ne, beq_iff_eq]
    rintro ⟨hne, h0⟩
    exact hne h0.symm
  | false =>
    rw [regsNxt, hc]
    cases op.isSystem with
    | true => rfl
    | false => exact Isa.State.exec_regs_zero x.prog op

end Program

/-! ## Cycles of the core -/

section Core

variable {c : Core} {i : CoreIn}

/-- A bubble in write-back leaves the CSR unit to itself. -/
theorem Core.Decoded.step_csr_bubble (h : c.Decoded) (h0 : c.mw.pcAndInstr = 0) (pins : Pins) :
    c.csr.step c.mw pins false = c.csr.step 0 pins false := by
  have hctl : c.mw.csrCtlW = 0 := by
    have hinstr : c.mw.pcAndInstr.instr = 0 := by
      rw [h0, FetchData.instr_zero]
    rw [h.mw.csrCtlW_eq (by rw [hinstr]; rfl) (by rw [hinstr]; rfl), h0, FetchData.csrCtl_zero]
  have hquiet : ∀ d : MemoryData, d.csrCtlW = 0 → d.pcW = 0 →
      c.csr.step d pins false = ⟨c.csr.mirrored pins, c.csr.mode⟩ := by
    intro d hd hpc
    refine Csr.step_quiet ⟨?_, ?_, ?_⟩ ?_
    · rw [hd]
      rfl
    · rw [hd]
      rfl
    · rw [hd]
      rfl
    · exact c.csr.isInterupt_bubble hpc pins
  rw [hquiet _ hctl (by rw [MemoryData.pcW, h0]; rfl), hquiet 0 (by decide) rfl]

theorem Core.pipeReset_of_csrFlush (hf : c.csrFlush i.pins = true) : c.pipeReset i = true := by
  rw [pipeReset, hf, Bool.or_true]

/-- A redirect leaves its target as the pc. -/
theorem Core.step_pc_flush (hf : c.csrFlush i.pins = true) (hr : i.reset = false) :
    (c.step i).fetch.pc = (c.csrPcNxt i.pins).pcNxt := by
  have hv : (c.csrPcNxt i.pins).csrPcValid = true := hf
  simp [step, Fetch.step, pcselect, hr, hv]

end Core

/-! ## Cycles of the system -/

section Cycle

variable {s : SimTop} {i : SimTopIn} {val : BitVec 61 → BitVec 64}

/-- In the cycle of a redirect at most an old request is driven, once more. -/
theorem SimTop.DataOk.hit_of_csrFlush (h : s.DataOk val)
    (hlines : Cache.LinesCached s.top.dcache) (hf : s.top.core.csrFlush i.pins = true)
    (hh : Cache.fsmToHit s.top.dcache (s.top.core.dreq i.pins) = true) :
    (s.top.core.dreq i.pins).addr.toNat < 2 ^ 33 ∧
      storeWord val (s.top.core.dreq i.pins) = val := by
  cases hd : s.top.core.memory.drivesM1 with
  | true =>
    have hdreq : s.top.core.dreq i.pins = s.top.core.memory.dataM1.dreq true := by
      rw [Core.dreq, Memory.dreq, hd, if_pos rfl]
    rw [hdreq]
    exact h.again hd
  | false =>
    have hv := (DCache.accepted_of_fsmToHit hlines hh 0).2.1
    rw [Core.dreq, Memory.dreq, hd, hf] at hv
    simp [MemoryData.dreq] at hv

/-- The data path in the cycle of a redirect. -/
theorem SimTop.DataOk.step_csrFlush (h : s.DataOk val) (hg : s.top.GrantOk s.ram.beat)
    (ha : s.top.Answered s.ram.beat (s.oresp i)) (hr : i.reset = false)
    (hclean : (s.top.icreq i.pins).isWrite = false)
    (hf : s.top.core.csrFlush i.pins = true) : (s.step i).DataOk val := by
  have hsame : s.dataNxt i val = val := by
    rw [SimTop.dataNxt]
    split
    · rename_i hh
      exact (h.hit_of_csrFlush hg.lines hf hh).2
    · rfl
  constructor
  · have := h.step_coherent hg ha hr hclean fun hh => (h.hit_of_csrFlush hg.lines hf hh).1
    rwa [hsame] at this
  · intro hd
    have hmem : (s.step i).top.core.memory = ⟨.idle, 0⟩ :=
      (Core.step_pipeReset (Core.pipeReset_of_csrFlush hf)).2.2.2.1
    rw [hmem] at hd
    cases hd

/-- No access to a device is made in the cycle of a redirect. -/
theorem SimTop.not_singleBeat (hg : s.top.GrantOk s.ram.beat)
    (hw : ¬s.top.Withdraws i.pins) (hf : s.top.core.csrFlush i.pins = true) :
    ¬s.top.SingleBeat (s.topIn i) := by
  intro hbeat
  have hgr := hg.accessGranted_of_beat hw hbeat
  rw [Core.csrFlush_of_mw hgr.mw] at hf
  cases hf

variable {x x' : ℕ → Isa.State} {op op' : ℕ → Op} {dev : ℕ → BitVec 64}
  {C : BitVec 64 → BitVec 32 → Prop} {g : Places}

/-- A redirect ends the stretch, and the next one begins where the hart goes on. -/
theorem SimTop.Hosts.step_flush (h : s.Hosts x op dev C g) (hx : Isa.Stretch x op dev)
    (hC : Isa.Loaded x op C) (ho : s.top.core.Orderly (s.top.coreIn (s.topIn i)))
    (hr : i.reset = false) (hw : ¬s.top.Withdraws i.pins) (hp : s.top.core.Precise i.pins)
    (hf : s.top.core.csrFlush i.pins = true)
    (hx' : x' 0 = ((s.top.core.hart x g).retire (op g.mw) dev i.pins).prog) :
    (s.step i).Hosts x' op' dev C ⟨0, 0, 0, 0, 0, 0⟩ := by
  have ha := answered h.grant i hw
  have hclean := h.code.clean.creq_isWrite (s.top.core.ireq i.pins)
  obtain ⟨hne, _, hem⟩ := h.core.flush hx ho hp hf
  have hreset : s.top.core.pipeReset (s.top.coreIn (s.topIn i)) = true :=
    Core.pipeReset_of_csrFlush hf
  have hnxt := h.core.csrPcNxt hx ho hne i.pins
  refine ⟨?_, ?_, ?_, ?_, ?_, ?_⟩
  · refine Core.hosts_of_pipeReset hreset ?_ ?_
    · rw [hx', Core.step_pc_flush hf hr]
      change (s.top.core.csrPcNxt i.pins).pcNxt = (s.top.core.hart x g).pcNxt (op g.mw) i.pins
      rw [Core.csrFlush, hnxt] at hf
      rw [hnxt, Isa.Hart.pcNxt, Core.hart, hf]
      rfl
    · rw [hx']
      change _ = (s.top.core.hart x g).regsNxt (op g.mw) dev
      rw [← h.core.regsNxt hx ho hne]
      funext ra
      exact Core.step_regfile ho.regfile_zero hr ra
  · have hbeat : (s.step i).ram.beat = nextBeat s.ram.beat (s.oresp i) := by
      simp [SimTop.step, Ram.step, hr]
    rw [hbeat]
    exact h.grant.step ha hr hw
  · exact h.code.step h.grant ha h.ram (fun pc w hpc => hC.cached hpc) hr
  · refine h.data.step_hasCode h.grant hr hclean (fun pc w hpc => ?_) h.ram
    obtain ⟨hc, hlt⟩ := hC.cached hpc
    exact ⟨hc, hlt, h.halfAt_words hx hC hpc⟩
  · have hmem : (x' 0).mem = (x g.em).mem := by
      rw [hx', hem, hx.next g.mw]
      rfl
    rw [hmem]
    exact h.data.step_csrFlush h.grant ha hr hclean hf
  · intro hne'
    have hmem : (s.step i).top.core.memory = ⟨.idle, 0⟩ :=
      (Core.step_pipeReset hreset).2.2.2.1
    exact absurd (congrArg (fun m => m.dataM1.pcAndInstr) hmem) hne'

end Cycle

/-! ## Runs -/

/-- A run of the hart from a memory.  `retires` tells the cycles that execute an
instruction. -/
def Isa.Hart.run (ops : BitVec 32 → Op) (dev : ℕ → BitVec 64) (word : BitVec 61 → BitVec 64)
    (retires : ℕ → Bool) (pins : ℕ → Pins) : ℕ → Isa.Hart
  | 0 => .initial word
  | t + 1 =>
    let x := run ops dev word retires pins t
    if retires t then x.retire (ops x.prog.instr) dev (pins t) else x.idle (pins t)

section Run

variable {ops : BitVec 32 → Op} {dev : ℕ → BitVec 64} {word : BitVec 61 → BitVec 64}

theorem Isa.Hart.run_regs_zero (retires : ℕ → Bool) (pins : ℕ → Pins) (t : ℕ) :
    (run ops dev word retires pins t).prog.regs 0 = 0 := by
  induction t with
  | zero => rfl
  | succ t ih =>
    rw [run]
    split
    · exact (regsNxt_zero _ _ dev).trans ih
    · exact ih

/-- The core retires an instruction in the cycles in which write-back holds a record. -/
def SimTop.retires (s : ℕ → SimTop) (t : ℕ) : Bool := (s t).top.core.mw.pcAndInstr != 0

/-- The hart that retires when the core does, with its interrupt pins. -/
def SimTop.hart (s : ℕ → SimTop) (i : ℕ → SimTopIn) (ops : BitVec 32 → Op)
    (dev : ℕ → BitVec 64) : ℕ → Isa.Hart :=
  .run ops dev (s 0).ram.word (retires s) fun t => (i t).pins

/-- The system `s` is in step with the state `t` of the hart, in a stretch from its state `u`. -/
structure SimTop.InStep (s : SimTop) (h : ℕ → Isa.Hart) (ops : BitVec 32 → Op)
    (dev : ℕ → BitVec 64) (t u : ℕ) (g : Places) : Prop where
  hosts : s.Hosts ((h u).prog.path ops dev) ((h u).prog.pathOp ops dev) dev
    (Isa.Text ops dev h) g
  prog : (h u).prog.path ops dev g.mw = (h t).prog
  csr : s.top.core.csr = (h t).csr

variable {s : SimTop} {i : SimTopIn} {h : ℕ → Isa.Hart} {t u : ℕ} {g : Places}

theorem SimTop.InStep.hart (hs : s.InStep h ops dev t u g) :
    s.top.core.hart ((h u).prog.path ops dev) g = h t := by
  rw [Core.hart, hs.prog, hs.csr]

theorem SimTop.InStep.pathOp (hs : s.InStep h ops dev t u g) :
    (h u).prog.pathOp ops dev g.mw = ops (h t).prog.instr := by
  rw [Isa.State.pathOp, hs.prog]

/-- The CSR unit of the core does what that of the hart does. -/
theorem SimTop.InStep.csr_step (hs : s.InStep h ops dev t u g) (hsound : Isa.Sound ops dev h)
    (h0 : (h u).prog.regs 0 = 0) {j : CoreIn} (ho : s.top.core.Orderly j) (pins : Pins) :
    s.top.core.csr.step s.top.core.mw pins false =
      (if (s.top.core.mw.pcAndInstr != 0) = true then
        (h t).retire (ops (h t).prog.instr) dev pins else (h t).idle pins).csr := by
  rw [← hs.pathOp, ← hs.hart]
  split
  · rename_i hne
    have hx := hsound.stretch h0
    have hasks := hs.hosts.core.asks hx ho (bne_iff_ne.mp hne)
    exact (hasks.step (hx.encodes _ hs.hosts.core.tracks.ahead)).2
  · rename_i hb
    rw [bne_iff_ne, not_not] at hb
    exact ho.decoded.step_csr_bubble hb pins

/-- Without a redirect the hart stays on the path. -/
theorem SimTop.InStep.path_dataM1 (hs : s.InStep h ops dev t u g) (hsound : Isa.Sound ops dev h)
    (h0 : (h u).prog.regs 0 = 0) {j : CoreIn} (ho : s.top.core.Orderly j) {pins : Pins}
    (hf : s.top.core.csrFlush pins = false) :
    (h u).prog.path ops dev g.dataM1 =
      (if (s.top.core.mw.pcAndInstr != 0) = true then
        (h t).retire (ops (h t).prog.instr) dev pins else (h t).idle pins).prog := by
  rcases hs.hosts.core.tracks.mw with ⟨hb, hg⟩ | ⟨his, hg⟩
  · rw [if_neg (by rw [hb]; decide), hg]
    exact hs.prog
  · have hx := hsound.stretch h0
    have hne := his.ne_zero (hx.encodes _ hs.hosts.core.tracks.ahead)
    rw [if_pos (bne_iff_ne.mpr hne), hg, ← hs.pathOp, ← hs.hart]
    exact (hs.hosts.core.retire_prog hx ho hf hne).symm

/-- A cycle without a redirect. -/
theorem SimTop.InStep.step (hs : s.InStep h ops dev t u g) (hsound : Isa.Sound ops dev h)
    (h0 : (h u).prog.regs 0 = 0) (hp : s.Proceeds i)
    (hdev : s.ReadsDevice i →
      (s.oresp i).data = dev ((h u).prog.path ops dev g.em).reads)
    (hnext : h (t + 1) = if (s.top.core.mw.pcAndInstr != 0) = true then
      (h t).retire (ops (h t).prog.instr) dev i.pins else (h t).idle i.pins) :
    (s.step i).InStep h ops dev (t + 1) u
      (g.next ((h u).prog.pathOp ops dev) s.top.core (s.top.coreIn (s.topIn i))) where
  hosts := hs.hosts.step (hsound.stretch h0) (hsound.loaded u) hp hdev
  prog := by
    rw [hnext, Places.next_mw]
    exact hs.path_dataM1 hsound h0 hp.orderly hp.noFlush
  csr := by
    rw [hnext, ← hs.csr_step hsound h0 hp.orderly]
    exact congrArg (s.top.core.csr.step s.top.core.mw i.pins) hp.noReset

/-- A redirect begins a new stretch. -/
theorem SimTop.InStep.step_flush (hs : s.InStep h ops dev t u g) (hsound : Isa.Sound ops dev h)
    (h0 : (h u).prog.regs 0 = 0) (ho : s.top.core.Orderly (s.top.coreIn (s.topIn i)))
    (hr : i.reset = false) (hw : ¬s.top.Withdraws i.pins) (hp : s.top.core.Precise i.pins)
    (hf : s.top.core.csrFlush i.pins = true)
    (hnext : h (t + 1) = if (s.top.core.mw.pcAndInstr != 0) = true then
      (h t).retire (ops (h t).prog.instr) dev i.pins else (h t).idle i.pins) :
    (s.step i).InStep h ops dev (t + 1) (t + 1) ⟨0, 0, 0, 0, 0, 0⟩ ∧
      (h (t + 1)).prog.reads = ((h u).prog.path ops dev g.em).reads := by
  have hx := hsound.stretch h0
  obtain ⟨hne, _, hem⟩ := hs.hosts.core.flush hx ho hp hf
  have hret : h (t + 1) = (s.top.core.hart ((h u).prog.path ops dev) g).retire
      ((h u).prog.pathOp ops dev g.mw) dev i.pins := by
    rw [hnext, if_pos (bne_iff_ne.mpr hne), ← hs.pathOp, ← hs.hart]
  refine ⟨⟨?_, rfl, ?_⟩, ?_⟩
  · exact hs.hosts.step_flush hx (hsound.loaded u) ho hr hw hp hf
      (congrArg Isa.Hart.prog hret)
  · rw [hnext, ← hs.csr_step hsound h0 ho]
    exact congrArg (s.top.core.csr.step s.top.core.mw i.pins) hr
  · rw [hret, hem, hx.next g.mw]
    rfl

end Run

section Refinement

variable {ops : BitVec 32 → Op} {dev : ℕ → BitVec 64} {s : ℕ → SimTop} {i : ℕ → SimTopIn}

theorem SimTop.hart_succ (s : ℕ → SimTop) (i : ℕ → SimTopIn) (ops : BitVec 32 → Op)
    (dev : ℕ → BitVec 64) (t : ℕ) :
    hart s i ops dev (t + 1) = if ((s t).top.core.mw.pcAndInstr != 0) = true then
      (hart s i ops dev t).retire (ops (hart s i ops dev t).prog.instr) dev (i t).pins
    else (hart s i ops dev t).idle (i t).pins := rfl

/-- After a reset the hart starts. -/
theorem SimTop.inStep_of_reset {s : SimTop} {i : SimTopIn} {h : ℕ → Isa.Hart}
    (hr : i.reset = true) (hsound : Isa.Sound ops dev h)
    (h0 : h 0 = .initial (s.step i).ram.word) :
    (s.step i).InStep h ops dev 0 0 ⟨0, 0, 0, 0, 0, 0⟩ := by
  have hreset : s.top.core.pipeReset (s.top.coreIn (s.topIn i)) = true :=
    Core.pipeReset_of_reset hr
  have hregs : (h 0).prog.regs 0 = 0 := by
    rw [h0]
    rfl
  have hword : Bytes.words (h 0).prog.mem = (s.step i).ram.word := by
    rw [h0]
    exact Bytes.words_ofWords _
  have hmem : (s.step i).top.core.memory = ⟨.idle, 0⟩ := (Core.step_pipeReset hreset).2.2.2.1
  refine ⟨⟨?_, ?_, ?_, ?_, ?_, ?_⟩, rfl, ?_⟩
  · refine Core.hosts_of_pipeReset hreset ?_ ?_
    · rw [Isa.State.path, h0]
      exact if_pos hr
    · rw [Isa.State.path, h0]
      funext ra
      exact if_pos hr
  · have hbeat : (s.step i).ram.beat = 0 := by
      simp [SimTop.step, Ram.step, hr]
    rw [hbeat]
    exact s.top.grantOk_of_reset hr
  · exact s.codeOk_of_reset hr
  · rintro _ _ ⟨z, hz, rfl, rfl⟩
    rw [← hword, (h 0).prog.halfAt_words (hsound.inBounds z hz).pcAligned]
    exact hsound.code _ z ⟨0, 0, Isa.ahead_zero _, rfl⟩ hz
  · rw [Isa.State.path, hword]
    exact s.dataOk_of_reset hr
  · exact fun hne => absurd (congrArg (fun m => m.dataM1.pcAndInstr) hmem) hne
  · rw [h0]
    change s.top.core.csr.step s.top.core.mw i.pins i.reset = ⟨.initial, machineMode⟩
    rw [hr]
    rfl

/-- Where a run is in each cycle: in which state of the hart its stretch began, and the places
in it. -/
def SimTop.stretch (s : ℕ → SimTop) (i : ℕ → SimTopIn) (ops : BitVec 32 → Op)
    (dev : ℕ → BitVec 64) : ℕ → ℕ × Places
  | 0 => (0, ⟨0, 0, 0, 0, 0, 0⟩)
  | t + 1 =>
    let (u, g) := stretch s i ops dev t
    if (s t).top.core.csrFlush (i t).pins then (t + 1, ⟨0, 0, 0, 0, 0, 0⟩)
    else
      (u, g.next ((hart s i ops dev u).prog.pathOp ops dev) (s t).top.core
        ((s t).top.coreIn ((s t).topIn (i t))))

theorem SimTop.stretch_flush {t : ℕ} (hf : (s t).top.core.csrFlush (i t).pins = true) :
    stretch s i ops dev (t + 1) = (t + 1, ⟨0, 0, 0, 0, 0, 0⟩) :=
  if_pos hf

theorem SimTop.stretch_proceeds {t : ℕ} (hf : (s t).top.core.csrFlush (i t).pins = false) :
    stretch s i ops dev (t + 1) =
      ((stretch s i ops dev t).1, (stretch s i ops dev t).2.next
        ((hart s i ops dev (stretch s i ops dev t).1).prog.pathOp ops dev) (s t).top.core
        ((s t).top.coreIn ((s t).topIn (i t)))) :=
  if_neg (Bool.eq_false_iff.mp hf)

/-- The state of the hart in which the stretch of cycle `t` began. -/
def SimTop.begun (s : ℕ → SimTop) (i : ℕ → SimTopIn) (ops : BitVec 32 → Op)
    (dev : ℕ → BitVec 64) (t : ℕ) : Isa.State :=
  (hart s i ops dev (stretch s i ops dev t).1).prog

theorem SimTop.begun_regs_zero (s : ℕ → SimTop) (i : ℕ → SimTopIn) (ops : BitVec 32 → Op)
    (dev : ℕ → BitVec 64) (t : ℕ) : (begun s i ops dev t).regs 0 = 0 :=
  Isa.Hart.run_regs_zero _ _ _

/-- The system is in step with the hart in every cycle. -/
theorem SimTop.IsRun.inStep (h : SimTop.IsRun s i) (hs : Isa.Sound ops dev (hart s i ops dev))
    (t : ℕ) (hw : ∀ u < t, ¬(s u).top.Withdraws (i u).pins)
    (hp : ∀ u < t, (s u).top.core.Precise (i u).pins) (hdev : DevicesReturn s i dev t) :
    (s t).InStep (hart s i ops dev) ops dev t (stretch s i ops dev t).1
        (stretch s i ops dev t).2 ∧
      (s t).top.core.Spaced ((s t).top.coreIn ((s t).topIn (i t))).iresp.dataOk ∧
      deviceReads s i t =
        ((begun s i ops dev t).path ops dev (stretch s i ops dev t).2.em).reads := by
  induction t with
  | zero =>
    obtain ⟨y, j, hj, hstart⟩ := h.start
    refine ⟨?_, ?_, ?_⟩
    · have hinit : hart s i ops dev 0 = .initial (y.step j).ram.word := by
        rw [← hstart]
        rfl
      rw [hstart]
      exact inStep_of_reset hj hs hinit
    · rw [hstart]
      exact Core.spaced_of_pipeReset (Core.pipeReset_of_reset hj) _
    · exact Nat.count_zero _
  | succ t ih =>
    obtain ⟨hin, hsp, hreads⟩ := ih (fun v hv => hw v (by omega)) (fun v hv => hp v (by omega))
      fun v hv => hdev v (by omega)
    have h0 := begun_regs_zero s i ops dev t
    have hnext := hart_succ s i ops dev t
    have hr : (i t).reset = false := Bool.eq_false_iff.mpr (h.noReset t)
    have hwt := hw t (Nat.lt_succ_self t)
    rw [h.next t, deviceReads, Nat.count_succ, begun, stretch]
    cases hf : (s t).top.core.csrFlush (i t).pins with
    | true =>
      obtain ⟨hin', hreads'⟩ := hin.step_flush hs h0 (h.orderly t) hr hwt
        (hp t (Nat.lt_succ_self t)) hf hnext
      refine ⟨hin', Core.spaced_of_pipeReset (Core.pipeReset_of_csrFlush hf) _, ?_⟩
      rw [if_neg fun hread => not_singleBeat hin.hosts.grant hwt hf hread.1, Nat.add_zero]
      exact hreads.trans hreads'.symm
    | false =>
      have hpr : (s t).Proceeds (i t) := ⟨h.orderly t, hin.hosts.grant, hsp, hr, hf⟩
      refine ⟨hin.step hs h0 hpr (fun hread => ?_) hnext, ?_, ?_⟩
      · exact (hdev t (Nat.lt_succ_self t) hread).trans (congrArg dev hreads)
      · exact hpr.spaced.step hpr.orderly.decoded
          (hpr.grant.gap (i := (s t).topIn (i t)) hr hf _)
      · exact (congrArg (· + _) hreads).trans (hin.hosts.reads (hs.stretch h0) hpr).symm

/-- The pipeline refines the hart.  In a run from a memory that holds a program with traps,
under any pins and any latency of memory, the CSR unit and the registers are those of the hart
in every cycle, and write-back reports the commit of its next instruction.  No multiplication
or division is interrupted and no uncached fetch withdrawn. -/
theorem SimTop.IsRun.refines_hart (h : SimTop.IsRun s i)
    (hs : Isa.Sound ops dev (hart s i ops dev)) (t : ℕ)
    (hw : ∀ u < t, ¬(s u).top.Withdraws (i u).pins)
    (hp : ∀ u < t, (s u).top.core.Precise (i u).pins) (hdev : DevicesReturn s i dev t) :
    (s t).top.core.csr = (hart s i ops dev t).csr ∧
      (s t).top.core.regfile = (hart s i ops dev t).prog.regs ∧
      (s t).top.core.difftestInstrCommit =
        if (s t).top.core.mw.pcAndInstr = 0 then none
        else some ((hart s i ops dev t).commit (ops (hart s i ops dev t).prog.instr) dev) := by
  obtain ⟨hin, _⟩ := h.inStep hs t hw hp hdev
  have h0 := begun_regs_zero s i ops dev t
  refine ⟨hin.csr, ?_, ?_⟩
  · rw [hin.hosts.core.regfile, hin.prog]
  · rw [hin.hosts.core.difftestInstrCommit (hs.stretch h0) (h.orderly t), hin.hart, hin.pathOp]

/-- Memory is close behind.  In every cycle the current value of every cached word is the one
at most two instructions ahead of write-back, and so are the reads from devices. -/
theorem SimTop.IsRun.hart_memory (h : SimTop.IsRun s i)
    (hs : Isa.Sound ops dev (hart s i ops dev)) (t : ℕ)
    (hw : ∀ u < t, ¬(s u).top.Withdraws (i u).pins)
    (hp : ∀ u < t, (s u).top.core.Precise (i u).pins) (hdev : DevicesReturn s i dev t) :
    ∃ n ≤ 2, deviceReads s i t = ((hart s i ops dev t).prog.path ops dev n).reads ∧
      ∀ a : ReqAddr 8, a.IsCached →
        (s t).current a = Bytes.words ((hart s i ops dev t).prog.path ops dev n).mem a.word := by
  obtain ⟨hin, _, hreads⟩ := h.inStep hs t hw hp hdev
  obtain ⟨n, hn, hem⟩ := hin.hosts.core.tracks.em_le
  have hpath : (hart s i ops dev t).prog.path ops dev n =
      (begun s i ops dev t).path ops dev (stretch s i ops dev t).2.em := by
    rw [hem, Isa.State.path_add, begun, hin.prog]
  refine ⟨n, hn, ?_, fun a ha => ?_⟩
  · rw [hpath]
    exact hreads
  · have hdata := hin.hosts.data.coherent
    rw [hpath]
    exact (hdata.words a ha).current_eq hdata.refill

/-- Redirects are precise.  In the cycle after a trap, an `mret` or an access to a CSR the core
holds the pc, the registers, the CSRs and the memory of the hart after this instruction, and
devices have not been read beyond it. -/
theorem SimTop.IsRun.redirect_precise (h : SimTop.IsRun s i)
    (hs : Isa.Sound ops dev (hart s i ops dev)) (t : ℕ)
    (hw : ∀ u ≤ t, ¬(s u).top.Withdraws (i u).pins)
    (hp : ∀ u ≤ t, (s u).top.core.Precise (i u).pins) (hdev : DevicesReturn s i dev (t + 1))
    (hf : (s t).top.core.csrFlush (i t).pins = true) :
    let y := (hart s i ops dev t).retire (ops (hart s i ops dev t).prog.instr) dev (i t).pins
    (s (t + 1)).top.core.fetch.pc = y.prog.pc ∧ (s (t + 1)).top.core.regfile = y.prog.regs ∧
      (s (t + 1)).top.core.csr = y.csr ∧ deviceReads s i (t + 1) = y.prog.reads ∧
      ∀ a : ReqAddr 8, a.IsCached →
        (s (t + 1)).current a = Bytes.words y.prog.mem a.word := by
  intro y
  obtain ⟨hin, _, hreads⟩ := h.inStep hs (t + 1) (fun v hv => hw v (by omega))
    (fun v hv => hp v (by omega)) hdev
  rw [stretch_flush hf] at hin
  rw [begun, stretch_flush hf] at hreads
  have hne : (s t).top.core.mw.pcAndInstr ≠ 0 := by
    intro h0
    rw [(h.orderly t).decoded.csrFlush_of_bubble h0] at hf
    cases hf
  have hy : hart s i ops dev (t + 1) = y :=
    (hart_succ s i ops dev t).trans (if_pos (bne_iff_ne.mpr hne))
  have hcore := hin.hosts.core
  have hdata := hin.hosts.data.coherent
  rw [← hy]
  refine ⟨?_, hcore.regfile, hin.csr, hreads, fun a ha => ?_⟩
  · refine (hcore.tracks.heads (Isa.ahead_zero _)).resolved ?_
    rw [h.next t]
    exact (Core.step_pipeReset (Core.pipeReset_of_csrFlush hf)).1
  · exact (hdata.words a ha).current_eq hdata.refill

end Refinement

/-! ## An example run -/

/-- `auipc x1, 0`, `addi x1, x1, 28`, `csrrw x0, mtvec, x1`, `sw x1, 1024(x1)`, `lw x2, 8(x0)`,
`csrrsi x0, mstatus, 8` and `sb x1, 8(x0)`, and at `mtvec` `bne x3, x0, 0`, `addi x3, x0, 1` and
`mret`.  With the timer pin high the `sb` is interrupted.  The handler returns to it, and it is
interrupted again. -/
def trapLoop : List (BitVec 32) :=
  [0x00000097#32, 0x01c08093#32, 0x30509073#32, 0x4010a023#32, 0x00802103#32, 0x30046073#32,
    0x00100423#32, 0x00019063#32, 0x00100193#32, 0x30200073#32]

/-- The operations of the words of `trapLoop`. -/
def trapLoopOps (w : BitVec 32) : Op :=
  if w = 0x00000097#32 then .auipc
  else if w = 0x01c08093#32 then .addi
  else if w = 0x30509073#32 then .csrrw
  else if w = 0x4010a023#32 then .sw
  else if w = 0x00802103#32 then .lw
  else if w = 0x30046073#32 then .csrrsi
  else if w = 0x00100423#32 then .sb
  else if w = 0x00019063#32 then .bne
  else if w = 0x00100193#32 then .addi
  else .mret

/-- The first state of `trapLoop`. -/
def trapLoopState : Isa.State := .initial (programWord trapLoop)

/-- The pc of its word `k`. -/
def trapLoopPc (k : Fin 10) : BitVec 64 := pcInit + BitVec.ofNat 64 (4 * k)

/-- Memory before word `k`.  The `sw` writes behind the program. -/
def trapLoopMem (k : Fin 10) : BitVec 64 → BitVec 8 :=
  if k ≤ 3 then trapLoopState.mem
  else Bytes.store trapLoopState.mem 0x8000041c#64 4 (Bytes.byte 0x8000001c#64)

/-- The state is before word `k` of `trapLoop`. -/
structure Isa.State.AtTrapLoop (y : Isa.State) (k : Fin 10) : Prop where
  mem : y.mem = trapLoopMem k
  zero : y.regs 0 = 0
  pc : y.pc = trapLoopPc k
  base : k = 1 → y.regs 1 = 0x80000000#64
  handler : k = 2 ∨ k = 3 → y.regs 1 = 0x8000001c#64

section TrapLoop

variable {y : Isa.State} {k : Fin 10}

theorem trapLoop_wordAt (hy : y.mem = trapLoopMem k) (j : Fin 10) :
    y.wordAt (trapLoopPc j) = trapLoopState.wordAt (trapLoopPc j) := by
  have hall : ∀ j : Fin 10, (Bytes.word (Bytes.bytesAt (trapLoopMem 9) (trapLoopPc j)) 4 :
      BitVec 32) = trapLoopState.wordAt (trapLoopPc j) := by
    decide +kernel
  rw [Isa.State.wordAt, hy]
  by_cases hk : k ≤ 3
  · rw [trapLoopMem, if_pos hk]
    rfl
  · rw [← hall j, trapLoopMem, trapLoopMem, if_neg hk, if_neg (by decide)]

theorem Isa.State.AtTrapLoop.instr (h : y.AtTrapLoop k) :
    y.instr = trapLoopState.wordAt (trapLoopPc k) := by
  rw [Isa.State.instr, h.pc]
  exact trapLoop_wordAt h.mem k

theorem Isa.State.AtTrapLoop.encodes (h : y.AtTrapLoop k) :
    Isa.Encodes (trapLoopOps y.instr) y.instr := by
  have hall : ∀ k : Fin 10, Isa.Encodes (trapLoopOps (trapLoopState.wordAt (trapLoopPc k)))
      (trapLoopState.wordAt (trapLoopPc k)) := by
    decide +kernel
  rw [h.instr]
  exact hall k

/-- It stores a word behind itself, and reads and writes a device. -/
theorem Isa.State.AtTrapLoop.access (h : y.AtTrapLoop k) {a : Isa.Access}
    (ha : Isa.access (trapLoopOps y.instr) = some a) :
    k = 3 ∧ a = .store .msize4 ∧ y.addr (trapLoopOps y.instr) = 0x8000041c#64 ∨
      (k = 4 ∧ a = .load .msize4 false ∨ k = 6 ∧ a = .store .msize1) ∧
        y.addr (trapLoopOps y.instr) = 8#64 := by
  have hall : ∀ k : Fin 10,
      Isa.access (trapLoopOps (trapLoopState.wordAt (trapLoopPc k))) ≠ none →
        k = 3 ∨ k = 4 ∨ k = 6 := by
    decide +kernel
  have hk : k = 3 ∨ k = 4 ∨ k = 6 := by
    rw [h.instr] at ha
    exact hall k (by rw [ha]; exact Option.some_ne_none a)
  rcases hk with rfl | rfl | rfl
  · have hinstr : y.instr = 0x4010a023#32 := h.instr.trans (by decide +kernel)
    rw [hinstr] at ha
    cases ha
    refine .inl ⟨rfl, rfl, ?_⟩
    rw [Isa.State.addr, Isa.State.rs1, hinstr]
    change y.regs 1 + 0x400#64 = _
    rw [h.handler (.inr rfl)]
    rfl
  · have hinstr : y.instr = 0x00802103#32 := h.instr.trans (by decide +kernel)
    rw [hinstr] at ha
    cases ha
    refine .inr ⟨.inl ⟨rfl, rfl⟩, ?_⟩
    rw [Isa.State.addr, Isa.State.rs1, hinstr]
    change y.regs 0 + 8#64 = 8#64
    rw [h.zero]
    rfl
  · have hinstr : y.instr = 0x00100423#32 := h.instr.trans (by decide +kernel)
    rw [hinstr] at ha
    cases ha
    refine .inr ⟨.inr ⟨rfl, rfl⟩, ?_⟩
    rw [Isa.State.addr, Isa.State.rs1, hinstr]
    change y.regs 0 + 8#64 = 8#64
    rw [h.zero]
    rfl

theorem Isa.State.AtTrapLoop.inBounds (h : y.AtTrapLoop k) :
    y.InBounds (trapLoopOps y.instr) := by
  have hall : ∀ k : Fin 10, (trapLoopPc k).extractLsb' 0 2 = 0 ∧
      0x80000000 ≤ (trapLoopPc k).toNat ∧ (trapLoopPc k).toNat < 0x100000000 := by
    decide
  obtain ⟨hal, hrange⟩ := hall k
  refine ⟨h.pc ▸ hal, h.pc ▸ hrange, fun a ha => ?_, fun a ha _ => ?_⟩
  · rcases h.access ha with ⟨_, rfl, haddr⟩ | ⟨⟨_, rfl⟩ | ⟨_, rfl⟩, haddr⟩
    all_goals
      rw [haddr]
      decide
  · rcases h.access ha with ⟨_, _, haddr⟩ | ⟨_, haddr⟩
    all_goals
      rw [haddr]
      decide

/-- The instructions that are no system instructions. -/
theorem Isa.State.AtTrapLoop.plain (h : y.AtTrapLoop k)
    (hs : (trapLoopOps y.instr).isSystem = false) : k ≠ 2 ∧ k ≠ 5 ∧ k ≠ 9 := by
  have hall : ∀ k : Fin 10, (trapLoopOps (trapLoopState.wordAt (trapLoopPc k))).isSystem = false →
      k ≠ 2 ∧ k ≠ 5 ∧ k ≠ 9 := by
    decide +kernel
  rw [h.instr] at hs
  exact hall k hs

/-- The `sw` alone changes memory. -/
theorem Isa.State.AtTrapLoop.memNxt (h : y.AtTrapLoop k) {j : Fin 10} (hj : j ≤ 3 ↔ k < 3) :
    y.memNxt (trapLoopOps y.instr) = trapLoopMem j := by
  have hkeep : k ≠ 3 → y.mem = trapLoopMem j := by
    intro hk
    have hall : ∀ j k : Fin 10, k ≠ 3 → (j ≤ 3 ↔ k < 3) → (k ≤ 3 ↔ j ≤ 3) := by decide
    rw [h.mem, trapLoopMem, trapLoopMem]
    simp only [hall j k hk hj]
  rw [Isa.State.memNxt]
  cases ha : Isa.access (trapLoopOps y.instr) with
  | none =>
    refine hkeep ?_
    rintro rfl
    rw [h.instr] at ha
    exact absurd ha (by decide +kernel)
  | some a =>
    rcases h.access ha with ⟨rfl, rfl, haddr⟩ | ⟨⟨rfl, rfl⟩ | ⟨rfl, rfl⟩, haddr⟩
    · have hinstr : y.instr = 0x4010a023#32 := h.instr.trans (by decide +kernel)
      have hr : y.rs2 = 0x8000001c#64 := by
        rw [Isa.State.rs2, hinstr]
        exact h.handler (.inr rfl)
      have hcached : isCached 0x8000041c#64 = true := by decide
      rw [haddr, hr, h.mem, trapLoopMem, trapLoopMem, if_pos (by decide),
        if_neg fun hle => absurd (hj.mp hle) (by decide)]
      exact if_pos hcached
    · exact hkeep (by decide)
    · have hdevice : isCached 8#64 = false := by decide
      simp only [haddr, hdevice, Bool.false_eq_true, if_false]
      exact hkeep (by decide)

/-- Plain instructions lead from one of its words to the next, but a branch that is taken. -/
theorem Isa.State.AtTrapLoop.exec (h : y.AtTrapLoop k)
    (hs : (trapLoopOps y.instr).isSystem = false) (hbr : k = 7 → y.regs 3 = 0)
    (dev : ℕ → BitVec 64) : (y.exec (trapLoopOps y.instr) dev).AtTrapLoop (k + 1) := by
  have hall : ∀ k : Fin 10, k ≠ 2 ∧ k ≠ 5 ∧ k ≠ 9 → trapLoopPc k + 4 = trapLoopPc (k + 1) ∧
      (k = 0 ∨ k = 1 ∨ k = 3 ∨ k = 4 ∨ k = 6 ∨ k = 7 ∨ k = 8) := by
    decide
  obtain ⟨hnext, hk⟩ := hall k (h.plain hs)
  refine ⟨?_, ?_, ?_, fun hk1 => ?_, fun hk2 => ?_⟩
  · refine h.memNxt ?_
    rcases hk with rfl | rfl | rfl | rfl | rfl | rfl | rfl <;> decide
  · rw [Isa.State.exec_regs_zero]
    exact h.zero
  · rw [Isa.State.exec_pc, ← hnext, ← h.pc]
    by_cases h7 : k = 7
    · subst h7
      have hinstr : y.instr = 0x00019063#32 := h.instr.trans (by decide +kernel)
      have hnot : (y.rs1 != y.rs2) = false := by
        rw [Isa.State.rs1, Isa.State.rs2, hinstr]
        change (y.regs 3 != y.regs 0) = false
        rw [hbr rfl, h.zero]
        rfl
      rw [hinstr]
      change (if (y.rs1 != y.rs2) = true then _ else y.pc + 4) = _
      rw [hnot, if_neg Bool.false_ne_true]
    · rw [h.instr]
      rcases hk with rfl | rfl | rfl | rfl | rfl | rfl | rfl
      all_goals first | rfl | exact absurd rfl h7
  · obtain rfl : k = 0 := add_right_cancel (hk1.trans (zero_add 1).symm)
    have hinstr : y.instr = 0x00000097#32 := h.instr.trans (by decide +kernel)
    rw [Isa.State.exec_regs, Isa.State.regsNxt, hinstr]
    change y.pc + immU y.instr = _
    rw [h.pc, hinstr]
    rfl
  · have hk1 : k = 1 := by
      rcases hk with rfl | rfl | rfl | rfl | rfl | rfl | rfl
      all_goals first | rfl | exact absurd hk2 (by decide)
    subst hk1
    have hinstr : y.instr = 0x01c08093#32 := h.instr.trans (by decide +kernel)
    have hr : y.rs1 = y.regs 1 := by
      rw [Isa.State.rs1, hinstr]
      rfl
    rw [Isa.State.exec_regs, Isa.State.regsNxt, hinstr]
    change y.rs1 + immI y.instr = _
    rw [hr, h.base rfl, hinstr]
    rfl

/-- The branch that is taken leads to itself. -/
theorem Isa.State.AtTrapLoop.exec_taken (h : y.AtTrapLoop 7) (hbr : y.regs 3 ≠ 0)
    (dev : ℕ → BitVec 64) :
    (y.exec (trapLoopOps y.instr) dev).AtTrapLoop 7 ∧
      (y.exec (trapLoopOps y.instr) dev).regs 3 = y.regs 3 := by
  have hinstr : y.instr = 0x00019063#32 := h.instr.trans (by decide +kernel)
  have hregs : (y.exec (trapLoopOps y.instr) dev).regs = y.regs := by
    rw [Isa.State.exec_regs, Isa.State.regsNxt, hinstr]
    rfl
  have htaken : (y.rs1 != y.rs2) = true := by
    rw [Isa.State.rs1, Isa.State.rs2, hinstr]
    change (y.regs 3 != y.regs 0) = true
    rw [h.zero, bne_iff_ne]
    exact hbr
  refine ⟨⟨?_, ?_, ?_, ?_, ?_⟩, ?_⟩
  · exact h.memNxt (by decide)
  · rw [hregs]
    exact h.zero
  · rw [Isa.State.exec_pc, hinstr]
    change (if (y.rs1 != y.rs2) = true then y.pc + immB 0x00019063#32 else _) = _
    rw [htaken, if_pos rfl, h.pc]
    rfl
  · exact fun hk => absurd hk (by decide)
  · exact fun hk => absurd hk (by decide)
  · rw [hregs]

theorem Isa.State.AtTrapLoop.exec_exists (h : y.AtTrapLoop k)
    (hs : (trapLoopOps y.instr).isSystem = false) (dev : ℕ → BitVec 64) :
    ∃ k', (y.exec (trapLoopOps y.instr) dev).AtTrapLoop k' := by
  by_cases hbr : k = 7 ∧ y.regs 3 ≠ 0
  · obtain ⟨rfl, hne⟩ := hbr
    exact ⟨7, (h.exec_taken hne dev).1⟩
  · refine ⟨k + 1, h.exec hs (fun hk => ?_) dev⟩
    by_contra hne
    exact hbr ⟨hk, hne⟩

/-- What the hart holds before word `k`. -/
structure Isa.Hart.AtTrapLoop (h : Isa.Hart) (k : Fin 10) : Prop where
  prog : h.prog.AtTrapLoop k
  mtvec : 3 ≤ k → h.csr.regs.mtvec = 0x8000001c#64
  masked : k ≠ 6 → mieBit h.csr.regs.mstatus = false
  pending : k = 6 → mieBit h.csr.regs.mstatus = true ∧ h.csr.regs.mie.getLsbD 7 = true
  mepc : 7 ≤ k → h.csr.regs.mepc = 0x80000018#64 ∧ mpieBit h.csr.regs.mstatus = true

variable {h : Isa.Hart}

theorem Csr.mirrored_timer (c : Csr) : (c.mirrored .timer).mie.getLsbD 7 = true := by
  simp [mirrored, getLsbD_setBit, Pins.timer, -BitVec.getLsbD_eq_getElem]

theorem Isa.Hart.AtTrapLoop.idle (hi : h.AtTrapLoop k) : (h.idle .timer).AtTrapLoop k := by
  have hcsr : (h.idle .timer).csr = ⟨h.csr.mirrored .timer, h.csr.mode⟩ :=
    Csr.step_quiet ⟨rfl, rfl, rfl⟩ (h.csr.isInterupt_bubble rfl _)
  refine ⟨hi.prog, fun hk => ?_, fun hk => ?_, fun hk => ?_, fun hk => ?_⟩ <;> rw [hcsr]
  · exact hi.mtvec hk
  · exact hi.masked hk
  · exact ⟨(hi.pending hk).1, h.csr.mirrored_timer⟩
  · exact hi.mepc hk

/-- An instruction that is not interrupted. -/
theorem Isa.Hart.AtTrapLoop.retire_plain (hi : h.AtTrapLoop k)
    (hs : (trapLoopOps h.prog.instr).isSystem = false) (hk : k ≠ 6) (dev : ℕ → BitVec 64) :
    (h.retire (trapLoopOps h.prog.instr) dev .timer).prog =
        h.prog.exec (trapLoopOps h.prog.instr) dev ∧
      ∃ k', (h.retire (trapLoopOps h.prog.instr) dev .timer).AtTrapLoop k' := by
  obtain ⟨hgo, hcsr⟩ := h.retire_plain dev hi.prog.encodes hs
    (Csr.isInterupt_of_mie (hi.masked hk))
  refine ⟨hgo, ?_⟩
  have hplain := hi.prog.plain hs
  have hkeep : ∀ k' : Fin 10, k' = k + 1 ∨ k' = k →
      (h.prog.exec (trapLoopOps h.prog.instr) dev).AtTrapLoop k' →
      (h.retire (trapLoopOps h.prog.instr) dev .timer).AtTrapLoop k' := by
    intro k' hk' hprog
    have hall : ∀ k k' : Fin 10, k ≠ 2 ∧ k ≠ 5 ∧ k ≠ 9 → k ≠ 6 → k' = k + 1 ∨ k' = k →
        (3 ≤ k' → 3 ≤ k) ∧ k' ≠ 6 ∧ (7 ≤ k' → 7 ≤ k) := by
      decide
    obtain ⟨h3, h6, h7⟩ := hall k k' hplain hk hk'
    refine ⟨hgo ▸ hprog, fun hle => ?_, fun _ => ?_, fun heq => absurd heq h6, fun hle => ?_⟩
    · rw [hcsr]
      exact hi.mtvec (h3 hle)
    · rw [hcsr]
      exact hi.masked hk
    · rw [hcsr]
      exact hi.mepc (h7 hle)
  by_cases hbr : k = 7 ∧ h.prog.regs 3 ≠ 0
  · obtain ⟨rfl, hne⟩ := hbr
    exact ⟨7, hkeep 7 (.inr rfl) (hi.prog.exec_taken hne dev).1⟩
  · refine ⟨k + 1, hkeep (k + 1) (.inl rfl) (hi.prog.exec hs (fun hk => ?_) dev)⟩
    by_contra hne
    exact hbr ⟨hk, hne⟩

/-- The `sb` is interrupted. -/
theorem Isa.Hart.AtTrapLoop.retire_interrupted (hi : h.AtTrapLoop 6) (dev : ℕ → BitVec 64) :
    (h.retire (trapLoopOps h.prog.instr) dev .timer).AtTrapLoop 7 := by
  obtain ⟨hmie, hpending⟩ := hi.pending rfl
  have hpc : h.prog.pc = 0x80000018#64 := hi.prog.pc
  have hint : h.csr.excOrInt (h.prog.asks (trapLoopOps h.prog.instr)) .timer = true := by
    have hask : (h.prog.asks (trapLoopOps h.prog.instr)).pcW = 0x80000018#64 := hpc
    simp [Csr.excOrInt, Csr.isInterupt, Csr.isTrint, hmie, hpending, hask, Pins.timer]
  obtain ⟨hgo, hcsr⟩ := h.retire_trap dev hint
  refine ⟨⟨?_, ?_, ?_, ?_, ?_⟩, fun _ => ?_, fun _ => ?_, ?_, fun _ => ?_⟩
  · exact hi.prog.memNxt (by decide)
  · exact (h.regsNxt_zero _ dev).trans hi.prog.zero
  · exact hgo.trans (hi.mtvec (by decide))
  · exact fun hk => absurd hk (by decide)
  · exact fun hk => absurd hk (by decide)
  · rw [hcsr]
    exact hi.mtvec (by decide)
  · rw [hcsr]
    simp [mieBit, setMpp, setMie, getLsbD_setBit, -BitVec.getLsbD_eq_getElem]
  · exact fun hk => absurd hk (by decide)
  · rw [hcsr]
    refine ⟨hpc, ?_⟩
    simp [mpieBit, setMpp, setMie, setMpie, getLsbD_setBit, hmie, -BitVec.getLsbD_eq_getElem]

/-- The `csrrw` writes `mtvec`. -/
theorem Isa.Hart.AtTrapLoop.retire_csrrw (hi : h.AtTrapLoop 2) (dev : ℕ → BitVec 64) :
    (h.retire (trapLoopOps h.prog.instr) dev .timer).AtTrapLoop 3 := by
  have hinstr : h.prog.instr = 0x30509073#32 := hi.prog.instr.trans (by decide +kernel)
  have hop : trapLoopOps h.prog.instr = .csrrw := by
    rw [hinstr]
    decide
  have hmask := hi.masked (by decide)
  have hr : h.prog.rs1 = h.prog.regs 1 := by
    rw [Isa.State.rs1, hinstr]
    rfl
  have hzero := (h.regsNxt_zero (trapLoopOps h.prog.instr) dev).trans hi.prog.zero
  have hmem := hi.prog.memNxt (by decide : (3 : Fin 10) ≤ 3 ↔ (2 : Fin 10) < 3)
  rw [hop] at hzero hmem ⊢
  obtain ⟨hpc, hcsr⟩ := h.retire_csr dev (rfl : Op.isCsr .csrrw = true)
    (Csr.isInterupt_of_mie hmask)
  rw [hinstr] at hcsr
  refine ⟨⟨hmem, hzero, hpc.trans ?_, ?_, fun _ => ?_⟩, fun _ => ?_, fun _ => ?_, ?_, ?_⟩
  · rw [hi.prog.pc]
    rfl
  · exact fun hk => absurd hk (by decide)
  · refine (Isa.Hart.regsNxt_csr dev (rfl : Op.isCsr .csrrw = true) 1).trans ?_
    rw [hinstr]
    exact hi.prog.handler (.inl rfl)
  · rw [hcsr]
    change h.prog.rs1 = _
    rw [hr, hi.prog.handler (.inl rfl)]
  · rw [hcsr]
    change mieBit (setSd h.csr.regs.mstatus) = false
    rw [← hmask]
    simp [mieBit, setSd, getLsbD_setBit, -BitVec.getLsbD_eq_getElem]
  · exact fun hk => absurd hk (by decide)
  · exact fun hk => absurd hk (by decide)

/-- The `csrrsi` enables interrupts. -/
theorem Isa.Hart.AtTrapLoop.retire_csrrsi (hi : h.AtTrapLoop 5) (dev : ℕ → BitVec 64) :
    (h.retire (trapLoopOps h.prog.instr) dev .timer).AtTrapLoop 6 := by
  have hinstr : h.prog.instr = 0x30046073#32 := hi.prog.instr.trans (by decide +kernel)
  have hop : trapLoopOps h.prog.instr = .csrrsi := by
    rw [hinstr]
    decide
  have hzero := (h.regsNxt_zero (trapLoopOps h.prog.instr) dev).trans hi.prog.zero
  have hmem := hi.prog.memNxt (by decide : (6 : Fin 10) ≤ 3 ↔ (5 : Fin 10) < 3)
  rw [hop] at hzero hmem ⊢
  obtain ⟨hpc, hcsr⟩ := h.retire_csr dev (rfl : Op.isCsr .csrrsi = true)
    (Csr.isInterupt_of_mie (hi.masked (by decide)))
  have hname : (Op.control .csrrsi 0x30046073#32).csrCtl.csrName = csrMstatus := by decide
  have hwd : h.csr.wd (h.prog.asks .csrrsi) = h.csr.regs.mstatus ||| 8#64 := by
    rw [Csr.wd_eq rfl rfl, Csr.rd, (h.prog.asks_asks .csrrsi).csrCtlW, hinstr, hname]
    rfl
  rw [hinstr, hname, hwd] at hcsr
  refine ⟨⟨hmem, hzero, hpc.trans ?_, ?_, ?_⟩, fun _ => ?_, ?_, fun _ => ⟨?_, ?_⟩, ?_⟩
  · rw [hi.prog.pc]
    rfl
  · exact fun hk => absurd hk (by decide)
  · exact fun hk => absurd hk (by decide)
  · rw [hcsr]
    exact hi.mtvec (by decide)
  · exact fun hk => absurd rfl hk
  · rw [hcsr]
    change mieBit (setSd (h.csr.regs.mstatus ||| 8#64)) = true
    simp [mieBit, setSd, getLsbD_setBit, -BitVec.getLsbD_eq_getElem]
  · rw [hcsr]
    exact h.csr.mirrored_timer
  · exact fun hk => absurd hk (by decide)

/-- The `mret` returns to the `sb`. -/
theorem Isa.Hart.AtTrapLoop.retire_mret (hi : h.AtTrapLoop 9) (dev : ℕ → BitVec 64) :
    (h.retire (trapLoopOps h.prog.instr) dev .timer).AtTrapLoop 6 := by
  have hinstr : h.prog.instr = 0x30200073#32 := hi.prog.instr.trans (by decide +kernel)
  have hop : trapLoopOps h.prog.instr = .mret := by
    rw [hinstr]
    decide
  have hzero := (h.regsNxt_zero (trapLoopOps h.prog.instr) dev).trans hi.prog.zero
  have hmem := hi.prog.memNxt (by decide : (6 : Fin 10) ≤ 3 ↔ (9 : Fin 10) < 3)
  rw [hop] at hzero hmem ⊢
  obtain ⟨hepc, hmpie⟩ := hi.mepc (by decide)
  obtain ⟨hpc, hcsr⟩ := h.retire_mret dev
    (Csr.isInterupt_of_mie (hi.masked (by decide)))
  refine ⟨⟨hmem, hzero, hpc.trans hepc, ?_, ?_⟩, fun _ => ?_, ?_, fun _ => ⟨?_, ?_⟩, ?_⟩
  · exact fun hk => absurd hk (by decide)
  · exact fun hk => absurd hk (by decide)
  · rw [hcsr]
    exact hi.mtvec (by decide)
  · exact fun hk => absurd rfl hk
  · rw [hcsr]
    simp [mieBit, clearXs, setMpp, setMie, setMpie, getLsbD_setBit, hmpie,
      -BitVec.getLsbD_eq_getElem]
  · rw [hcsr]
    exact h.csr.mirrored_timer
  · exact fun hk => absurd hk (by decide)

theorem Isa.Hart.AtTrapLoop.retire (hi : h.AtTrapLoop k) (dev : ℕ → BitVec 64) :
    ∃ k', (h.retire (trapLoopOps h.prog.instr) dev .timer).AtTrapLoop k' := by
  by_cases h6 : k = 6
  · subst h6
    exact ⟨7, hi.retire_interrupted dev⟩
  · cases hs : (trapLoopOps h.prog.instr).isSystem with
    | false => exact (hi.retire_plain hs h6 dev).2
    | true =>
      have hall : ∀ k : Fin 10, (trapLoopOps (trapLoopState.wordAt (trapLoopPc k))).isSystem =
          true → k = 2 ∨ k = 5 ∨ k = 9 := by
        decide +kernel
      have hk := hall k (hi.prog.instr ▸ hs)
      rcases hk with rfl | rfl | rfl
      · exact ⟨3, hi.retire_csrrw dev⟩
      · exact ⟨6, hi.retire_csrrsi dev⟩
      · exact ⟨6, hi.retire_mret dev⟩

theorem Isa.Hart.run_atTrapLoop (dev : ℕ → BitVec 64) (retires : ℕ → Bool) (t : ℕ) :
    ∃ k, (Isa.Hart.run trapLoopOps dev (programWord trapLoop) retires (fun _ => .timer)
      t).AtTrapLoop k := by
  induction t with
  | zero =>
    have hmask : mieBit CsrRegs.initial.mstatus = false := by decide
    refine ⟨0, ⟨rfl, rfl, rfl, ?_, ?_⟩, ?_, fun _ => hmask, ?_, ?_⟩
    all_goals exact fun hk => absurd hk (by decide)
  | succ t ih =>
    obtain ⟨k, hk⟩ := ih
    rw [Isa.Hart.run]
    split
    · exact hk.retire dev
    · exact ⟨k, hk.idle⟩

theorem trapLoop_reached {dev : ℕ → BitVec 64} {retires : ℕ → Bool}
    (hy : Isa.Reached trapLoopOps dev
      (.run trapLoopOps dev (programWord trapLoop) retires fun _ => .timer) y) :
    ∃ k, y.AtTrapLoop k := by
  obtain ⟨t, n, hn, rfl⟩ := hy
  induction n with
  | zero =>
    obtain ⟨k, hk⟩ := Isa.Hart.run_atTrapLoop dev retires t
    exact ⟨k, hk.prog⟩
  | succ n ih =>
    obtain ⟨k, hk⟩ := ih (hn.mono (Nat.le_succ n))
    exact hk.exec_exists (hn n (Nat.lt_succ_self n)) dev

end TrapLoop

theorem trapLoop_sound (dev : ℕ → BitVec 64) (retires : ℕ → Bool) :
    Isa.Sound trapLoopOps dev
      (.run trapLoopOps dev (programWord trapLoop) retires fun _ => .timer) where
  encodes _ hz := (trapLoop_reached hz).choose_spec.encodes
  inBounds _ hz := (trapLoop_reached hz).choose_spec.inBounds
  code y z hy hz := by
    obtain ⟨_, hky⟩ := trapLoop_reached hy
    obtain ⟨_, hkz⟩ := trapLoop_reached hz
    rw [hkz.instr, hkz.pc]
    exact trapLoop_wordAt hky.mem _

/-- The hart of the run of `trapLoop`. -/
def trapLoopHart : ℕ → Isa.Hart :=
  SimTop.hart (SimTop.boot trapLoop .timer) (fun _ => .fast .timer) trapLoopOps fun _ => 0

theorem trapLoopHart_sound : Isa.Sound trapLoopOps (fun _ => 0) trapLoopHart :=
  trapLoop_sound _ _

theorem trapLoop_precise : ∀ u < 75, ¬(SimTop.boot trapLoop .timer u).top.Withdraws .timer ∧
    (SimTop.boot trapLoop .timer u).top.core.Precise .timer := by
  decide +kernel

theorem trapLoop_devicesReturn : SimTop.DevicesReturn (SimTop.boot trapLoop .timer)
    (fun _ => .fast .timer) (fun _ => 0) 75 := by
  decide +kernel

/-- The store to the device is in write-back, and interrupted. -/
theorem trapLoop_refines_hart :
    (SimTop.boot trapLoop .timer 52).top.core.csr = (trapLoopHart 52).csr ∧
      (SimTop.boot trapLoop .timer 52).top.core.regfile = (trapLoopHart 52).prog.regs ∧
      (SimTop.boot trapLoop .timer 52).top.core.difftestInstrCommit =
        if (SimTop.boot trapLoop .timer 52).top.core.mw.pcAndInstr = 0 then none
        else some ((trapLoopHart 52).commit (trapLoopOps (trapLoopHart 52).prog.instr)
          fun _ => 0) := by
  rw [trapLoopHart]
  exact (SimTop.boot_isRun trapLoop .timer).refines_hart trapLoopHart_sound 52
    (fun u hu => (trapLoop_precise u (by omega)).1) (fun u hu => (trapLoop_precise u (by omega)).2)
    fun u hu => trapLoop_devicesReturn u (by omega)

/-- The load from the device is in write-back, and the cached store before it in memory. -/
theorem trapLoop_hart_memory :
    ∃ n ≤ 2,
      SimTop.deviceReads (SimTop.boot trapLoop .timer) (fun _ => .fast .timer) 41 =
        ((trapLoopHart 41).prog.path trapLoopOps (fun _ => 0) n).reads ∧
      ∀ a : ReqAddr 8, a.IsCached →
        (SimTop.boot trapLoop .timer 41).current a =
          Bytes.words ((trapLoopHart 41).prog.path trapLoopOps (fun _ => 0) n).mem a.word := by
  rw [trapLoopHart]
  exact (SimTop.boot_isRun trapLoop .timer).hart_memory trapLoopHart_sound 41
    (fun u hu => (trapLoop_precise u (by omega)).1) (fun u hu => (trapLoop_precise u (by omega)).2)
    fun u hu => trapLoop_devicesReturn u (by omega)

/-- The interrupt of the store to the device is a precise trap. -/
theorem trapLoop_redirect_precise :
    let y := (trapLoopHart 52).retire (trapLoopOps (trapLoopHart 52).prog.instr) (fun _ => 0)
      .timer
    (SimTop.boot trapLoop .timer 53).top.core.fetch.pc = y.prog.pc ∧
      (SimTop.boot trapLoop .timer 53).top.core.regfile = y.prog.regs ∧
      (SimTop.boot trapLoop .timer 53).top.core.csr = y.csr ∧
      SimTop.deviceReads (SimTop.boot trapLoop .timer) (fun _ => .fast .timer) 53 =
        y.prog.reads ∧
      ∀ a : ReqAddr 8, a.IsCached →
        (SimTop.boot trapLoop .timer 53).current a = Bytes.words y.prog.mem a.word := by
  rw [trapLoopHart]
  exact (SimTop.boot_isRun trapLoop .timer).redirect_precise trapLoopHart_sound 52
    (fun u hu => (trapLoop_precise u (by omega)).1) (fun u hu => (trapLoop_precise u (by omega)).2)
    (fun u hu => trapLoop_devicesReturn u (by omega)) (by decide +kernel)

end RiscvCpu
