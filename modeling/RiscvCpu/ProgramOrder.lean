import RiscvCpu.IsaRecord
import RiscvCpu.Tags

/-!
# The pipeline against the instruction set: order and values

The records in the pipeline are the next instructions of the program, oldest first, each
at its place.  The values behind a record are then the registers before the instruction
of the next place, so that a branch or jump is resolved as the program goes on, and a
wrong prediction leaves no record behind.
-/

namespace RiscvCpu

/-- The number of the instruction each stage holds, or would hold next. -/
structure Places where
  mw : ℕ
  dataM1 : ℕ
  em : ℕ
  de : ℕ
  fd : ℕ
  fetch : ℕ
deriving DecidableEq, Repr

/-- The places after a cycle.  They move with the enables of the registers. -/
def Places.step (g : Places) (c : Core) (i : CoreIn) : Places where
  mw := g.dataM1
  dataM1 := if c.stallDataOk i then g.dataM1 else g.em
  em := if c.stallDataOk i then g.em else g.de
  de := if c.stallDataOk i || c.multicycleDoing then g.de else g.fd
  fd := if c.frontStall i then g.fd else g.fetch
  fetch := if c.frontStall i then g.fetch else if c.jumpFlush then g.fetch else g.fetch + 1

theorem Places.step_mw (g : Places) (c : Core) (i : CoreIn) : (g.step c i).mw = g.dataM1 := rfl

theorem Places.step_dataM1 (g : Places) (c : Core) (i : CoreIn) :
    (g.step c i).dataM1 = if c.stallDataOk i then g.dataM1 else g.em := rfl

theorem Places.step_em (g : Places) (c : Core) (i : CoreIn) :
    (g.step c i).em = if c.stallDataOk i then g.em else g.de := rfl

/-- The record is the instruction at place `a`, and the next one is at place `b`, or it is a
bubble. -/
def FetchData.Spans (x : ℕ → Isa.State) (d : FetchData) (a b : ℕ) : Prop :=
  d = 0 ∧ b = a ∨ d.Is (x a) ∧ b = a + 1

/-- Fetch goes on where the instruction in decode leads, as far as that is predicted. -/
structure Core.Heads (c : Core) (x : ℕ → Isa.State) (g : Places) : Prop where
  fd : c.fd.Spans x g.fd g.fetch
  resolved : c.fd = 0 → c.fetch.pc = (x g.fetch).pc
  predicted : c.fd ≠ 0 → ∃ bpb : Bpb, c.fd = bpb.fetched c.fd.rawInstr c.fd.pcO ∧
    c.fetch.pc = (bpb.bpResult c.fd.rawInstr c.fd.pcO).targetPc

/-- The records are the instructions of the program from place `g.mw` on. -/
structure Core.Follows (c : Core) (x : ℕ → Isa.State) (g : Places) : Prop where
  mw : c.mw.pcAndInstr.Spans x g.mw g.dataM1
  dataM1 : c.memory.dataM1.pcAndInstr.Spans x g.dataM1 g.em
  em : c.em.pcAndInstr.Spans x g.em g.de
  de : c.de.pcAndInstr.Spans x g.de g.fd
  heads : c.Heads x g

section Order

variable {word : BitVec 61 → BitVec 64} {x : ℕ → Isa.State} {op : ℕ → Op} {dev : ℕ → BitVec 64}
  {c : Core} {i : CoreIn} {g : Places} {d : FetchData} {a b : ℕ}

theorem FetchData.spans_bubble (x : ℕ → Isa.State) (n : ℕ) : (0 : FetchData).Spans x n n :=
  .inl ⟨rfl, rfl⟩

theorem FetchData.Spans.is (h : d.Spans x a b) (hd : d ≠ 0) : d.Is (x a) ∧ b = a + 1 :=
  h.resolve_left fun h0 => hd h0.1

/-! ## Values -/

/-- What is written behind a record that has its result are the registers before the next
instruction. -/
theorem FetchData.Spans.regs (h : d.Spans x a b) (hx : Isa.Executes word x op dev)
    {ra : BitVec 5} {v old : BitVec 64} (hold : old = (x a).regs ra)
    (hv : d.Is (x a) → d.instr.writes d.instr.ctl.regwriteEn ra = true →
      v = (x a).result (op a) dev) :
    (if d.instr.writes d.instr.ctl.regwriteEn ra then v else old) = (x b).regs ra := by
  rcases h with ⟨rfl, rfl⟩ | ⟨his, rfl⟩
  · rw [FetchData.instr_zero]
    exact hold
  · rw [hx.next a, Isa.State.exec_regs, his.regsNxt (hx.encodes a) (hx.fits a)]
    split
    · rename_i hw
      exact hv his hw
    · exact hold

/-- A record that writes a register and is no load computes the result. -/
theorem FetchData.Is.result_of_writes (h : d.Is (x a)) (hx : Isa.Executes word x op dev)
    {ra : BitVec 5} (hw : d.instr.writes d.instr.ctl.regwriteEn ra = true)
    (hm : d.instr.ctl.memrEn = false) {val : BitVec 5 → BitVec 64}
    (h1 : val d.instr.ra1 = (x a).regs d.instr.ra1)
    (h2 : val d.instr.ra2 = (x a).regs d.instr.ra2) :
    d.result (val d.instr.ra1) (val d.instr.ra2) = (x a).result (op a) dev := by
  have he := hx.encodes a
  have hf := hx.fits a
  rw [h.writes he hf, Bool.and_eq_true, Bool.and_eq_true] at hw
  have hno : Isa.access (op a) = none := by
    cases ha : Isa.access (op a) with
    | none => rfl
    | some acc =>
      cases acc with
      | load msize u =>
        rw [(h.instr he hf).2, Op.control_load ha] at hm
        cases hm
      | store msize =>
        have hws := hw.1.1
        rw [Isa.writesRd, ha] at hws
        cases hws
  rw [h1, h2]
  exact h.result_eq he hf (hx.regs_zero a) hno hw.1.1

/-- The value a load in write-back has taken from memory or a device is the one of the
program. -/
def Core.LoadedW (c : Core) (x : ℕ → Isa.State) (op : ℕ → Op) (dev : ℕ → BitVec 64)
    (g : Places) : Prop :=
  c.mw.pcAndInstr ≠ 0 → ∀ msize u, Isa.access (op g.mw) = some (.load msize u) →
    c.mw.lanes.rd = (x g.mw).loaded (op g.mw) dev msize u

/-- What a record in write-back writes is the result of its instruction. -/
theorem Core.Follows.writeData (h : c.Follows x g) (hx : Isa.Executes word x op dev)
    (hd : c.Decoded) (hreg : c.regfile = (x g.mw).regs) (hcomp : c.mw.Computes c.regfile)
    (hload : c.LoadedW x op dev g) (hne : c.mw.pcAndInstr ≠ 0)
    (hw : Isa.writesRd (op g.mw) = true) :
    c.dataW.writeData = (x g.mw).result (op g.mw) dev := by
  obtain ⟨his, _⟩ := h.mw.is hne
  have he := hx.encodes g.mw
  have hf := hx.fits g.mw
  obtain ⟨_, hinstr⟩ := his.instr he hf
  have hcsr : c.mw.instr.op.isCsr = false := by
    rw [hd.mw.instr, hinstr]
    exact Op.control_noCsr hf.noCsr
  cases ha : Isa.access (op g.mw) with
  | none =>
    have hm : c.mw.instr.ctl.memrEn = false := by
      rw [hd.mw.instr, hinstr]
      exact (Op.control_noAccess ha).1
    rw [hd.writeData hm hcsr, hcomp, hreg]
    exact his.result_eq he hf (hx.regs_zero _) ha hw
  | some acc =>
    cases acc with
    | load msize u =>
      have hsrc : c.mw.instr.ctl.writebackSrc = .memdata := by
        rw [hd.mw.instr, hinstr, Op.control_load ha]
        rfl
      rw [dataW, MemoryData.dataW, hsrc, Isa.State.result, ha]
      exact hload hne msize u ha
    | store msize =>
      rw [Isa.writesRd, ha] at hw
      cases hw

theorem Core.Follows.valueW (h : c.Follows x g) (hx : Isa.Executes word x op dev)
    (hd : c.Decoded) (hreg : c.regfile = (x g.mw).regs) (hcomp : c.mw.Computes c.regfile)
    (hload : c.LoadedW x op dev g) (ra : BitVec 5) :
    c.valueW ra = (x g.dataM1).regs ra := by
  rw [Core.valueW, hd.mw.instr]
  refine h.mw.regs hx (by rw [hreg]) fun his hw => ?_
  refine h.writeData hx hd hreg hcomp hload (his.ne_zero (hx.encodes _)) ?_
  rw [his.writes (hx.encodes _) (hx.fits _), Bool.and_eq_true, Bool.and_eq_true] at hw
  exact hw.1.1

theorem Core.Follows.valueM1 (h : c.Follows x g) (hx : Isa.Executes word x op dev)
    (hd : c.Decoded) (hin : c.InOrder) (hW : ∀ ra, c.valueW ra = (x g.dataM1).regs ra)
    {ra : BitVec 5}
    (hm : c.memory.dataM1.instr.writes c.memory.dataM1.instr.ctl.memrEn ra = false) :
    c.valueM1 ra = (x g.em).regs ra := by
  rw [hd.dataM1.instr] at hm
  rw [Core.valueM1, hd.dataM1.instr]
  refine h.dataM1.regs hx (hW ra) fun his hw => ?_
  rw [hin.dataM1]
  exact his.result_of_writes hx hw (Instr.memrEn_of_writes hw hm) (hW _) (hW _)

theorem Core.Follows.valueE (h : c.Follows x g) (hx : Isa.Executes word x op dev)
    (hd : c.Decoded) (hin : c.InOrder) (hW : ∀ ra, c.valueW ra = (x g.dataM1).regs ra)
    {ra : BitVec 5} (hm : c.NoLoad ra) : c.valueE ra = (x g.de).regs ra := by
  have hmem := hm.em
  have hloads := hin.loads_em
  rw [hd.em.instr] at hmem hloads
  rw [Core.valueE, hd.em.instr]
  refine h.em.regs hx (h.valueM1 hx hd hin hW hm.dataM1) fun his hw => ?_
  rw [hin.em.aluout]
  exact his.result_of_writes hx hw (Instr.memrEn_of_writes hw hmem)
    (h.valueM1 hx hd hin hW (hloads _ (.inl rfl))) (h.valueM1 hx hd hin hW (hloads _ (.inr rfl)))

/-- A branch or jump that decode lets go leads to the next instruction of the program. -/
theorem Core.Follows.instrCommit (h : c.Follows x g) (hx : Isa.Executes word x op dev)
    (hd : c.Decoded) (hin : c.InOrder) (hW : ∀ ra, c.valueW ra = (x g.dataM1).regs ra)
    (hne : c.fd ≠ 0) (hready : c.operandStall = false) :
    c.instrCommit.targetPc = (x g.fetch).pc := by
  obtain ⟨his, hfetch⟩ := h.heads.fd.is hne
  have he := hx.encodes g.fd
  have hf := hx.fits g.fd
  obtain ⟨_, hinstr⟩ := his.instr he hf
  -- what `de` does not write is the same behind it
  have hread : ∀ ra, ra = c.fd.instr.ra1 ∨ ra = c.fd.instr.ra2 →
      c.de.instr.writes c.de.instr.ctl.regwriteEn ra = false →
      c.operandD ra = (x g.fd).regs ra := by
    intro ra hra hno
    rw [hd.de.instr] at hno
    have hde := h.de.regs (v := 0) hx
      (h.valueE hx hd hin hW (noLoad_of_ready hready hra).2) fun _ hw => by
        rw [hno] at hw
        cases hw
    rw [hno, if_neg Bool.false_ne_true] at hde
    rw [operandD_eq, hde]
  have h1 : c.fd.instr.ctl.bj ≠ .nothing → c.rd1 = (x g.fd).regs c.fd.instr.ra1 := fun hb =>
    hread _ (.inl rfl) (unwritten_of_ready hready hb).1
  have h2 : c.fd.instr.ctl.bj = .bBeq → c.rd2 = (x g.fd).regs c.fd.instr.ra2 := fun hb =>
    hread _ (.inr rfl) ((unwritten_of_ready hready (by rw [hb]; simp)).2 hb)
  rw [hinstr] at h1 h2
  have hres := changePcsrc_integer he (x g.fd).pc (x g.fd).rs1 (x g.fd).rs2
  rw [Isa.State.rs1, Isa.State.rs2, ← resolve_integer he, decoder_of_encodes he,
    ← Op.changePcsrc_congr _ _ _ h1 h2] at hres
  rw [Core.instrCommit, FetchData.instrCommit, his.pcO, hinstr, hres, hfetch, hx.next g.fd]
  rfl

/-! ## One cycle -/

/-- The records that move keep their order. -/
theorem Core.Follows.step_records (h : c.Follows x g) (hl : c.Lossless i)
    (hr : c.pipeReset i = false) :
    (c.step i).mw.pcAndInstr.Spans x (g.step c i).mw (g.step c i).dataM1 ∧
    (c.step i).memory.dataM1.pcAndInstr.Spans x (g.step c i).dataM1 (g.step c i).em ∧
    (c.step i).em.pcAndInstr.Spans x (g.step c i).em (g.step c i).de ∧
    (c.step i).de.pcAndInstr.Spans x (g.step c i).de (g.step c i).fd := by
  rw [step_mw_pcAndInstr hr, hl.step_dataM1_pcAndInstr hr, step_em_pcAndInstr hr,
    step_de_pcAndInstr hr]
  simp only [Places.step, frontStall_eq]
  cases c.stallDataOk i with
  | true => exact ⟨FetchData.spans_bubble x _, h.dataM1, h.em, h.de⟩
  | false =>
    cases c.multicycleDoing with
    | true => exact ⟨h.dataM1, h.em, FetchData.spans_bubble x _, h.de⟩
    | false =>
      cases c.operandStall || !c.iDataOk i with
      | true => exact ⟨h.dataM1, h.em, h.de, FetchData.spans_bubble x _⟩
      | false => exact ⟨h.dataM1, h.em, h.de, h.heads.fd⟩

/-- A prediction that holds leads to the next instruction, and one that fails flushes the word
behind it. -/
theorem Core.Heads.fetch_pc (h : c.Heads x g) (hx : Isa.Executes word x op dev)
    (hcommit : c.fd ≠ 0 → c.instrCommit.targetPc = (x g.fetch).pc) :
    (c.bpHit = true ∧ c.jumpFlush = false ∧ c.fetch.pc = (x g.fetch).pc) ∨
      (c.bpHit = false ∧ c.jumpFlush = true ∧ c.instrCommit.targetPc = (x g.fetch).pc) := by
  by_cases hfd : c.fd = 0
  · refine .inl ⟨?_, jumpFlush_bubble hfd, h.resolved hfd⟩
    rw [bpHit, hfd]
    rfl
  · obtain ⟨his, _⟩ := h.fd.is hfd
    obtain ⟨bpb, hbpb, hpc⟩ := h.predicted hfd
    have hmis : ¬bpb.Misread c.fd.rawInstr c.fd.pcO := by
      rw [his.rawInstr, his.pcO]
      exact (hx.encodes _).not_misread (hx.fits _).pcAligned bpb
    have hhit : c.bpHit = (bpb.fetched c.fd.rawInstr c.fd.pcO).bpHit c.rd1 c.rd2 := by
      rw [← hbpb]
      rfl
    cases hb : c.bpHit with
    | true =>
      refine .inl ⟨rfl, ?_, ?_⟩
      · rw [jumpFlush, hb]
        exact Bool.and_false _
      · rw [hpc, fetched_hit (hhit.symm.trans hb), ← hbpb]
        exact hcommit hfd
    | false =>
      have hflush := fetched_miss hmis (hhit.symm.trans hb)
      rw [← hbpb] at hflush
      refine .inr ⟨rfl, ?_, hcommit hfd⟩
      rw [jumpFlush, hb]
      exact (Bool.and_true _).trans hflush

/-- What enters `fd` is the next instruction, and the pc goes on from there. -/
theorem Core.Heads.step (h : c.Heads x g) (hx : Isa.Executes word x op dev)
    (hr : c.pipeReset i = false)
    (hcommit : c.fd ≠ 0 → c.operandStall = false → c.instrCommit.targetPc = (x g.fetch).pc)
    (hcode : ∀ n, c.iDataOk i = true → c.fetch.pc = (x n).pc →
      c.fetch.dataFRawInstr i.iresp = (x n).instr) : (c.step i).Heads x (g.step c i) := by
  cases hfront : c.frontStall i with
  | true =>
    have hfd : (c.step i).fd = c.fd := by
      rw [step_fd hr, hfront, if_pos rfl]
    have hpc : (c.step i).fetch.pc = c.fetch.pc := by
      rw [step_pc hr, hfront, if_pos rfl]
    constructor <;> simp only [hfd, hpc, Places.step, hfront, if_true]
    · exact h.fd
    · exact h.resolved
    · exact h.predicted
  | false =>
    have hgo := hfront
    simp only [frontStall, Bool.or_eq_false_iff, Bool.not_eq_false'] at hgo
    rcases h.fetch_pc hx fun hne => hcommit hne hgo.1.2 with ⟨hb, hj, hpc⟩ | ⟨hb, hj, htar⟩
    · have his : (c.dataF i).Is (x g.fetch) := ⟨hpc, hcode g.fetch hgo.1.1.2 hpc⟩
      have hfd : (c.step i).fd = c.dataF i := by
        rw [step_fd hr, hfront, hj]
        rfl
      have hnext : (c.step i).fetch.pc = (c.fetch.bpResult i.iresp).targetPc := by
        rw [step_pc hr, hfront, Fetch.pcJumpTar, hb]
        rfl
      constructor <;> simp only [hfd, Places.step, hfront, hj, Bool.false_eq_true, if_false]
      · exact .inr ⟨his, rfl⟩
      · exact fun h0 => absurd h0 (his.ne_zero (hx.encodes _))
      · exact fun _ => ⟨c.fetch.bpb, rfl, hnext⟩
    · have hfd : (c.step i).fd = 0 := by
        rw [step_fd hr, hfront, hj]
        rfl
      have hnext : (c.step i).fetch.pc = c.instrCommit.targetPc := by
        rw [step_pc hr, hfront, Fetch.pcJumpTar, hb]
        rfl
      constructor <;>
        simp only [hfd, Places.step, hfront, hj, Bool.false_eq_true, if_false, if_true]
      · exact FetchData.spans_bubble x _
      · exact fun _ => hnext.trans htar
      · exact fun hne => absurd rfl hne

/-- One cycle keeps the records and the pc to the program. -/
theorem Core.Follows.step (h : c.Follows x g) (hx : Isa.Executes word x op dev)
    (hl : c.Lossless i) (hr : c.pipeReset i = false)
    (hcommit : c.fd ≠ 0 → c.operandStall = false → c.instrCommit.targetPc = (x g.fetch).pc)
    (hcode : ∀ n, c.iDataOk i = true → c.fetch.pc = (x n).pc →
      c.fetch.dataFRawInstr i.iresp = (x n).instr) :
    (c.step i).Follows x (g.step c i) := by
  obtain ⟨hmw, hm1, hem, hde⟩ := h.step_records hl hr
  exact ⟨hmw, hm1, hem, hde, h.heads.step hx hr hcommit hcode⟩

/-! ## The core -/

/-- The core executes the program: its records follow it, the register file holds the
registers before the instruction in write-back, and no record behind the memory stage
raises an exception. -/
structure Core.Runs (c : Core) (x : ℕ → Isa.State) (op : ℕ → Op) (dev : ℕ → BitVec 64)
    (g : Places) : Prop where
  follows : c.Follows x g
  regfile : c.regfile = (x g.mw).regs
  loaded : c.LoadedW x op dev g
  dataM1 : c.memory.dataM1.csrCtl = 0
  mw : c.mw.csrCtl = 0

/-- What holds of a core in every run. -/
structure Core.Orderly (c : Core) (i : CoreIn) : Prop where
  decoded : c.Decoded
  lossless : c.Lossless i
  regfile_zero : c.regfile 0 = 0
  inOrder : c.mw.instr.op.isCsr = false → c.InOrder
  computes : c.mw.Computes c.regfile

theorem Core.Runs.isCsr (h : c.Runs x op dev g) (hx : Isa.Executes word x op dev)
    (hd : c.Decoded) : c.mw.instr.op.isCsr = false := by
  rw [hd.mw.instr]
  by_cases h0 : c.mw.pcAndInstr = 0
  · rw [h0, FetchData.instr_zero]
    rfl
  · obtain ⟨his, _⟩ := h.follows.mw.is h0
    rw [(his.instr (hx.encodes _) (hx.fits _)).2]
    exact Op.control_noCsr (hx.fits _).noCsr

theorem Core.Runs.valueW (h : c.Runs x op dev g) (hx : Isa.Executes word x op dev)
    (ho : c.Orderly i) (ra : BitVec 5) : c.valueW ra = (x g.dataM1).regs ra :=
  h.follows.valueW hx ho.decoded h.regfile ho.computes h.loaded ra

/-- A load or store in `em` has its address, and a store its data. -/
theorem Core.Runs.em_access (h : c.Runs x op dev g) (hx : Isa.Executes word x op dev)
    (ho : c.Orderly i) (hne : c.em.pcAndInstr ≠ 0) {acc : Isa.Access}
    (ha : Isa.access (op g.em) = some acc) :
    c.em.aluout = (x g.em).addr (op g.em) ∧
      ∀ msize, acc = .store msize → c.em.memwData = (x g.em).rs2 := by
  have hin := ho.inOrder (h.isCsr hx ho.decoded)
  obtain ⟨his, _⟩ := h.follows.em.is hne
  have he := hx.encodes g.em
  have hf := hx.fits g.em
  have hinstr := (his.instr he hf).2
  have hloads := hin.loads_em
  rw [ho.decoded.em.instr] at hloads
  have hval : ∀ ra, ra = c.em.pcAndInstr.instr.ra1 ∨ ra = c.em.pcAndInstr.instr.ra2 →
      c.valueM1 ra = (x g.em).regs ra := fun ra hra =>
    h.follows.valueM1 hx ho.decoded hin (h.valueW hx ho) (hloads ra hra)
  constructor
  · rw [hin.em.aluout, hval _ (.inl rfl), hval _ (.inr rfl)]
    exact his.address he hf ha
  · rintro msize rfl
    have hm : c.em.pcAndInstr.instr.ctl.aluop ≠ .aluMulticycle := by
      rw [hinstr, Op.control_store ha]
      exact fun hc => by cases hc
    rw [hin.em.memwData hm, hval _ (.inr rfl), hinstr, Op.control_store ha]
    rfl

/-- The same address is found in write-back. -/
theorem Core.Runs.mw_address (h : c.Runs x op dev g) (hx : Isa.Executes word x op dev)
    (ho : c.Orderly i) (hne : c.mw.pcAndInstr ≠ 0) {acc : Isa.Access}
    (ha : Isa.access (op g.mw) = some acc) : c.mw.aluout = (x g.mw).addr (op g.mw) := by
  obtain ⟨his, _⟩ := h.follows.mw.is hne
  rw [ho.computes, h.regfile]
  exact his.address (hx.encodes _) (hx.fits _) ha

/-- Nothing redirects the pc. -/
theorem Core.Runs.csrFlush (h : c.Runs x op dev g) (hx : Isa.Executes word x op dev)
    (ho : c.Orderly i) : c.csrFlush .low = false := by
  have hctl : c.mw.csrCtlW = 0 := by
    rw [MemoryData.csrCtlW, h.mw]
    by_cases h0 : c.mw.pcAndInstr = 0
    · rw [ho.decoded.mw.instr, h0, FetchData.instr_zero]
      exact if_neg (by rw [Bool.and_eq_true]; exact fun hc => by cases hc.2)
    · obtain ⟨his, _⟩ := h.follows.mw.is h0
      have hf := hx.fits g.mw
      have hinstr := (his.instr (hx.encodes _) hf).2
      rw [if_neg]
      rw [Bool.and_eq_true]
      rintro ⟨hmis, hm⟩
      rw [ho.decoded.mw.instr, hinstr] at hm
      cases ha : Isa.access (op g.mw) with
      | none =>
        rw [(Op.control_noAccess ha).1] at hm
        cases hm
      | some acc =>
        cases acc with
        | store msize =>
          rw [Op.control_store ha] at hm
          cases hm
        | load msize u =>
          refine (isLdMissalign_iff _ _).mp hmis ?_
          rw [h.mw_address hx ho h0 ha, ho.decoded.mw.instr, hinstr, Op.control_load ha]
          exact hf.access _ ha
  have hz : (0 : CsrCtl).isExcept = false ∧ (0 : CsrCtl).csrWen = false ∧
      (0 : CsrCtl).isMret = false := ⟨rfl, rfl, rfl⟩
  simp [Core.csrFlush, csrPcNxt, Csr.csrPcNxt, Csr.excOrInt, Csr.csrWen, Csr.isInterupt,
    Csr.isSwint, Csr.isTrint, hctl, hz, Pins.low]

/-- What moves on to `dataM1` raises no exception. -/
theorem Core.Runs.dataMtmp (h : c.Runs x op dev g) (hx : Isa.Executes word x op dev)
    (ho : c.Orderly i) : c.em.dataMtmp.csrCtl = 0 := by
  have hctl : c.em.csrCtl = 0 := by
    rw [ho.decoded.em.csrCtl]
    by_cases h0 : c.em.pcAndInstr = 0
    · rw [h0, FetchData.csrCtl_zero]
    · obtain ⟨his, _⟩ := h.follows.em.is h0
      exact his.csrCtl (hx.encodes _) (hx.fits _)
  rw [ExecuteData.dataMtmp]
  refine (if_neg ?_).trans hctl
  rw [Bool.and_eq_true]
  rintro ⟨hmis, hm⟩
  rw [ho.decoded.em.instr] at hm
  by_cases h0 : c.em.pcAndInstr = 0
  · rw [h0, FetchData.instr_zero] at hm
    cases hm
  · obtain ⟨his, _⟩ := h.follows.em.is h0
    have hf := hx.fits g.em
    have hinstr := (his.instr (hx.encodes _) hf).2
    rw [hinstr] at hm
    cases ha : Isa.access (op g.em) with
    | none =>
      rw [(Op.control_noAccess ha).2] at hm
      cases hm
    | some acc =>
      cases acc with
      | load msize u =>
        rw [Op.control_load ha] at hm
        cases hm
      | store msize =>
        refine (isSdMissalign_iff _).mp hmis ?_
        rw [(h.em_access hx ho h0 ha).1, ho.decoded.em.instr, hinstr, Op.control_store ha]
        exact hf.access _ ha

/-- One cycle of the core, with the right words from fetch and the right data for a load that
reaches write-back. -/
theorem Core.Runs.step (h : c.Runs x op dev g) (hx : Isa.Executes word x op dev)
    (ho : c.Orderly i) (hr : c.pipeReset i = false)
    (hcode : ∀ n, c.iDataOk i = true → c.fetch.pc = (x n).pc →
      c.fetch.dataFRawInstr i.iresp = (x n).instr)
    (hload : (c.step i).LoadedW x op dev (g.step c i)) :
    (c.step i).Runs x op dev (g.step c i) := by
  have hW := h.valueW hx ho
  have hin := ho.inOrder (h.isCsr hx ho.decoded)
  refine ⟨h.follows.step hx ho.lossless hr (fun hne hready => ?_) hcode, ?_, hload, ?_, ?_⟩
  · exact h.follows.instrCommit hx ho.decoded hin hW hne hready
  · funext ra
    rw [step_regfile ho.regfile_zero (reset_of_pipeReset hr)]
    exact hW ra
  · cases hst : c.stallDataOk i with
    | true =>
      rw [ho.lossless.step_dataM1_stall hr hst]
      exact h.dataM1
    | false =>
      obtain ⟨y, hy⟩ := ho.lossless.step_dataM1 hr hst
      rw [hy]
      exact h.dataMtmp hx ho
  · rw [step_mw hr]
    split
    · rfl
    · exact h.dataM1

end Order

end RiscvCpu
