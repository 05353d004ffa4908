import RiscvCpu.Hart.Machine
import RiscvCpu.ProgramOrder

/-!
# The pipeline against the hart: order and values

The records in the pipeline are the instructions of a stretch, oldest first, each at its
place.  They are fetched on, past a system instruction, before that redirects the pc, and
what follows it is not known to be anything.  All such records share the place behind the
stretch, and none of them gets past execute.
-/

namespace RiscvCpu

/-- The places after a cycle.  What is fetched behind the stretch takes no new place. -/
def Places.next (g : Places) (op : ℕ → Op) (c : Core) (i : CoreIn) : Places :=
  { g.step c i with
    fetch :=
      if c.frontStall i || c.jumpFlush then g.fetch
      else if Isa.Ahead op g.fetch then g.fetch + 1 else g.fetch }

theorem Places.next_mw (g : Places) (op : ℕ → Op) (c : Core) (i : CoreIn) :
    (g.next op c i).mw = g.dataM1 := rfl

theorem Places.next_dataM1 (g : Places) (op : ℕ → Op) (c : Core) (i : CoreIn) :
    (g.next op c i).dataM1 = if c.stallDataOk i then g.dataM1 else g.em := rfl

theorem Places.next_em (g : Places) (op : ℕ → Op) (c : Core) (i : CoreIn) :
    (g.next op c i).em = if c.stallDataOk i then g.em else g.de := rfl

/-- The record is the instruction at place `a`, with the next one at place `b`, unless it is
behind the stretch. -/
structure FetchData.Tracks (d : FetchData) (x : ℕ → Isa.State) (op : ℕ → Op) (a b : ℕ) :
    Prop where
  spans : Isa.Ahead op a → d.Spans x a b
  behind : ¬Isa.Ahead op a → b = a

/-- The records are the instructions of the stretch from place `g.mw` on. -/
structure Core.Tracks (c : Core) (x : ℕ → Isa.State) (op : ℕ → Op) (g : Places) : Prop where
  ahead : Isa.Ahead op g.mw
  mw : c.mw.pcAndInstr.Spans x g.mw g.dataM1
  dataM1 : c.memory.dataM1.pcAndInstr.Tracks x op g.dataM1 g.em
  em : c.em.pcAndInstr.Tracks x op g.em g.de
  de : c.de.pcAndInstr.Tracks x op g.de g.fd
  heads : Isa.Ahead op g.fd → c.Heads x g
  behind : ¬Isa.Ahead op g.fd → g.fetch = g.fd

/-- Two instructions meet behind execute only if the older one is a multiplication or
division. -/
structure Core.Sparse (c : Core) : Prop where
  dataM1 : c.memory.dataM1.pcAndInstr ≠ 0 → c.em.pcAndInstr ≠ 0 →
    c.memory.dataM1.instr.ctl.aluop = .aluMulticycle
  mw : c.mw.pcAndInstr ≠ 0 → c.memory.dataM1.pcAndInstr ≠ 0 →
    c.mw.instr.ctl.aluop = .aluMulticycle

section Order

variable {x : ℕ → Isa.State} {op : ℕ → Op} {dev : ℕ → BitVec 64} {c : Core} {i : CoreIn}
  {g : Places} {d : FetchData} {a b : ℕ}

theorem FetchData.tracks_bubble (x : ℕ → Isa.State) (op : ℕ → Op) (n : ℕ) :
    (0 : FetchData).Tracks x op n n :=
  ⟨fun _ => spans_bubble x n, fun _ => rfl⟩

theorem FetchData.Tracks.le (h : d.Tracks x op a b) : a ≤ b := by
  by_cases ha : Isa.Ahead op a
  · rcases h.spans ha with ⟨_, rfl⟩ | ⟨_, rfl⟩ <;> omega
  · exact (h.behind ha).ge

theorem FetchData.Tracks.is (h : d.Tracks x op a b) (ha : Isa.Ahead op a) (hd : d ≠ 0) :
    d.Is (x a) ∧ b = a + 1 := (h.spans ha).is hd

/-! ## Values -/

/-- What is written behind a record that has its result are the registers before the next
instruction. -/
theorem FetchData.Spans.regs_ahead (h : d.Spans x a b) (hx : Isa.Stretch x op dev)
    (hb : Isa.Ahead op b) {ra : BitVec 5} {v old : BitVec 64} (hold : old = (x a).regs ra)
    (hv : d.Is (x a) → Isa.Ahead op (a + 1) →
      d.instr.writes d.instr.ctl.regwriteEn ra = true → v = (x a).result (op a) dev) :
    (if d.instr.writes d.instr.ctl.regwriteEn ra then v else old) = (x b).regs ra := by
  rcases h with ⟨rfl, rfl⟩ | ⟨his, rfl⟩
  · rw [FetchData.instr_zero]
    exact hold
  · rw [hx.next a, Isa.State.exec_regs,
      his.regsNxt (hx.encodes a (hb.mono (Nat.le_succ a))) (hx.fits hb)]
    split
    · rename_i hw
      exact hv his hb hw
    · exact hold

/-- A record that writes a register and is no load computes the result. -/
theorem FetchData.Is.result_ahead (h : d.Is (x a)) (hx : Isa.Stretch x op dev)
    (ha : Isa.Ahead op (a + 1)) {ra : BitVec 5}
    (hw : d.instr.writes d.instr.ctl.regwriteEn ra = true) (hm : d.instr.ctl.memrEn = false)
    {val : BitVec 5 → BitVec 64} (h1 : val d.instr.ra1 = (x a).regs d.instr.ra1)
    (h2 : val d.instr.ra2 = (x a).regs d.instr.ra2) :
    d.result (val d.instr.ra1) (val d.instr.ra2) = (x a).result (op a) dev := by
  have he := hx.encodes a (ha.mono (Nat.le_succ a))
  have hf := hx.fits ha
  rw [h.writes he hf, Bool.and_eq_true, Bool.and_eq_true] at hw
  have hno : Isa.access (op a) = none := by
    cases hacc : Isa.access (op a) with
    | none => rfl
    | some acc =>
      cases acc with
      | load msize u =>
        rw [(h.instr he hf).2, Op.control_load hacc] at hm
        cases hm
      | store msize =>
        have hws := hw.1.1
        rw [Isa.writesRd, hacc] at hws
        cases hws
  rw [h1, h2]
  exact h.result_eq he hf (hx.regs_zero a) hno hw.1.1

/-- What a plain record in write-back writes is the result of its instruction. -/
theorem Core.Tracks.writeData (h : c.Tracks x op g) (hx : Isa.Stretch x op dev)
    (hd : c.Decoded) (hreg : c.regfile = (x g.mw).regs) (hcomp : c.mw.Computes c.regfile)
    (hload : c.LoadedW x op dev g) (hne : c.mw.pcAndInstr ≠ 0)
    (hs : (op g.mw).isSystem = false) (hw : Isa.writesRd (op g.mw) = true) :
    c.dataW.writeData = (x g.mw).result (op g.mw) dev := by
  obtain ⟨his, _⟩ := h.mw.is hne
  have he := hx.encodes g.mw h.ahead
  have hf := hx.fits (h.ahead.succ hs)
  obtain ⟨_, hinstr⟩ := his.instr he hf
  have hcsr : c.mw.instr.op.isCsr = false := by
    rw [hd.mw.instr, hinstr]
    exact Op.control_noCsr hf.noCsr
  cases ha : Isa.access (op g.mw) with
  | none =>
    have hm : c.mw.instr.ctl.memrEn = false := by
      rw [hd.mw.instr, hinstr]
      exact (Op.control_noAccess ha).1
    rw [hd.writeData hm hcsr, hcomp, hreg]
    exact his.result_eq he hf (hx.regs_zero _) ha hw
  | some acc =>
    cases acc with
    | load msize u =>
      have hsrc : c.mw.instr.ctl.writebackSrc = .memdata := by
        rw [hd.mw.instr, hinstr, Op.control_load ha]
        rfl
      rw [Core.dataW, MemoryData.dataW, hsrc, Isa.State.result, ha]
      exact hload hne msize u ha
    | store msize =>
      rw [Isa.writesRd, ha] at hw
      cases hw

theorem Core.Tracks.valueW (h : c.Tracks x op g) (hx : Isa.Stretch x op dev) (hd : c.Decoded)
    (hreg : c.regfile = (x g.mw).regs) (hcomp : c.mw.Computes c.regfile)
    (hload : c.LoadedW x op dev g) (ha : Isa.Ahead op g.dataM1) (ra : BitVec 5) :
    c.valueW ra = (x g.dataM1).regs ra := by
  rw [Core.valueW, hd.mw.instr]
  refine h.mw.regs_ahead hx ha (by rw [hreg]) fun his hn hw => ?_
  have he := hx.encodes g.mw h.ahead
  refine h.writeData hx hd hreg hcomp hload (his.ne_zero he) (hn _ (Nat.lt_succ_self _)) ?_
  rw [his.writes he (hx.fits hn), Bool.and_eq_true, Bool.and_eq_true] at hw
  exact hw.1.1

theorem Core.Tracks.valueM1 (h : c.Tracks x op g) (hx : Isa.Stretch x op dev) (hd : c.Decoded)
    (hin : c.InOrder) (hW : ∀ ra, c.valueW ra = (x g.dataM1).regs ra) (ha : Isa.Ahead op g.em)
    {ra : BitVec 5}
    (hm : c.memory.dataM1.instr.writes c.memory.dataM1.instr.ctl.memrEn ra = false) :
    c.valueM1 ra = (x g.em).regs ra := by
  rw [hd.dataM1.instr] at hm
  rw [Core.valueM1, hd.dataM1.instr]
  have hspans := h.dataM1.spans (ha.mono h.dataM1.le)
  refine hspans.regs_ahead hx ha (hW ra) fun his hn hw => ?_
  rw [hin.dataM1]
  exact his.result_ahead hx hn hw (Instr.memrEn_of_writes hw hm) (hW _) (hW _)

theorem Core.Tracks.valueE (h : c.Tracks x op g) (hx : Isa.Stretch x op dev) (hd : c.Decoded)
    (hin : c.InOrder) (hW : ∀ ra, c.valueW ra = (x g.dataM1).regs ra) (ha : Isa.Ahead op g.de)
    {ra : BitVec 5} (hm : c.NoLoad ra) : c.valueE ra = (x g.de).regs ra := by
  have hmem := hm.em
  have hloads := hin.loads_em
  rw [hd.em.instr] at hmem hloads
  rw [Core.valueE, hd.em.instr]
  have hem := ha.mono h.em.le
  refine (h.em.spans hem).regs_ahead hx ha (h.valueM1 hx hd hin hW hem hm.dataM1)
    fun his hn hw => ?_
  rw [hin.em.aluout]
  exact his.result_ahead hx hn hw (Instr.memrEn_of_writes hw hmem)
    (h.valueM1 hx hd hin hW hem (hloads _ (.inl rfl)))
    (h.valueM1 hx hd hin hW hem (hloads _ (.inr rfl)))

theorem Core.Tracks.fd_le (h : c.Tracks x op g) : g.fd ≤ g.fetch := by
  by_cases ha : Isa.Ahead op g.fd
  · rcases (h.heads ha).fd with ⟨_, hg⟩ | ⟨_, hg⟩ <;> omega
  · exact (h.behind ha).ge

theorem Core.Tracks.em_le (h : c.Tracks x op g) : ∃ n ≤ 2, g.em = g.mw + n := by
  have hm1 : g.dataM1 = g.mw ∨ g.dataM1 = g.mw + 1 := h.mw.imp And.right And.right
  have hem : g.em = g.dataM1 ∨ g.em = g.dataM1 + 1 := by
    by_cases ha : Isa.Ahead op g.dataM1
    · exact (h.dataM1.spans ha).imp And.right And.right
    · exact .inl (h.dataM1.behind ha)
  refine ⟨g.em - g.mw, ?_, ?_⟩ <;> omega

/-- A branch or jump that decode lets go leads to the next instruction of the stretch. -/
theorem Core.Tracks.instrCommit (h : c.Tracks x op g) (hx : Isa.Stretch x op dev)
    (hd : c.Decoded) (hin : c.InOrder) (hW : ∀ ra, c.valueW ra = (x g.dataM1).regs ra)
    (ha : Isa.Ahead op g.fetch) (hne : c.fd ≠ 0) (hready : c.operandStall = false) :
    c.instrCommit.targetPc = (x g.fetch).pc := by
  have hafd := ha.mono h.fd_le
  obtain ⟨his, hfetch⟩ := (h.heads hafd).fd.is hne
  have he := hx.encodes g.fd hafd
  have hf := hx.fits (hfetch ▸ ha)
  obtain ⟨_, hinstr⟩ := his.instr he hf
  -- what `de` does not write is the same behind it
  have hread : ∀ ra, ra = c.fd.instr.ra1 ∨ ra = c.fd.instr.ra2 →
      c.de.instr.writes c.de.instr.ctl.regwriteEn ra = false →
      c.operandD ra = (x g.fd).regs ra := by
    intro ra hra hno
    rw [hd.de.instr] at hno
    have hade := hafd.mono h.de.le
    have hde := (h.de.spans hade).regs_ahead (v := 0) hx hafd
      (h.valueE hx hd hin hW hade (noLoad_of_ready hready hra).2) fun _ _ hw => by
        rw [hno] at hw
        cases hw
    rw [hno, if_neg Bool.false_ne_true] at hde
    rw [operandD_eq, hde]
  have h1 : c.fd.instr.ctl.bj ≠ .nothing → c.rd1 = (x g.fd).regs c.fd.instr.ra1 := fun hb =>
    hread _ (.inl rfl) (unwritten_of_ready hready hb).1
  have h2 : c.fd.instr.ctl.bj = .bBeq → c.rd2 = (x g.fd).regs c.fd.instr.ra2 := fun hb =>
    hread _ (.inr rfl) ((unwritten_of_ready hready (by rw [hb]; simp)).2 hb)
  rw [hinstr] at h1 h2
  have hres := changePcsrc_integer he (x g.fd).pc (x g.fd).rs1 (x g.fd).rs2
  rw [Isa.State.rs1, Isa.State.rs2, ← resolve_integer he, decoder_of_encodes he,
    ← Op.changePcsrc_congr _ _ _ h1 h2] at hres
  rw [Core.instrCommit, FetchData.instrCommit, his.pcO, hinstr, hres, hfetch, hx.next g.fd]
  rfl

/-! ## Order -/

/-- The records that move keep their order. -/
theorem Core.Tracks.step_records (h : c.Tracks x op g) (hl : c.Lossless i)
    (hr : c.pipeReset i = false) (ha : Isa.Ahead op g.dataM1) :
    let g' := g.next op c i
    (c.step i).mw.pcAndInstr.Spans x g'.mw g'.dataM1 ∧
    (c.step i).memory.dataM1.pcAndInstr.Tracks x op g'.dataM1 g'.em ∧
    (c.step i).em.pcAndInstr.Tracks x op g'.em g'.de ∧
    (c.step i).de.pcAndInstr.Tracks x op g'.de g'.fd := by
  rw [step_mw_pcAndInstr hr, hl.step_dataM1_pcAndInstr hr, step_em_pcAndInstr hr,
    step_de_pcAndInstr hr]
  have hfd : c.fd.Tracks x op g.fd g.fetch := ⟨fun hfd => (h.heads hfd).fd, h.behind⟩
  simp only [Places.next, Places.step, frontStall_eq]
  cases c.stallDataOk i with
  | true => exact ⟨FetchData.spans_bubble x _, h.dataM1, h.em, h.de⟩
  | false =>
    cases c.multicycleDoing with
    | true => exact ⟨h.dataM1.spans ha, h.em, FetchData.tracks_bubble x op _, h.de⟩
    | false =>
      cases c.operandStall || !c.iDataOk i with
      | true => exact ⟨h.dataM1.spans ha, h.em, h.de, FetchData.tracks_bubble x op _⟩
      | false => exact ⟨h.dataM1.spans ha, h.em, h.de, hfd⟩

/-- A prediction that holds leads to the next instruction, and one that fails flushes the word
behind it. -/
theorem Core.Heads.fetch_pc_ahead (h : c.Heads x g) (hx : Isa.Stretch x op dev)
    (ha : Isa.Ahead op g.fetch)
    (hcommit : c.fd ≠ 0 → c.instrCommit.targetPc = (x g.fetch).pc) :
    (c.bpHit = true ∧ c.jumpFlush = false ∧ c.fetch.pc = (x g.fetch).pc) ∨
      (c.bpHit = false ∧ c.jumpFlush = true ∧ c.instrCommit.targetPc = (x g.fetch).pc) := by
  by_cases hfd : c.fd = 0
  · refine .inl ⟨?_, jumpFlush_bubble hfd, h.resolved hfd⟩
    rw [bpHit, hfd]
    rfl
  · obtain ⟨his, hfetch⟩ := h.fd.is hfd
    obtain ⟨bpb, hbpb, hpc⟩ := h.predicted hfd
    have ha' : Isa.Ahead op (g.fd + 1) := hfetch ▸ ha
    have hmis : ¬bpb.Misread c.fd.rawInstr c.fd.pcO := by
      rw [his.rawInstr, his.pcO]
      exact (hx.encodes _ (ha'.mono (Nat.le_succ _))).not_misread (hx.fits ha').pcAligned bpb
    have hhit : c.bpHit = (bpb.fetched c.fd.rawInstr c.fd.pcO).bpHit c.rd1 c.rd2 := by
      rw [← hbpb]
      rfl
    cases hb : c.bpHit with
    | true =>
      refine .inl ⟨rfl, ?_, ?_⟩
      · rw [jumpFlush, hb]
        exact Bool.and_false _
      · rw [hpc, fetched_hit (hhit.symm.trans hb), ← hbpb]
        exact hcommit hfd
    | false =>
      have hflush := fetched_miss hmis (hhit.symm.trans hb)
      rw [← hbpb] at hflush
      refine .inr ⟨rfl, ?_, hcommit hfd⟩
      rw [jumpFlush, hb]
      exact (Bool.and_true _).trans hflush

/-- What enters `fd` is the next instruction, and the pc goes on from there. -/
theorem Core.Heads.step_ahead (h : c.Heads x g) (hx : Isa.Stretch x op dev)
    (hr : c.pipeReset i = false) (hgo : c.frontStall i = false) (ha : Isa.Ahead op g.fetch)
    (hcommit : c.fd ≠ 0 → c.instrCommit.targetPc = (x g.fetch).pc)
    (hcode : c.fetch.pc = (x g.fetch).pc →
      c.fetch.dataFRawInstr i.iresp = (x g.fetch).instr) :
    (c.step i).Heads x (g.next op c i) := by
  rcases h.fetch_pc_ahead hx ha hcommit with ⟨hb, hj, hpc⟩ | ⟨hb, hj, htar⟩
  · have his : (c.dataF i).Is (x g.fetch) := ⟨hpc, hcode hpc⟩
    have hfd : (c.step i).fd = c.dataF i := by
      rw [step_fd hr, hgo, hj]
      rfl
    have hnext : (c.step i).fetch.pc = (c.fetch.bpResult i.iresp).targetPc := by
      rw [step_pc hr, hgo, Fetch.pcJumpTar, hb]
      rfl
    constructor <;> simp only [hfd, Places.next, Places.step, hgo, hj, Bool.false_eq_true,
      if_false, Bool.or_false, ha, if_true]
    · exact .inr ⟨his, rfl⟩
    · exact fun h0 => absurd h0 (his.ne_zero (hx.encodes _ ha))
    · exact fun _ => ⟨c.fetch.bpb, rfl, hnext⟩
  · have hfd : (c.step i).fd = 0 := by
      rw [step_fd hr, hgo, hj]
      rfl
    have hnext : (c.step i).fetch.pc = c.instrCommit.targetPc := by
      rw [step_pc hr, hgo, Fetch.pcJumpTar, hb]
      rfl
    constructor <;> simp only [hfd, Places.next, Places.step, hgo, hj, Bool.false_eq_true,
      if_false, if_true, Bool.or_true]
    · exact FetchData.spans_bubble x _
    · exact fun _ => hnext.trans htar
    · exact fun hne => absurd rfl hne

/-- One cycle keeps the records and the pc to the stretch. -/
theorem Core.Tracks.step (h : c.Tracks x op g) (hx : Isa.Stretch x op dev)
    (hl : c.Lossless i) (hr : c.pipeReset i = false) (ha : Isa.Ahead op g.dataM1)
    (hcommit : Isa.Ahead op g.fetch → c.fd ≠ 0 → c.operandStall = false →
      c.instrCommit.targetPc = (x g.fetch).pc)
    (hcode : ∀ n, Isa.Ahead op n → c.iDataOk i = true → c.fetch.pc = (x n).pc →
      c.fetch.dataFRawInstr i.iresp = (x n).instr) :
    (c.step i).Tracks x op (g.next op c i) := by
  obtain ⟨hmw, hm1, hem, hde⟩ := h.step_records hl hr ha
  cases hfront : c.frontStall i with
  | true =>
    have hfd : (c.step i).fd = c.fd := by
      rw [step_fd hr, hfront, if_pos rfl]
    have hpc : (c.step i).fetch.pc = c.fetch.pc := by
      rw [step_pc hr, hfront, if_pos rfl]
    refine ⟨ha, hmw, hm1, hem, hde, fun hafd => ?_, fun hafd => ?_⟩ <;>
      simp only [Places.next, Places.step, hfront, Bool.true_or, if_true] at hafd ⊢
    · have hheads := h.heads hafd
      exact ⟨hfd ▸ hheads.fd, fun h0 => hpc.trans (hheads.resolved (hfd ▸ h0)), fun hne => by
        rw [hfd, hpc]
        exact hheads.predicted (hfd ▸ hne)⟩
    · exact h.behind hafd
  | false =>
    have hgo := hfront
    simp only [frontStall, Bool.or_eq_false_iff, Bool.not_eq_false'] at hgo
    have hg : (g.next op c i).fd = g.fetch := by
      simp only [Places.next, Places.step, hfront, Bool.false_eq_true, if_false]
    refine ⟨ha, hmw, hm1, hem, hde, fun hafd => ?_, fun hafd => ?_⟩
    · rw [hg] at hafd
      exact (h.heads (hafd.mono h.fd_le)).step_ahead hx hr hfront hafd
        (fun hne => hcommit hafd hne hgo.1.2) fun hpc => hcode _ hafd hgo.1.1.2 hpc
    · rw [hg] at hafd ⊢
      simp only [Places.next, hfront, hafd, Bool.false_or, if_false, ite_self]

/-! ## Distances -/

theorem Core.Sparse.step {dataOk : Bool} (h : c.Sparse) (hs : c.Spaced dataOk)
    (hl : c.Lossless i) (hd : c.Decoded) (hr : c.pipeReset i = false) : (c.step i).Sparse := by
  have hd' := hd.step i
  constructor
  · rw [hd'.dataM1.instr, hl.step_dataM1_pcAndInstr hr, step_em_pcAndInstr hr]
    cases c.stallDataOk i with
    | true =>
      intro h1 h2
      have := h.dataM1 h1 h2
      rwa [hd.dataM1.instr] at this
    | false =>
      intro hem hde
      have hem' : c.em ≠ 0 := fun h0 => hem (congrArg ExecuteData.pcAndInstr h0)
      have hde' : c.de ≠ 0 := by
        intro h0
        rw [h0] at hde
        exact hde (ite_self _)
      have := hs.multi hde' hem'
      rwa [hd.em.instr] at this
  · rw [hd'.mw.instr, step_mw_pcAndInstr hr, hl.step_dataM1_pcAndInstr hr]
    cases c.stallDataOk i with
    | true =>
      intro h1
      exact absurd rfl h1
    | false =>
      intro h1 h2
      have := h.dataM1 h1 h2
      rwa [hd.dataM1.instr] at this

theorem Core.sparse_of_pipeReset (hr : c.pipeReset i = true) : (c.step i).Sparse := by
  obtain ⟨_, _, hem, _, hmw⟩ := step_pipeReset hr
  constructor
  · rw [hem]
    exact fun _ hne => absurd rfl hne
  · rw [hmw]
    exact fun hne => absurd rfl hne

end Order

end RiscvCpu
