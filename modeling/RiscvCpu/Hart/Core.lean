import RiscvCpu.Flush
import RiscvCpu.Hart.Order
import RiscvCpu.Refinement

/-!
# The core on a stretch

In write-back the core does what the hart does: it asks the CSR unit for the same, writes the
same register, and reports the same commit.  A record that has an effect before write-back, in
`em`, belongs to the stretch, since a redirecting instruction has nothing close behind it.
-/

namespace RiscvCpu

/-! ## Records of a stretch -/

section Record

variable {x : ℕ → Isa.State} {op : ℕ → Op} {dev : ℕ → BitVec 64} {n : ℕ} {acc : Isa.Access}

/-- The label of an instruction is never that of an illegal one. -/
theorem Op.control_op_ne {o : Op} {w : BitVec 32} (h : Isa.Encodes o w) :
    (o.control w).instr.op ≠ .undefined := by
  cases o with
  | undefined => exact absurd h id
  | _ => exact fun ho => by cases ho

/-- A record of the program is decoded to the control word of its operation, also one that
redirects the pc. -/
theorem FetchData.Is.decodes {d : FetchData} {y : Isa.State} {o : Op} (h : d.Is y)
    (he : Isa.Encodes o y.instr) (hb : y.InBounds o) :
    d.word = y.instr ∧ d.instr = (o.control y.instr).instr ∧
      d.csrCtl = (o.control y.instr).csrCtl := by
  have hword : d.word = y.instr := by
    rw [FetchData.word, h.pcO, if_pos hb.pcAligned, h.rawInstr]
  have hinstr : d.instr = (o.control y.instr).instr := by
    rw [FetchData.instr, hword, decoder_of_encodes he]
  refine ⟨hword, hinstr, ?_⟩
  rw [FetchData.csrCtl, h.pcO, if_neg (not_not_intro hb.pcAligned), hinstr,
    if_neg fun hu => Op.control_op_ne he hu.1, hword, decoder_of_encodes he]

/-- What makes an access is plain. -/
theorem Op.isSystem_of_access {o : Op} (h : Isa.access o = some acc) : o.isSystem = false := by
  by_contra hs
  rw [Op.access_of_isSystem (Bool.not_eq_false _ ▸ hs)] at h
  cases h

theorem Isa.Stretch.fits_access (hx : Isa.Stretch x op dev) (hn : Isa.Ahead op n)
    (h : Isa.access (op n) = some acc) : (x n).Fits (op n) :=
  (hx.inBounds n hn).fits (Op.isSystem_of_access h)

end Record

/-! ## The invariant -/

/-- The core executes the stretch: its records are those of the stretch, the register file
holds the registers before the instruction in write-back, and no load or store behind the
memory stage is misaligned. -/
structure Core.Hosts (c : Core) (x : ℕ → Isa.State) (op : ℕ → Op) (dev : ℕ → BitVec 64)
    (g : Places) : Prop where
  tracks : c.Tracks x op g
  sparse : c.Sparse
  regfile : c.regfile = (x g.mw).regs
  loaded : c.LoadedW x op dev g
  dataM1 : c.memory.dataM1.csrCtl = c.memory.dataM1.pcAndInstr.csrCtl
  mw : c.mw.csrCtl = c.mw.pcAndInstr.csrCtl

section Core

variable {x : ℕ → Isa.State} {op : ℕ → Op} {dev : ℕ → BitVec 64} {c : Core} {i : CoreIn}
  {g : Places} {acc : Isa.Access}

/-! ## Write-back -/

/-- The address of a load is found in write-back. -/
theorem Core.Hosts.mw_address (h : c.Hosts x op dev g) (hx : Isa.Stretch x op dev)
    (ho : c.Orderly i) (hne : c.mw.pcAndInstr ≠ 0) (ha : Isa.access (op g.mw) = some acc) :
    c.mw.aluout = (x g.mw).addr (op g.mw) := by
  obtain ⟨his, _⟩ := h.tracks.mw.is hne
  rw [ho.computes, h.regfile]
  exact his.address (hx.encodes _ h.tracks.ahead) (hx.fits_access h.tracks.ahead ha) ha

/-- No load in write-back is misaligned. -/
theorem Core.Hosts.csrCtlW (h : c.Hosts x op dev g) (hx : Isa.Stretch x op dev)
    (ho : c.Orderly i) (hne : c.mw.pcAndInstr ≠ 0) :
    c.mw.csrCtlW = ((op g.mw).control (x g.mw).instr).csrCtl := by
  obtain ⟨his, _⟩ := h.tracks.mw.is hne
  have hb := hx.inBounds _ h.tracks.ahead
  obtain ⟨_, hinstr, hctl⟩ := his.decodes (hx.encodes _ h.tracks.ahead) hb
  rw [MemoryData.csrCtlW, if_neg]
  · rw [h.mw, hctl]
  · rw [Bool.and_eq_true]
    rintro ⟨hmis, hm⟩
    rw [ho.decoded.mw.instr, hinstr] at hm
    cases ha : Isa.access (op g.mw) with
    | none =>
      rw [(Op.control_noAccess ha).1] at hm
      cases hm
    | some acc =>
      cases acc with
      | store msize =>
        rw [Op.control_store ha] at hm
        cases hm
      | load msize u =>
        refine (isLdMissalign_iff _ _).mp hmis ?_
        rw [h.mw_address hx ho hne ha, ho.decoded.mw.instr, hinstr, Op.control_load ha]
        exact hb.access _ ha

/-- The record in write-back asks the CSR unit for what its instruction does. -/
theorem Core.Hosts.asks (h : c.Hosts x op dev g) (hx : Isa.Stretch x op dev)
    (ho : c.Orderly i) (hne : c.mw.pcAndInstr ≠ 0) : c.mw.Asks (x g.mw) (op g.mw) := by
  obtain ⟨his, _⟩ := h.tracks.mw.is hne
  have he := hx.encodes _ h.tracks.ahead
  obtain ⟨hword, hinstr, _⟩ := his.decodes he (hx.inBounds _ h.tracks.ahead)
  refine ⟨his.pcO, h.csrCtlW hx ho hne, fun hc => ?_⟩
  have hdec := decoder_of_encodes he
  rw [Op.control_isCsr hc] at hdec hinstr
  rw [ho.decoded.mw.instr, hinstr]
  constructor
  · split <;> rfl
  · intro himm
    rw [himm, if_neg Bool.false_ne_true] at hdec hinstr
    rw [← hword] at hdec
    rw [ho.computes, FetchData.result_csrAccess hdec, h.regfile, hinstr]
    rfl

/-- The hart in the middle of the stretch, with the CSR unit of the core. -/
def Core.hart (c : Core) (x : ℕ → Isa.State) (g : Places) : Isa.Hart := ⟨x g.mw, c.csr⟩

theorem Core.Hosts.csrPcNxt (h : c.Hosts x op dev g) (hx : Isa.Stretch x op dev)
    (ho : c.Orderly i) (hne : c.mw.pcAndInstr ≠ 0) (pins : Pins) :
    c.csrPcNxt pins = c.csr.csrPcNxt ((x g.mw).asks (op g.mw)) pins :=
  ((h.asks hx ho hne).step (hx.encodes _ h.tracks.ahead)).1

/-- Without a redirect the instruction in write-back is plain. -/
theorem Core.Hosts.plain (h : c.Hosts x op dev g) (hx : Isa.Stretch x op dev)
    (ho : c.Orderly i) {pins : Pins} (hf : c.csrFlush pins = false)
    (hne : c.mw.pcAndInstr ≠ 0) : (op g.mw).isSystem = false := by
  rw [csrFlush, h.csrPcNxt hx ho hne] at hf
  by_contra hs
  rw [Isa.State.asks_redirects (Bool.not_eq_false _ ▸ hs)] at hf
  cases hf

/-- Without a redirect the hart goes on along the stretch. -/
theorem Core.Hosts.retire_prog (h : c.Hosts x op dev g) (hx : Isa.Stretch x op dev)
    (ho : c.Orderly i) {pins : Pins} (hf : c.csrFlush pins = false)
    (hne : c.mw.pcAndInstr ≠ 0) :
    ((c.hart x g).retire (op g.mw) dev pins).prog = x (g.mw + 1) := by
  have hs := h.plain hx ho hf hne
  rw [csrFlush, h.csrPcNxt hx ho hne] at hf
  rw [hx.next g.mw]
  exact Isa.Hart.retire_prog dev hs hf

/-- The registers behind a plain instruction in write-back. -/
theorem Core.Hosts.valueW (h : c.Hosts x op dev g) (hx : Isa.Stretch x op dev)
    (ho : c.Orderly i) (ha : Isa.Ahead op g.dataM1) (ra : BitVec 5) :
    c.valueW ra = (x g.dataM1).regs ra :=
  h.tracks.valueW hx ho.decoded h.regfile ho.computes h.loaded ha ra

/-- What a record in write-back writes. -/
theorem Core.Hosts.dataW (h : c.Hosts x op dev g) (hx : Isa.Stretch x op dev)
    (ho : c.Orderly i) (hne : c.mw.pcAndInstr ≠ 0) :
    (if c.dataW.regwriteEn then some (c.dataW.writereg, c.dataW.writeData) else none) =
      ((c.hart x g).commit (op g.mw) dev).written := by
  obtain ⟨his, _⟩ := h.tracks.mw.is hne
  have he := hx.encodes _ h.tracks.ahead
  obtain ⟨_, hinstr, _⟩ := his.decodes he (hx.inBounds _ h.tracks.ahead)
  have hmw : c.mw.instr = ((op g.mw).control (x g.mw).instr).instr := by
    rw [ho.decoded.mw.instr]
    exact hinstr
  have hen : c.dataW.regwriteEn = c.mw.instr.ctl.regwriteEn := rfl
  have hreg : c.dataW.writereg = c.mw.instr.writereg := rfl
  have hrd : c.csr.rd c.mw = c.csr.rd ((x g.mw).asks (op g.mw)) := (h.asks hx ho hne).rd
  rw [Isa.Hart.commit, hen, hreg]
  cases hs : (op g.mw).isSystem with
  | false =>
    obtain ⟨hc, hno⟩ := Op.plain_of_isSystem hs
    obtain ⟨hwen, hwreg, _⟩ := Op.control_program he hc hno
    rw [hc, hmw, hwen]
    simp only [Bool.false_eq_true, if_false]
    rw [Isa.State.commit]
    cases hw : Isa.writesRd (op g.mw) with
    | false => rfl
    | true =>
      rw [if_pos rfl, hwreg hw,
        h.tracks.writeData hx ho.decoded h.regfile ho.computes h.loaded hne hs hw]
      rfl
  | true =>
    rcases Op.isSystem_cases hs with hc | hec | hmr
    · have hacc := hmw
      rw [Op.control_isCsr hc] at hacc
      have hval : c.dataW.writeData = c.csr.rd c.mw := by
        split at hacc
        · exact writeData_csrAccess hacc hc
        · exact writeData_csrAccess hacc hc
      rw [hval, hrd, hc, hacc]
      split <;> rfl
    · rw [hmw, hec]
      rfl
    · rw [hmw, hmr]
      rfl

/-- The report of write-back is the commit of the hart. -/
theorem Core.Hosts.difftestInstrCommit (h : c.Hosts x op dev g) (hx : Isa.Stretch x op dev)
    (ho : c.Orderly i) :
    c.difftestInstrCommit =
      if c.mw.pcAndInstr = 0 then none else some ((c.hart x g).commit (op g.mw) dev) := by
  by_cases h0 : c.mw.pcAndInstr = 0
  · rw [if_pos h0, Core.difftestInstrCommit, h0]
    rfl
  · obtain ⟨his, _⟩ := h.tracks.mw.is h0
    have hne : c.mw.pcAndInstr.rawInstr ≠ 0 := by
      rw [his.rawInstr]
      exact (hx.encodes _ h.tracks.ahead).ne_zero
    rw [if_neg h0, Core.difftestInstrCommit, if_neg hne, h.dataW hx ho h0, his.pcO, his.rawInstr]
    rfl

/-- The registers behind write-back are those of the hart after its instruction. -/
theorem Core.Hosts.regsNxt (h : c.Hosts x op dev g) (hx : Isa.Stretch x op dev)
    (ho : c.Orderly i) (hne : c.mw.pcAndInstr ≠ 0) :
    c.valueW = (c.hart x g).regsNxt (op g.mw) dev := by
  obtain ⟨his, hm1⟩ := h.tracks.mw.is hne
  have he := hx.encodes _ h.tracks.ahead
  obtain ⟨_, hinstr, _⟩ := his.decodes he (hx.inBounds _ h.tracks.ahead)
  have hmw : c.mw.instr = ((op g.mw).control (x g.mw).instr).instr := by
    rw [ho.decoded.mw.instr]
    exact hinstr
  have hrd : c.csr.rd c.mw = c.csr.rd ((x g.mw).asks (op g.mw)) := (h.asks hx ho hne).rd
  funext ra
  cases hs : (op g.mw).isSystem with
  | false =>
    rw [Isa.Hart.regsNxt, (Op.plain_of_isSystem hs).1, hs,
      h.valueW hx ho (hm1 ▸ h.tracks.ahead.succ hs), hm1, hx.next g.mw]
    rfl
  | true =>
    rcases Op.isSystem_cases hs with hc | hec | hmr
    · have hacc := hmw
      rw [Op.control_isCsr hc] at hacc
      have hval : c.dataW.writeData = c.csr.rd c.mw := by
        split at hacc
        · exact writeData_csrAccess hacc hc
        · exact writeData_csrAccess hacc hc
      have hwrites : c.mw.instr.writes c.mw.instr.ctl.regwriteEn ra =
          (writeregOf (x g.mw).instr != 0 && ra == writeregOf (x g.mw).instr) := by
        rw [hacc]
        split <;> rfl
      rw [Isa.Hart.regsNxt_csr dev hc, Core.valueW, hwrites, hval, hrd, h.regfile]
      rfl
    · rw [Core.valueW, hmw, Isa.Hart.regsNxt, hec, h.regfile]
      rfl
    · rw [Core.valueW, hmw, Isa.Hart.regsNxt, hmr, h.regfile]
      rfl

/-! ## Before write-back -/

/-- Without a redirect the values behind the records are in order. -/
theorem Core.Orderly.settled (ho : c.Orderly i) (hf : c.csrFlush i.pins = false) :
    c.InOrder := by
  refine ho.inOrder ?_
  by_contra hc
  rw [ho.decoded.csrFlush_of_isCsr (Bool.not_eq_false _ ▸ hc)] at hf
  cases hf

/-- Without a redirect the stretch goes on behind write-back. -/
theorem Core.Hosts.ahead_dataM1 (h : c.Hosts x op dev g) (hx : Isa.Stretch x op dev)
    (ho : c.Orderly i) (hf : c.csrFlush i.pins = false) : Isa.Ahead op g.dataM1 := by
  rcases h.tracks.mw with ⟨_, hg⟩ | ⟨his, hg⟩
  · rw [hg]
    exact h.tracks.ahead
  · rw [hg]
    exact h.tracks.ahead.succ
      (h.plain hx ho hf (his.ne_zero (hx.encodes _ h.tracks.ahead)))

/-- A multiplication or division is told by its control word. -/
theorem FetchData.Is.isSystem_of_multicycle {d : FetchData} {n : ℕ} (h : d.Is (x n))
    (hx : Isa.Stretch x op dev) (hn : Isa.Ahead op n)
    (hm : d.instr.ctl.aluop = .aluMulticycle) : (op n).isSystem = false := by
  refine Op.isSystem_of_isMulDiv ?_
  by_contra hno
  rw [(h.decodes (hx.encodes n hn) (hx.inBounds n hn)).2.1] at hm
  exact Op.control_multicycle (Bool.not_eq_true _ ▸ hno) hm

/-- A record in `em` belongs to the stretch.  Close in front of it are multiplications and
divisions alone. -/
theorem Core.Hosts.ahead_em (h : c.Hosts x op dev g) (hx : Isa.Stretch x op dev)
    (ho : c.Orderly i) (hf : c.csrFlush i.pins = false) (hne : c.em.pcAndInstr ≠ 0) :
    Isa.Ahead op g.em := by
  have hm1 := h.ahead_dataM1 hx ho hf
  rcases h.tracks.dataM1.spans hm1 with ⟨_, hg⟩ | ⟨his, hg⟩
  · rw [hg]
    exact hm1
  · rw [hg]
    have hmul := h.sparse.dataM1 (his.ne_zero (hx.encodes _ hm1)) hne
    rw [ho.decoded.dataM1.instr] at hmul
    exact hm1.succ (his.isSystem_of_multicycle hx hm1 hmul)

theorem Core.Hosts.em_is (h : c.Hosts x op dev g) (hx : Isa.Stretch x op dev)
    (ho : c.Orderly i) (hf : c.csrFlush i.pins = false) (hne : c.em.pcAndInstr ≠ 0) :
    c.em.pcAndInstr.Is (x g.em) ∧ g.de = g.em + 1 :=
  h.tracks.em.is (h.ahead_em hx ho hf hne) hne

/-- A load or store in `em` has its address, and a store its data. -/
theorem Core.Hosts.em_access (h : c.Hosts x op dev g) (hx : Isa.Stretch x op dev)
    (ho : c.Orderly i) (hf : c.csrFlush i.pins = false) (hne : c.em.pcAndInstr ≠ 0)
    (ha : Isa.access (op g.em) = some acc) :
    c.em.aluout = (x g.em).addr (op g.em) ∧
      ∀ msize, acc = .store msize → c.em.memwData = (x g.em).rs2 := by
  have hin := ho.settled hf
  have hahead := h.ahead_em hx ho hf hne
  obtain ⟨his, _⟩ := h.em_is hx ho hf hne
  have he := hx.encodes _ hahead
  have hfit := hx.fits_access hahead ha
  have hinstr := (his.instr he hfit).2
  have hloads := hin.loads_em
  rw [ho.decoded.em.instr] at hloads
  have hW := h.valueW hx ho (h.ahead_dataM1 hx ho hf)
  have hval : ∀ ra, ra = c.em.pcAndInstr.instr.ra1 ∨ ra = c.em.pcAndInstr.instr.ra2 →
      c.valueM1 ra = (x g.em).regs ra := fun ra hra =>
    h.tracks.valueM1 hx ho.decoded hin hW hahead (hloads ra hra)
  constructor
  · rw [hin.em.aluout, hval _ (.inl rfl), hval _ (.inr rfl)]
    exact his.address he hfit ha
  · rintro msize rfl
    have hm : c.em.pcAndInstr.instr.ctl.aluop ≠ .aluMulticycle := by
      rw [hinstr, Op.control_store ha]
      intro hc
      cases hc
    rw [hin.em.memwData hm, hval _ (.inr rfl), hinstr, Op.control_store ha]
    rfl

/-- No store that moves on to `dataM1` is misaligned. -/
theorem Core.Hosts.dataMtmp (h : c.Hosts x op dev g) (hx : Isa.Stretch x op dev)
    (ho : c.Orderly i) (hf : c.csrFlush i.pins = false) :
    c.em.dataMtmp.csrCtl = c.em.pcAndInstr.csrCtl := by
  rw [ExecuteData.dataMtmp]
  refine (if_neg ?_).trans ho.decoded.em.csrCtl
  rw [Bool.and_eq_true]
  rintro ⟨hmis, hm⟩
  rw [ho.decoded.em.instr] at hm
  by_cases h0 : c.em.pcAndInstr = 0
  · rw [h0, FetchData.instr_zero] at hm
    cases hm
  · have hahead := h.ahead_em hx ho hf h0
    have hb := hx.inBounds _ hahead
    have hinstr := ((h.em_is hx ho hf h0).1.decodes (hx.encodes _ hahead) hb).2.1
    rw [hinstr] at hm
    cases ha : Isa.access (op g.em) with
    | none =>
      rw [(Op.control_noAccess ha).2] at hm
      cases hm
    | some acc =>
      cases acc with
      | load msize u =>
        rw [Op.control_load ha] at hm
        cases hm
      | store msize =>
        refine (isSdMissalign_iff _).mp hmis ?_
        rw [(h.em_access hx ho hf h0 ha).1, ho.decoded.em.instr, hinstr, Op.control_store ha]
        exact hb.access _ ha

/-! ## One cycle -/

/-- A cycle without a redirect, with the right words from fetch and the right data for a load
that reaches write-back. -/
theorem Core.Hosts.step {dataOk : Bool} (h : c.Hosts x op dev g) (hx : Isa.Stretch x op dev)
    (ho : c.Orderly i) (hs : c.Spaced dataOk) (hr : c.pipeReset i = false)
    (hcode : ∀ n, Isa.Ahead op n → c.iDataOk i = true → c.fetch.pc = (x n).pc →
      c.fetch.dataFRawInstr i.iresp = (x n).instr)
    (hload : (c.step i).LoadedW x op dev (g.next op c i)) :
    (c.step i).Hosts x op dev (g.next op c i) := by
  have hf := csrFlush_of_pipeReset hr
  have hahead := h.ahead_dataM1 hx ho hf
  have hW := h.valueW hx ho hahead
  refine ⟨h.tracks.step hx ho.lossless hr hahead (fun ha hne hready => ?_) hcode,
    h.sparse.step hs ho.lossless ho.decoded hr, ?_, hload, ?_, ?_⟩
  · exact h.tracks.instrCommit hx ho.decoded (ho.settled hf) hW ha hne hready
  · funext ra
    rw [step_regfile ho.regfile_zero (reset_of_pipeReset hr)]
    exact hW ra
  · cases hst : c.stallDataOk i with
    | true =>
      rw [ho.lossless.step_dataM1_stall hr hst]
      exact h.dataM1
    | false =>
      obtain ⟨y, hy⟩ := ho.lossless.step_dataM1 hr hst
      rw [hy]
      exact h.dataMtmp hx ho hf
  · rw [step_mw hr]
    split
    · exact FetchData.csrCtl_zero.symm
    · exact h.dataM1

/-- A multiplication or division is not interrupted. -/
def Core.Precise (c : Core) (pins : Pins) : Prop :=
  c.csr.isInterupt c.mw pins = true → c.mw.instr.ctl.aluop ≠ .aluMulticycle

instance Core.decidablePrecise (c : Core) (pins : Pins) : Decidable (c.Precise pins) :=
  inferInstanceAs (Decidable (_ → _))

/-- A redirect is made by an instruction in write-back, and behind it stands a bubble. -/
theorem Core.Hosts.flush (h : c.Hosts x op dev g) (hx : Isa.Stretch x op dev)
    (ho : c.Orderly i) {pins : Pins} (hp : c.Precise pins) (hf : c.csrFlush pins = true) :
    c.mw.pcAndInstr ≠ 0 ∧ g.dataM1 = g.mw + 1 ∧ g.em = g.mw + 1 := by
  have hne : c.mw.pcAndInstr ≠ 0 := by
    intro h0
    rw [ho.decoded.csrFlush_of_bubble h0] at hf
    cases hf
  have hmul : c.mw.instr.ctl.aluop ≠ .aluMulticycle := by
    cases hi : c.csr.isInterupt c.mw pins with
    | true => exact hp hi
    | false =>
      have hred : c.Redirects pins := by
        simpa [Core.csrFlush, Core.csrPcNxt, Csr.csrPcNxt, Csr.excOrInt, hi, Redirects, or_assoc]
          using hf
      rw [ho.decoded.mw.instr]
      exact ho.decoded.redirects_aluop hred
  have hm1 : c.memory.dataM1.pcAndInstr = 0 := by
    by_contra hm1
    exact hmul (h.sparse.mw hne hm1)
  obtain ⟨_, hg⟩ := h.tracks.mw.is hne
  refine ⟨hne, hg, ?_⟩
  have htr := h.tracks.dataM1
  rw [hm1] at htr
  by_cases ha : Isa.Ahead op g.dataM1
  · rcases htr.spans ha with ⟨_, hg'⟩ | ⟨his, _⟩
    · rw [hg', hg]
    · exact absurd rfl (his.ne_zero (hx.encodes _ ha))
  · rw [htr.behind ha, hg]

/-- After a reset or a redirect a stretch begins. -/
theorem Core.hosts_of_pipeReset (hr : c.pipeReset i = true)
    (hpc : (c.step i).fetch.pc = (x 0).pc) (hregs : (c.step i).regfile = (x 0).regs) :
    (c.step i).Hosts x op dev ⟨0, 0, 0, 0, 0, 0⟩ := by
  obtain ⟨hfd, hde, hem, hmem, hmw⟩ := step_pipeReset hr
  refine ⟨⟨Isa.ahead_zero op, ?_, ?_, ?_, ?_, fun _ => ?_, fun _ => rfl⟩,
    sparse_of_pipeReset hr, hregs, ?_, ?_, ?_⟩
  · rw [hmw]
    exact FetchData.spans_bubble x 0
  · rw [hmem]
    exact FetchData.tracks_bubble x op 0
  · rw [hem]
    exact FetchData.tracks_bubble x op 0
  · rw [hde]
    exact FetchData.tracks_bubble x op 0
  · refine ⟨?_, fun _ => hpc, fun hne => absurd hfd hne⟩
    rw [hfd]
    exact FetchData.spans_bubble x 0
  · intro hne
    exact absurd (congrArg MemoryData.pcAndInstr hmw) hne
  · rw [hmem]
    exact FetchData.csrCtl_zero.symm
  · rw [hmw]
    exact FetchData.csrCtl_zero.symm

end Core

end RiscvCpu
