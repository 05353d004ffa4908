import RiscvCpu.ExecuteIsa
import RiscvCpu.MulDiv
import RiscvCpu.Operands

/-!
# Results in program order

Every record behind execute carries the result the instruction has for the values that
its registers have in front of it.  In write-back these are the contents of the
register file, so an instruction arrives there with the result for the state the older
ones have left.

The values a record is judged by move with the records in front of it
(`Core.valueE`, `Core.valueM1`, `Core.valueW`), and a multiplication or division under
way keeps the operands of its first cycle while these records drain.
-/

namespace RiscvCpu

/-! ## The multicycle unit, cycle by cycle -/

section Unit

variable {m : Multicycle} {op : Op} {a b x y : BitVec 64}

/-- No operation is under way. -/
structure Multicycle.Idle (m : Multicycle) : Prop where
  mul : m.mulT.mul0.state = .init
  div : m.divT.div0.state = .init

/-- An operation on `a` and `b` is under way. -/
def Multicycle.Working (m : Multicycle) (op : Op) (a b : BitVec 64) : Prop :=
  (mulvalid op = true ∧ m.Multiplying op a b) ∨
    ∃ j ≤ 64, op.isDiv = true ∧ zeroDivisor op b = false ∧ m.Dividing op a b j

theorem Multicycle.idle_of_reset : (m.step true op a b).Idle := ⟨rfl, rfl⟩

/-- The cycle that shows the result is the last one. -/
theorem Multicycle.idle_of_done (h : m.doing op b = false) : (m.step false op a b).Idle := by
  simp only [doing, Bool.not_eq_false', Bool.and_eq_true, MultiplierTop.done, Multiplier.done,
    DividerTop.done, Divider.done, beq_iff_eq] at h
  exact ⟨h.1, h.2⟩

/-- What is no multiplication or division leaves the unit alone. -/
theorem Multicycle.Idle.step (h : m.Idle) (ho : op.isMulDiv = false) :
    (m.step false op a b).Idle := by
  have hm : mulvalid op = false := by
    cases op <;> first | rfl | cases ho
  have hd : m.divT.divvalid op b = false := by
    cases op <;> first | rfl | cases ho
  constructor
  · simp [Multicycle.step, MultiplierTop.step, Multiplier.step, Multiplier.stateNxt, h.mul, hm]
  · simp [Multicycle.step, DividerTop.step, Divider.step, Divider.stateNxt, h.div, hd]

/-- The first cycle of an operation. -/
theorem Multicycle.Idle.start (h : m.Idle) (ho : op.isMulDiv = true) :
    (m.doing op b = true ∧ (m.step false op a b).Working op a b) ∨
      (m.doing op b = false ∧ m.multiC op a b = Isa.mulDiv op a b) := by
  cases hmul : mulvalid op with
  | true =>
    obtain ⟨hdoing, hm⟩ := start_multiplying hmul h.mul h.div
    exact .inl ⟨hdoing, .inl ⟨hmul, hm⟩⟩
  | false =>
    have hdiv : op.isDiv = true := by
      rw [Op.isDiv, ho, hmul]
      rfl
    cases hz : zeroDivisor op b with
    | true => exact .inr (divide_zero hdiv hz h.mul h.div)
    | false =>
      obtain ⟨hdoing, hd⟩ := start_dividing hdiv hz h.mul h.div
      exact .inl ⟨hdoing, .inr ⟨0, by omega, hdiv, hz, hd⟩⟩

/-- A further cycle of an operation, whatever the operand inputs show. -/
theorem Multicycle.Working.step (h : m.Working op a b) :
    (m.doing op y = true ∧ (m.step false op x y).Working op a b) ∨
      (m.doing op y = false ∧ m.multiC op x y = Isa.mulDiv op a b) := by
  rcases h with ⟨hmul, hm⟩ | ⟨j, hj, hdiv, hz, hd⟩
  · exact .inr (hm.last hmul)
  · rcases Nat.lt_or_eq_of_le hj with hlt | rfl
    · obtain ⟨hdoing, hnext⟩ := hd.step hdiv hlt
      exact .inl ⟨hdoing, .inr ⟨j + 1, hlt, hdiv, hz, hnext⟩⟩
    · exact .inr (hd.last hdiv hz)

end Unit

/-! ## Results -/

/-- What an instruction computes from the values of its registers. -/
def FetchData.result (d : FetchData) (x y : BitVec 64) : BitVec 64 :=
  if d.instr.ctl.aluop = .aluMulticycle then Isa.mulDiv d.instr.op x y
  else ((d.dataD x y).dataE x y 0).aluout

/-- The record in `em` has the result for the register values `val`, and the value to
store. -/
structure ExecuteData.Computes (e : ExecuteData) (val : BitVec 5 → BitVec 64) : Prop where
  aluout : e.aluout =
    e.pcAndInstr.result (val e.pcAndInstr.instr.ra1) (val e.pcAndInstr.instr.ra2)
  memwData : e.pcAndInstr.instr.ctl.aluop ≠ .aluMulticycle →
    e.memwData = val e.pcAndInstr.instr.ra2

/-- The same of a record behind it. -/
def MemoryData.Computes (d : MemoryData) (val : BitVec 5 → BitVec 64) : Prop :=
  d.aluout = d.pcAndInstr.result (val d.pcAndInstr.instr.ra1) (val d.pcAndInstr.instr.ra2)

theorem FetchData.result_zero : (0 : FetchData).result 0 0 = 0 := by decide +kernel

section Values

variable {c : Core}

theorem Core.valueW_zero (h0 : c.regfile 0 = 0) : c.valueW 0 = 0 := by
  rw [valueW, Instr.writes_ra_zero, if_neg Bool.false_ne_true, h0]

theorem Core.valueM1_zero (h0 : c.regfile 0 = 0) : c.valueM1 0 = 0 := by
  rw [valueM1, Instr.writes_ra_zero, if_neg Bool.false_ne_true, valueW_zero h0]

theorem Core.valueE_zero (h0 : c.regfile 0 = 0) : c.valueE 0 = 0 := by
  rw [valueE, Instr.writes_ra_zero, if_neg Bool.false_ne_true, valueM1_zero h0]

theorem ExecuteData.Computes.zero {val : BitVec 5 → BitVec 64} (h0 : val 0 = 0) :
    (0 : ExecuteData).Computes val := by
  have hra : (0 : FetchData).instr = 0 := FetchData.instr_zero
  constructor
  · show (0 : BitVec 64) = (0 : FetchData).result (val (0 : FetchData).instr.ra1)
      (val (0 : FetchData).instr.ra2)
    rw [hra]
    change 0 = (0 : FetchData).result (val 0) (val 0)
    rw [h0, FetchData.result_zero]
  · intro _
    change 0 = val (0 : FetchData).instr.ra2
    rw [hra]
    exact h0.symm

end Values

/-! ## The invariant -/

/-- Execute reads the values behind `em`. -/
structure Core.Reads (c : Core) : Prop where
  ra1 : c.a = c.valueE c.de.instr.ra1
  ra2 : c.regdatab = c.valueE c.de.instr.ra2

/-- What holds of the records while no CSR instruction is in write-back. -/
structure Core.InOrder (c : Core) : Prop where
  /-- A multiplication or division under way has its operands.  What execute reads may
  change once the records in front have moved on, which they do until a bubble is left. -/
  unit : (c.execute.Idle ∧ c.Reads) ∨
    (c.de.instr.ctl.aluop = .aluMulticycle ∧
      c.execute.Working c.de.instr.op (c.valueE c.de.instr.ra1) (c.valueE c.de.instr.ra2) ∧
      (c.Reads ∨ (c.em = 0 ∧ c.memory.state ≠ .memory10)))
  loads_de : ∀ ra, ra = c.de.instr.ra1 ∨ ra = c.de.instr.ra2 → c.NoLoad ra
  em : c.em.Computes c.valueM1
  loads_em : ∀ ra, ra = c.em.instr.ra1 ∨ ra = c.em.instr.ra2 →
    c.memory.dataM1.instr.writes c.memory.dataM1.instr.ctl.memrEn ra = false
  dataM1 : c.memory.dataM1.Computes c.valueW

section Step

variable {c : Core} {i : CoreIn}

/-- The result of execute depends on the word and the operands alone. -/
theorem DecodeData.aluout_eq {d : DecodeData} (hd : d.IsDecoded)
    (hm : d.instr.ctl.aluop ≠ .aluMulticycle) (x y multiC : BitVec 64) :
    (d.dataE x y multiC).aluout = d.pcAndInstr.result x y := by
  obtain ⟨pcsrc, pcO, instr, rd1, rd2, d, csrCtl⟩ := d
  obtain rfl : instr = d.instr := hd.instr
  rw [FetchData.result, if_neg hm]
  exact (if_neg hm).trans (if_neg hm).symm

theorem Core.doing_of_multicycle (hm : c.de.instr.ctl.aluop = .aluMulticycle) :
    c.multicycleDoing = c.execute.doing c.de.instr.op c.b := by
  rw [multicycleDoing, hm]
  exact Bool.and_true _

/-- The operands of the multicycle unit are the two registers. -/
theorem Core.Decoded.multicycle (hd : c.Decoded)
    (hm : c.de.instr.ctl.aluop = .aluMulticycle) :
    c.de.instr.op.isMulDiv = true ∧ c.b = c.regdatab := by
  rw [hd.de.instr] at hm ⊢
  refine ⟨FetchData.multicycle_isMulDiv hm, ?_⟩
  have hsrc : c.de.pcAndInstr.instr.ctl.alusrc = .rd2 :=
    c.de.pcAndInstr.shape.multicycle_alusrc hm
  rw [Core.b, DecodeData.srcB, hd.de.instr, hsrc]

/-- What leaves execute is the result for the values behind `em`. -/
theorem Core.InOrder.dataE (h : c.InOrder) (hd : c.Decoded) (hdone : c.multicycleDoing = false) :
    c.dataE.aluout =
      c.de.pcAndInstr.result (c.valueE c.de.instr.ra1) (c.valueE c.de.instr.ra2) := by
  by_cases hm : c.de.instr.ctl.aluop = .aluMulticycle
  · obtain ⟨hop, hb⟩ := hd.multicycle hm
    rw [doing_of_multicycle hm] at hdone
    have hc : c.execute.multiC c.de.instr.op c.a c.b =
        Isa.mulDiv c.de.instr.op (c.valueE c.de.instr.ra1) (c.valueE c.de.instr.ra2) := by
      rcases h.unit with ⟨hidle, hr⟩ | ⟨_, hw, _⟩
      · rw [← hr.ra1, ← hr.ra2, ← hb]
        rcases hidle.start (a := c.a) (b := c.b) hop with ⟨hdoing, _⟩ | ⟨_, hres⟩
        · rw [hdone] at hdoing
          cases hdoing
        · exact hres
      · rcases hw.step (x := c.a) (y := c.b) with ⟨hdoing, _⟩ | ⟨_, hres⟩
        · rw [hdone] at hdoing
          cases hdoing
        · exact hres
    rw [Core.dataE, DecodeData.dataE, DecodeData.aluout, if_pos hm, hc, FetchData.result,
      ← hd.de.instr, if_pos hm]
  · rcases h.unit with ⟨_, hr⟩ | ⟨hm', _⟩
    · rw [← hr.ra1, ← hr.ra2, ← DecodeData.aluout_eq hd.de hm]
      rfl
    · exact absurd hm' hm

theorem Core.step_execute (hr : c.pipeReset i = false) :
    (c.step i).execute = c.execute.step false c.de.instr.op c.a c.b := by
  rw [← hr]
  rfl

/-- The multicycle unit comes to rest with the result. -/
theorem Core.InOrder.step_idle (h : c.InOrder) (hd : c.Decoded) (hr : c.pipeReset i = false)
    (hdone : c.multicycleDoing = false) : (c.step i).execute.Idle := by
  rw [step_execute hr]
  by_cases hm : c.de.instr.ctl.aluop = .aluMulticycle
  · rw [doing_of_multicycle hm] at hdone
    exact Multicycle.idle_of_done hdone
  · have hop : c.de.instr.op.isMulDiv = false := by
      by_contra hc
      rw [hd.de.instr] at hm hc
      exact hm (decoder_isMulDiv (Bool.not_eq_false _ ▸ hc))
    rcases h.unit with ⟨hidle, _⟩ | ⟨hm', _⟩
    · exact hidle.step hop
    · exact absurd hm' hm

/-- An operation under way keeps its operands. -/
theorem Core.InOrder.step_working (h : c.InOrder) (hd : c.Decoded) (hr : c.pipeReset i = false)
    (hdoing : c.multicycleDoing = true) :
    c.de.instr.ctl.aluop = .aluMulticycle ∧
      (c.step i).execute.Working c.de.instr.op (c.valueE c.de.instr.ra1)
        (c.valueE c.de.instr.ra2) := by
  have hm : c.de.instr.ctl.aluop = .aluMulticycle := by
    simp only [multicycleDoing, Bool.and_eq_true, beq_iff_eq] at hdoing
    exact hdoing.2
  obtain ⟨hop, hb⟩ := hd.multicycle hm
  rw [doing_of_multicycle hm] at hdoing
  rw [step_execute hr]
  refine ⟨hm, ?_⟩
  rcases h.unit with ⟨hidle, hreads⟩ | ⟨_, hw, _⟩
  · rcases hidle.start (a := c.a) (b := c.b) hop with ⟨_, hw⟩ | ⟨hdone, _⟩
    · have hb' : c.b = c.valueE c.de.instr.ra2 := hb.trans hreads.ra2
      rw [← hreads.ra1, ← hb']
      exact hw
    · rw [hdoing] at hdone
      cases hdone
  · rcases hw.step (x := c.a) (y := c.b) with ⟨_, hw'⟩ | ⟨hdone, _⟩
    · exact hw'
    · rw [hdoing] at hdone
      cases hdone

/-! ## Bubbles -/

theorem Core.noLoad_zero (c : Core) : c.NoLoad 0 where
  em := Instr.writes_ra_zero _ _
  dataM1 := Instr.writes_ra_zero _ _

theorem MemoryData.Computes.zero {val : BitVec 5 → BitVec 64} (h0 : val 0 = 0) :
    (0 : MemoryData).Computes val :=
  (ExecuteData.Computes.zero h0).aluout

/-- A bubble in `de` reads register zero. -/
theorem Core.operandE_zero (c : Core) (rd : BitVec 64) : c.operandE 0 rd = rd := by
  rw [operandE_eq, Instr.writes_ra_zero, Instr.writes_ra_zero]
  rfl

theorem Core.reads_of_bubble (hde : c.de = 0) (h0 : c.regfile 0 = 0) : c.Reads := by
  have hread : c.operandE 0 0 = c.valueE 0 := by
    rw [operandE_zero, valueE_zero h0]
  constructor
  · rw [Core.a, hde]
    exact hread
  · rw [Core.regdatab, hde]
    exact hread

theorem Core.loads_of_bubble (hde : c.de = 0) (ra : BitVec 5)
    (hra : ra = c.de.instr.ra1 ∨ ra = c.de.instr.ra2) : c.NoLoad ra := by
  rw [hde] at hra
  obtain rfl : ra = 0 := by
    rcases hra with h | h <;> exact h
  exact c.noLoad_zero

theorem Core.loads_of_bubble_em (hem : c.em = 0) (ra : BitVec 5)
    (hra : ra = c.em.instr.ra1 ∨ ra = c.em.instr.ra2) :
    c.memory.dataM1.instr.writes c.memory.dataM1.instr.ctl.memrEn ra = false := by
  rw [hem] at hra
  obtain rfl : ra = 0 := by
    rcases hra with h | h <;> exact h
  exact Instr.writes_ra_zero _ _

/-! ## One cycle -/

theorem Core.inOrder_of_pipeReset (hr : c.pipeReset i = true) : (c.step i).InOrder := by
  obtain ⟨_, hde, hem, hm, _⟩ := step_pipeReset hr
  have h0 := c.step_regfile_zero i
  have hm1 : (c.step i).memory.dataM1 = 0 := by
    rw [hm]
  have hidle : (c.step i).execute.Idle := by
    change (Multicycle.step _ (c.pipeReset i) _ _ _).Idle
    rw [hr]
    exact Multicycle.idle_of_reset
  refine ⟨.inl ⟨hidle, reads_of_bubble hde h0⟩, loads_of_bubble hde, ?_,
    loads_of_bubble_em hem, ?_⟩
  · rw [hem]
    exact .zero (valueM1_zero h0)
  · rw [hm1]
    exact .zero (valueW_zero h0)

/-- The records behind write-back, and what becomes of their values in a stall. -/
structure Core.Held (c d : Core) : Prop where
  de : d.de = c.de
  em : d.em = c.em
  dataM1 : d.memory.dataM1 = c.memory.dataM1
  valueW : ∀ ra, d.valueW ra = c.valueW ra
  valueM1 : ∀ ra, d.valueM1 ra = c.valueM1 ra
  valueE : ∀ ra, d.valueE ra = c.valueE ra

theorem Core.held_of_stall (hl : c.Lossless i) (h0 : c.regfile 0 = 0)
    (hr : c.pipeReset i = false) (hs : c.stallDataOk i = true) : c.Held (c.step i) := by
  have hde : (c.step i).de = c.de := by
    rw [step_de hr, hs]
    rfl
  have hem : (c.step i).em = c.em := by
    rw [step_em hr, hs]
    rfl
  have hm1 := hl.step_dataM1_stall hr hs
  have hW := step_valueW_stall h0 hr hs
  have hM1 : ∀ ra, (c.step i).valueM1 ra = c.valueM1 ra := by
    intro ra
    rw [valueM1, valueM1, hm1, hW]
  refine ⟨hde, hem, hm1, hW, hM1, fun ra => ?_⟩
  rw [valueE, valueE, hem, hM1]

/-- Held records read what they have read. -/
theorem Core.Held.reads {d : Core} (h : c.Held d) (hr : c.Reads) : d.Reads := by
  have hread : ∀ ra rd, d.operandE ra rd = c.operandE ra rd := by
    intro ra rd
    rw [operandE_eq, operandE_eq, h.em, h.dataM1]
  constructor
  · rw [Core.a, hread, h.valueE, h.de]
    exact hr.ra1
  · rw [Core.regdatab, hread, h.valueE, h.de]
    exact hr.ra2

/-- A stall of the memory stage keeps the records behind write-back and their values. -/
theorem Core.InOrder.step_stall {dataOk dataOkNxt : Bool} (h : c.InOrder) (hd : c.Decoded)
    (hq : c.Queued dataOk dataOkNxt) (hl : c.Lossless i) (h0 : c.regfile 0 = 0)
    (hr : c.pipeReset i = false) (hs : c.stallDataOk i = true) : (c.step i).InOrder := by
  have hheld := held_of_stall hl h0 hr hs
  -- a stall has a load or store in `em`, or nothing will ever move again
  have hreads : c.Reads := by
    rcases h.unit with ⟨_, hreads⟩ | ⟨_, _, hreads | ⟨hem, hst⟩⟩
    · exact hreads
    · exact hreads
    · rcases hq.of_stall hr hs with hmem | ⟨h10, _⟩
      · rw [hem] at hmem
        cases hmem
      · exact absurd h10 hst
  refine ⟨?_, ?_, ?_, ?_, ?_⟩
  · cases hdoing : c.multicycleDoing with
    | true =>
      obtain ⟨hm, hw⟩ := h.step_working hd hr hdoing
      rw [hheld.de, hheld.valueE, hheld.valueE]
      exact .inr ⟨hm, hw, .inl (hheld.reads hreads)⟩
    | false => exact .inl ⟨h.step_idle hd hr hdoing, hheld.reads hreads⟩
  · rw [hheld.de]
    intro ra hra
    have hno := h.loads_de ra hra
    constructor
    · rw [hheld.em]
      exact hno.em
    · rw [hheld.dataM1]
      exact hno.dataM1
  · rw [hheld.em, funext hheld.valueM1]
    exact h.em
  · rw [hheld.em, hheld.dataM1]
    exact h.loads_em
  · rw [hheld.dataM1, funext hheld.valueW]
    exact h.dataM1

/-- What holds behind execute once the records have moved. -/
theorem Core.InOrder.step_moved (h : c.InOrder) (hd : c.Decoded) (hl : c.Lossless i)
    (h0 : c.regfile 0 = 0) (hr : c.pipeReset i = false) (hs : c.stallDataOk i = false)
    (hc : (c.step i).mw.instr.op.isCsr = false) :
    (c.step i).memory.dataM1.Computes (c.step i).valueW ∧
    (∀ ra, ra = c.de.instr.ra1 ∨ ra = c.de.instr.ra2 →
      (c.step i).memory.dataM1.instr.writes (c.step i).memory.dataM1.instr.ctl.memrEn ra = false ∧
      (c.step i).valueM1 ra = c.valueE ra) := by
  obtain ⟨x, hm1⟩ := hl.step_dataM1 hr hs
  constructor
  · have hval : ∀ ra, ra = c.em.instr.ra1 ∨ ra = c.em.instr.ra2 →
        (c.step i).valueW ra = c.valueM1 ra :=
      fun ra hra => hd.step_valueW h0 hr hs (h.loads_em ra hra) hc
    have hout := h.em.aluout
    rw [hd.em.instr] at hval
    rw [← hval _ (.inl rfl), ← hval _ (.inr rfl)] at hout
    rw [hm1]
    exact hout
  · intro ra hra
    have hno := h.loads_de ra hra
    refine ⟨?_, hl.step_valueM1 hd h0 hr hs hno hc⟩
    rw [hm1]
    exact hno.em

/-- The multicycle unit holds its instruction while the records in front move on. -/
theorem Core.InOrder.step_doing {dataOk dataOkNxt : Bool} (h : c.InOrder) (hd : c.Decoded)
    (hq : c.Queued dataOk dataOkNxt) (hmute : c.Mute i) (hl : c.Lossless i)
    (h0 : c.regfile 0 = 0) (hr : c.pipeReset i = false) (hs : c.stallDataOk i = false)
    (hdoing : c.multicycleDoing = true) (hc : (c.step i).mw.instr.op.isCsr = false) :
    (c.step i).InOrder := by
  have h0' := c.step_regfile_zero i
  obtain ⟨hm, hw⟩ := h.step_working hd hr hdoing
  obtain ⟨hout, hval⟩ := h.step_moved hd hl h0 hr hs hc
  have hde : (c.step i).de = c.de := by
    rw [step_de hr, hs, hdoing]
    rfl
  have hem : (c.step i).em = 0 := by
    rw [step_em hr, hs, hdoing]
    rfl
  -- with a bubble in `em` the values behind it are those behind `dataM1`
  have hE : ∀ ra, (c.step i).valueE ra = (c.step i).valueM1 ra := by
    intro ra
    rw [valueE, hem, if_neg]
    exact Bool.false_ne_true
  have hne : c.de ≠ 0 := by
    intro hz
    rw [hz] at hm
    cases hm
  have hmem : c.de.instr.ctl.isMem = false := by
    by_contra hmem
    rw [hd.not_multicycleDoing (Bool.not_eq_false _ ▸ hmem)] at hdoing
    cases hdoing
  refine ⟨.inr ?_, ?_, ?_, loads_of_bubble_em hem, hout⟩
  · rw [hde, hE, hE, (hval _ (.inl rfl)).2, (hval _ (.inr rfl)).2]
    exact ⟨hm, hw, .inr ⟨hem, hq.step_state_ne hmute hr hs hne hmem⟩⟩
  · rw [hde]
    intro ra hra
    refine ⟨?_, (hval ra hra).1⟩
    rw [hem]
    rfl
  · rw [hem]
    exact .zero (valueM1_zero h0')

/-- The instruction in execute moves on. -/
theorem Core.InOrder.step_go (h : c.InOrder) (hd : c.Decoded) (hl : c.Lossless i)
    (h0 : c.regfile 0 = 0) (hr : c.pipeReset i = false) (hs : c.stallDataOk i = false)
    (hdoing : c.multicycleDoing = false) (hc : (c.step i).mw.instr.op.isCsr = false) :
    (c.step i).InOrder := by
  have h0' := c.step_regfile_zero i
  obtain ⟨hout, hval⟩ := h.step_moved hd hl h0 hr hs hc
  have hem : (c.step i).em = c.dataE := by
    rw [step_em hr, hs, hdoing]
    rfl
  have hcomp : (c.step i).em.Computes (c.step i).valueM1 := by
    rw [hem]
    have hinstr := hd.de.instr
    constructor
    · show c.dataE.aluout = c.de.pcAndInstr.result
        ((c.step i).valueM1 c.de.pcAndInstr.instr.ra1)
        ((c.step i).valueM1 c.de.pcAndInstr.instr.ra2)
      rw [← hinstr, (hval _ (.inl rfl)).2, (hval _ (.inr rfl)).2]
      exact h.dataE hd hdoing
    · intro hm
      show c.regdatab = (c.step i).valueM1 c.de.pcAndInstr.instr.ra2
      rw [← hinstr, (hval _ (.inr rfl)).2]
      rcases h.unit with ⟨_, hreads⟩ | ⟨hm', _⟩
      · exact hreads.ra2
      · rw [hinstr] at hm'
        exact absurd hm' hm
  have hloads : ∀ ra, ra = (c.step i).em.instr.ra1 ∨ ra = (c.step i).em.instr.ra2 →
      (c.step i).memory.dataM1.instr.writes (c.step i).memory.dataM1.instr.ctl.memrEn ra
        = false := by
    rw [hem]
    exact fun ra hra => (hval ra hra).1
  have hidle := h.step_idle hd hr hdoing
  cases hwait : c.operandStall || !c.iDataOk i with
  | true =>
    have hde : (c.step i).de = 0 := by
      rw [step_de hr, hs, hdoing, hwait]
      rfl
    exact ⟨.inl ⟨hidle, reads_of_bubble hde h0'⟩, loads_of_bubble hde, hcomp, hloads, hout⟩
  | false =>
    simp only [Bool.or_eq_false_iff, Bool.not_eq_false'] at hwait
    have hdec : c.Decodes i := ⟨hr, hs, hdoing, hwait.1, hwait.2⟩
    have hde : (c.step i).de = c.dataD := by
      rw [step_de hr, hs, hdoing, hwait.1, hwait.2]
      rfl
    have hread : ∀ ra, ra = c.fd.instr.ra1 ∨ ra = c.fd.instr.ra2 →
        (c.step i).operandE ra (c.operandD ra) = (c.step i).valueE ra ∧ (c.step i).NoLoad ra :=
      fun _ hra => hdec.operandE hl hd h0 hc hra
    refine ⟨.inl ⟨hidle, ?_, ?_⟩, ?_, hcomp, hloads, hout⟩
    · rw [Core.a, hde]
      exact (hread _ (.inl rfl)).1
    · rw [Core.regdatab, hde]
      exact (hread _ (.inr rfl)).1
    · rw [hde]
      exact fun ra hra => (hread ra hra).2

/-- One cycle keeps the records in order, as long as no CSR instruction reaches
write-back.  The one that does flushes them. -/
theorem Core.InOrder.step {dataOk dataOkNxt : Bool} (h : c.InOrder) (hd : c.Decoded)
    (hq : c.Queued dataOk dataOkNxt) (hmute : c.Mute i) (h0 : c.regfile 0 = 0)
    (hr : c.pipeReset i = false) (hc : (c.step i).mw.instr.op.isCsr = false) :
    (c.step i).InOrder := by
  have hl := hq.lossless hmute
  cases hs : c.stallDataOk i with
  | true => exact h.step_stall hd hq hl h0 hr hs
  | false =>
    cases hdoing : c.multicycleDoing with
    | true => exact h.step_doing hd hq hmute hl h0 hr hs hdoing hc
    | false => exact h.step_go hd hl h0 hr hs hdoing hc

/-- What reaches write-back has the result for the register file. -/
theorem Core.InOrder.step_mw (h : c.InOrder) (h0 : c.regfile 0 = 0)
    (hr : c.pipeReset i = false) : (c.step i).mw.Computes (c.step i).regfile := by
  have h0' := c.step_regfile_zero i
  have hreg := step_regfile h0 (reset_of_pipeReset hr)
  rw [Core.step_mw hr]
  cases hs : c.stallDataOk i with
  | true => exact .zero h0'
  | false =>
    rw [funext hreg]
    exact h.dataM1

end Step

/-! ## Runs -/

section Run

variable {s : ℕ → Core} {i : ℕ → CoreIn}

theorem Core.IsRun.inOrder (h : Core.IsRun s i) (hm : ∀ t, (s t).Mute (i t))
    (hq : ∀ t, (s t).Queued (i t).iresp.dataOk (i (t + 1)).iresp.dataOk) (t : ℕ) :
    ((s t).mw.instr.op.isCsr = false → (s t).InOrder) ∧ (s t).mw.Computes (s t).regfile := by
  induction t with
  | zero =>
    obtain ⟨x, j, hj, hs⟩ := h.start
    have hr := pipeReset_of_reset (c := x) hj
    rw [hs]
    refine ⟨fun _ => inOrder_of_pipeReset hr, ?_⟩
    rw [(step_pipeReset hr).2.2.2.2]
    exact .zero (x.step_regfile_zero j)
  | succ t ih =>
    rw [h.next t]
    cases hr : (s t).pipeReset (i t) with
    | true =>
      refine ⟨fun _ => inOrder_of_pipeReset hr, ?_⟩
      rw [(step_pipeReset hr).2.2.2.2]
      exact .zero ((s t).step_regfile_zero (i t))
    | false =>
      have hno : (s t).mw.instr.op.isCsr = false := by
        by_contra hc
        have hf := (h.decoded t).csrFlush_of_isCsr (Bool.not_eq_false _ ▸ hc) (i t).pins
        rw [csrFlush_of_pipeReset hr] at hf
        cases hf
      have hin := ih.1 hno
      exact ⟨hin.step (h.decoded t) (hq t) (hm t) (h.regfile_zero t) hr,
        hin.step_mw (h.regfile_zero t) hr⟩

end Run

/-- Every record in write-back carries the result of its instruction for the contents of
the register file. -/
theorem VTop.IsRun.computes {s : ℕ → VTop} {i : ℕ → VTopIn} (h : VTop.IsRun s i) (t : ℕ) :
    (s t).core.mw.Computes (s t).core.regfile :=
  (h.core.inOrder h.mute (h.core.queued h.mute h.dataOk_rests) t).2

end RiscvCpu
