import RiscvCpu.Trap
import RiscvCpu.Flush

/-!
# Operands in program order

Decode and execute take an operand from the record in `em`, `dataM1` or write-back that
is the youngest to write the register, or from the register file.  A load is not ready
before write-back, so an instruction waits in decode until no load in front of it writes
one of its registers.  What execute reads in the first cycle of an instruction is what
its youngest producer carries, and it carries the same value to write-back.

A CSR instruction carries its source operand and writes the CSR, so what is forwarded of
it is wrong.  The reader is flushed with everything behind the CSR instruction.
-/

namespace RiscvCpu

/-! ## Values ahead of a stage -/

section Values

variable (c : Core) (ra : BitVec 5)

/-- The value of `ra` behind the record in write-back. -/
def Core.valueW : BitVec 64 :=
  if c.mw.instr.writes c.mw.instr.ctl.regwriteEn ra then c.dataW.writeData else c.regfile ra

/-- The value of `ra` behind the record in `dataM1`. -/
def Core.valueM1 : BitVec 64 :=
  if c.memory.dataM1.instr.writes c.memory.dataM1.instr.ctl.regwriteEn ra then
    c.memory.dataM1.aluout
  else c.valueW ra

/-- The value of `ra` behind the record in `em`. -/
def Core.valueE : BitVec 64 :=
  if c.em.instr.writes c.em.instr.ctl.regwriteEn ra then c.em.aluout else c.valueM1 ra

/-- No load in `em` or `dataM1` writes `ra`. -/
structure Core.NoLoad : Prop where
  em : c.em.instr.writes c.em.instr.ctl.memrEn ra = false
  dataM1 : c.memory.dataM1.instr.writes c.memory.dataM1.instr.ctl.memrEn ra = false

/-- Decode reads the value behind `em`. -/
theorem Core.operandD_eq : c.operandD ra = c.valueE ra := by
  rw [operandD, forwardD, valueE, valueM1, valueW]
  split_ifs <;> rfl

theorem Core.operandE_eq (rd : BitVec 64) :
    c.operandE ra rd =
      if c.em.instr.writes c.em.instr.ctl.regwriteEn ra then c.em.aluout
      else if c.memory.dataM1.instr.writes c.memory.dataM1.instr.ctl.regwriteEn ra then
        c.memory.dataM1.aluout
      else rd := by
  rw [operandE, forwardE]
  split_ifs <;> rfl

end Values

/-! ## What write-back writes -/

/-- What is no load writes the result of execute. -/
theorem DecodeShape.writebackSrc {raw : BitVec 32} {d : Decoded} (h : DecodeShape raw d)
    (hm : d.instr.ctl.memrEn = false) : d.instr.ctl.writebackSrc = .aluresult := by
  cases h with
  | load => cases hm
  | _ => rfl

/-- The CSR instructions write the old value of the register to `rd`. -/
theorem Csr.csrWriteToReg_eq {c : Csr} {d : MemoryData} :
    c.csrWriteToReg d = if d.instr.op.isCsr then ⟨true, c.rd d⟩ else 0 := by
  unfold csrWriteToReg
  cases d.instr.op <;> rfl

/-- A record that writes `ra` and is no load of it is no load. -/
theorem Instr.memrEn_of_writes {x : Instr} {ra : BitVec 5}
    (hw : x.writes x.ctl.regwriteEn ra = true) (hl : x.writes x.ctl.memrEn ra = false) :
    x.ctl.memrEn = false := by
  simp only [writes, Bool.and_eq_true] at hw hl
  by_contra hc
  rw [Bool.not_eq_false] at hc
  rw [hc, hw.1.2, hw.2] at hl
  cases hl

section Step

variable {c : Core} {i : CoreIn}

/-- What is neither a load nor a CSR instruction writes the result of execute. -/
theorem Core.Decoded.writeData (h : c.Decoded) (hm : c.mw.instr.ctl.memrEn = false)
    (hc : c.mw.instr.op.isCsr = false) : c.dataW.writeData = c.mw.aluout := by
  rw [h.mw.instr] at hm
  have hsrc : c.mw.instr.ctl.writebackSrc = .aluresult := by
    rw [h.mw.instr]
    exact c.mw.pcAndInstr.shape.writebackSrc hm
  rw [dataW, MemoryData.dataW, hsrc, Csr.csrWriteToReg_eq, hc]
  rfl

/-- The register file takes the value that write-back hands on. -/
theorem Core.step_regfile (h0 : c.regfile 0 = 0) (hr : i.reset = false) (ra : BitVec 5) :
    (c.step i).regfile ra = c.valueW ra := by
  change c.regfile.step i.reset c.dataW ra = _
  have hen : c.dataW.regwriteEn = c.mw.instr.ctl.regwriteEn := rfl
  have hreg : c.dataW.writereg = c.mw.instr.writereg := rfl
  rw [hr, Regs.step, valueW, hen, hreg, if_neg Bool.false_ne_true]
  by_cases hz : ra = 0
  · rw [if_pos hz, hz, if_neg (by rw [Instr.writes_ra_zero]; exact Bool.false_ne_true), h0]
  · rw [if_neg hz]
    refine if_congr ?_ rfl rfl
    simp only [Instr.writes, Bool.and_eq_true, decide_eq_true_eq, bne_iff_ne, beq_iff_eq]
    constructor
    · rintro ⟨rfl, hw⟩
      exact ⟨⟨hw, hz⟩, rfl⟩
    · rintro ⟨⟨hw, _⟩, rfl⟩
      exact ⟨rfl, hw⟩

/-! ## One cycle -/

/-- The instruction in decode moves on to `de`. -/
structure Core.Decodes (c : Core) (i : CoreIn) : Prop where
  noReset : c.pipeReset i = false
  noStall : c.stallDataOk i = false
  notDoing : c.multicycleDoing = false
  ready : c.operandStall = false
  arrived : c.iDataOk i = true

/-- An instruction that waits for no operand has no load of its registers in front. -/
theorem Core.noLoad_of_ready (h : c.operandStall = false) {ra : BitVec 5}
    (hra : ra = c.fd.instr.ra1 ∨ ra = c.fd.instr.ra2) :
    c.de.instr.writes c.de.instr.ctl.memrEn ra = false ∧ c.NoLoad ra := by
  simp only [operandStall, lustall, dataDInstr, Bool.or_eq_false_iff] at h
  obtain ⟨⟨⟨hde, hem⟩, hm1⟩, _⟩ := h
  rcases hra with rfl | rfl
  · exact ⟨hde.1, hem.1, hm1.1⟩
  · exact ⟨hde.2, hem.2, hm1.2⟩

/-- A branch or jump that waits for no operand reads no register that execute is about to
write. -/
theorem Core.unwritten_of_ready (h : c.operandStall = false)
    (hb : c.fd.instr.ctl.bj ≠ .nothing) :
    c.de.instr.writes c.de.instr.ctl.regwriteEn c.fd.instr.ra1 = false ∧
      (c.fd.instr.ctl.bj = .bBeq →
        c.de.instr.writes c.de.instr.ctl.regwriteEn c.fd.instr.ra2 = false) := by
  have hj : (c.fd.instr.ctl.bj != .nothing) = true := bne_iff_ne.mpr hb
  simp only [operandStall, bjstall, dataDInstr, Bool.or_eq_false_iff] at h
  rw [hj, Bool.true_and, Bool.or_eq_false_iff] at h
  obtain ⟨_, h1, h2⟩ := h
  refine ⟨(Bool.or_eq_false_iff.mp h1).1, fun hbeq => ?_⟩
  rw [hbeq, beq_self_eq_true, Bool.true_and, Bool.or_eq_false_iff] at h2
  exact h2.1

/-- What moves from `dataM1` to write-back keeps its value, unless it is a CSR
instruction. -/
theorem Core.Decoded.step_valueW (hd : c.Decoded) (h0 : c.regfile 0 = 0)
    (hr : c.pipeReset i = false) (hs : c.stallDataOk i = false) {ra : BitVec 5}
    (hm : c.memory.dataM1.instr.writes c.memory.dataM1.instr.ctl.memrEn ra = false)
    (hc : (c.step i).mw.instr.op.isCsr = false) : (c.step i).valueW ra = c.valueM1 ra := by
  have hmw : (c.step i).mw = c.dataM i := by
    rw [step_mw hr, hs, if_neg Bool.false_ne_true]
  have hinstr : (c.step i).mw.instr = c.memory.dataM1.instr := by
    rw [hmw]
    rfl
  rw [valueW, valueM1, step_regfile h0 (reset_of_pipeReset hr), hinstr]
  split
  · rename_i hw
    rw [(hd.step i).writeData (by rw [hinstr]; exact Instr.memrEn_of_writes hw hm) hc, hmw]
    rfl
  · rfl

/-- In a stall write-back hands its value to the register file. -/
theorem Core.step_valueW_stall (h0 : c.regfile 0 = 0)
    (hr : c.pipeReset i = false) (hs : c.stallDataOk i = true) (ra : BitVec 5) :
    (c.step i).valueW ra = c.valueW ra := by
  have hmw : (c.step i).mw = 0 := by
    rw [step_mw hr, hs, if_pos rfl]
  rw [valueW, step_regfile h0 (reset_of_pipeReset hr), hmw, if_neg]
  exact Bool.false_ne_true

/-- `dataM1` takes the record of `em`. -/
theorem Core.Lossless.step_dataM1 (hl : c.Lossless i) (hr : c.pipeReset i = false)
    (hs : c.stallDataOk i = false) :
    ∃ x, (c.step i).memory.dataM1 = { c.em.dataMtmp with memrData := x } := by
  obtain ⟨x, hx⟩ := c.memory.step_keeps c.em (c.csrFlush i.pins) c.dataE.instr.ctl i.dresp
  rw [hl hr, hs, if_neg Bool.false_ne_true] at hx
  refine ⟨x, ?_⟩
  change (Memory.step _ _ _ (c.pipeReset i) _ _).dataM1 = _
  rw [hr, hx]

/-- In a stall `dataM1` keeps its record. -/
theorem Core.Lossless.step_dataM1_stall (hl : c.Lossless i) (hr : c.pipeReset i = false)
    (hs : c.stallDataOk i = true) : (c.step i).memory.dataM1 = c.memory.dataM1 := by
  obtain ⟨x, hx⟩ := c.memory.step_keeps c.em (c.csrFlush i.pins) c.dataE.instr.ctl i.dresp
  rw [hl hr, hs, if_pos rfl] at hx
  change (Memory.step _ _ _ (c.pipeReset i) _ _).dataM1 = _
  rw [hr, hx]

/-- The value behind `em` moves on to `dataM1` with the records. -/
theorem Core.Lossless.step_valueM1 (hl : c.Lossless i) (hd : c.Decoded) (h0 : c.regfile 0 = 0)
    (hr : c.pipeReset i = false) (hs : c.stallDataOk i = false) {ra : BitVec 5}
    (hm : c.NoLoad ra) (hc : (c.step i).mw.instr.op.isCsr = false) :
    (c.step i).valueM1 ra = c.valueE ra := by
  obtain ⟨x, hm1⟩ := hl.step_dataM1 hr hs
  rw [valueM1, hd.step_valueW h0 hr hs hm.dataM1 hc, hm1, valueE]
  rfl

/-- What execute reads in the first cycle of an instruction is the value behind `em`,
unless a CSR instruction stands in write-back. -/
theorem Core.Decodes.operandE (h : c.Decodes i) (hl : c.Lossless i) (hd : c.Decoded)
    (h0 : c.regfile 0 = 0) (hc : (c.step i).mw.instr.op.isCsr = false) {ra : BitVec 5}
    (hra : ra = c.fd.instr.ra1 ∨ ra = c.fd.instr.ra2) :
    (c.step i).operandE ra (c.operandD ra) = (c.step i).valueE ra ∧ (c.step i).NoLoad ra := by
  obtain ⟨hlde, hlem⟩ := noLoad_of_ready h.ready hra
  obtain ⟨x, hm1⟩ := hl.step_dataM1 h.noReset h.noStall
  have hem : (c.step i).em = c.dataE := by
    rw [step_em h.noReset, h.noStall, h.notDoing]
    rfl
  constructor
  · have hE : (c.step i).valueE ra =
        if (c.step i).em.instr.writes (c.step i).em.instr.ctl.regwriteEn ra then
          (c.step i).em.aluout
        else c.valueE ra := by
      rw [valueE, hl.step_valueM1 hd h0 h.noReset h.noStall hlem hc]
    rw [operandE_eq, operandD_eq, hE, hm1]
    split
    · rfl
    · -- the record read from `em` in decode is read from `dataM1` in execute
      split
      · rename_i hw
        show c.em.aluout = c.valueE ra
        rw [valueE]
        exact (if_pos hw).symm
      · rfl
  · constructor
    · rw [hem]
      exact hlde
    · rw [hm1]
      exact hlem.em

end Step

/-! ## Producers -/

section Run

variable (s : ℕ → Core) (i : ℕ → CoreIn)

/-- The instruction tagged `p` writes the register `ra`. -/
def Core.Writes (p : ℕ) (ra : BitVec 5) : Prop :=
  let x := ((s p).dataF (i p)).instr
  x.writes x.ctl.regwriteEn ra = true

/-- The instruction tagged `p` is the youngest in flight in cycle `u` that writes `ra` and
is older than `y`. -/
structure Core.IsProducer (u y : ℕ) (ra : BitVec 5) (p : ℕ) : Prop where
  inFlight : (tags s i u).InFlight p
  older : p < y
  writes : Writes s i p ra
  youngest : ∀ q, (tags s i u).InFlight q → q < y → Writes s i q ra → q ≤ p

/-- The value `v` is what the producer of `ra` for `y` writes back, or what the register
file holds if there is no producer.  No producer is passed over. -/
structure Core.Supplied (u y : ℕ) (ra : BitVec 5) (v : BitVec 64) : Prop where
  produced : ∀ p, IsProducer s i u y ra p → ∀ w, (tags s i w).mw = some p →
    (s w).dataW.writeData = v
  arrives : ∀ p, IsProducer s i u y ra p → ∀ t, (tags s i t).mw = some y →
    ∃ w < t, (tags s i w).mw = some p
  unwritten : (∀ p, ¬IsProducer s i u y ra p) → v = (s u).regfile ra

/-- An instruction in flight in cycle `u` and older than `y` flushes the pipeline from
write-back. -/
def Core.Overtaken (u y : ℕ) : Prop :=
  ∃ x v, (tags s i u).InFlight x ∧ x < y ∧ u ≤ v ∧ (tags s i v).mw = some x ∧
    (s v).csrFlush (i v).pins = true

/-- The record tagged `p` has left `de` and carries `v` as the result of execute. -/
structure Core.Carries (p : ℕ) (v : BitVec 64) (t : ℕ) : Prop where
  fd : (tags s i t).fd ≠ some p
  de : (tags s i t).de ≠ some p
  em : (tags s i t).em = some p → (s t).em.aluout = v
  dataM1 : (tags s i t).dataM1 = some p → (s t).memory.dataM1.aluout = v
  mw : (tags s i t).mw = some p → (s t).mw.aluout = v

variable {s i}
variable {p t u y : ℕ} {ra : BitVec 5} {v : BitVec 64}

theorem Core.Carries.step (h : Carries s i p v t) (hp : p < t) (hl : (s t).Lossless (i t))
    (hn : s (t + 1) = (s t).step (i t)) : Carries s i p v (t + 1) := by
  cases hr : (s t).pipeReset (i t) with
  | true =>
    have hg : tags s i (t + 1) = .empty := Tags.step_pipeReset hr
    constructor <;> rw [hg] <;> simp [Tags.empty]
  | false =>
    have hg : tags s i (t + 1) = _ := hl.step_tags hr
    constructor <;> rw [hg]
    · dsimp only
      split_ifs
      · exact h.fd
      · simp
      · intro hc
        cases hc
        omega
    · dsimp only
      split_ifs
      · exact h.de
      · simp
      · exact h.fd
    · rw [hn, step_em hr]
      dsimp only
      split_ifs
      · exact h.em
      · exact fun hc => by cases hc
      · exact fun hc => absurd hc h.de
    · rw [hn, hl.step_dataM1_aluout hr]
      dsimp only
      split_ifs
      · exact h.dataM1
      · exact h.em
    · rw [hn, step_mw hr]
      dsimp only
      split_ifs
      · exact fun hc => by cases hc
      · exact h.dataM1

/-- A record carries its result to write-back. -/
theorem Core.IsRun.carries (h : Core.IsRun s i) (hl : ∀ u, (s u).Lossless (i u))
    (hc : Carries s i p v u) (hp : p < u) (hut : u ≤ t) : Carries s i p v t := by
  induction t, hut using Nat.le_induction with
  | base => exact hc
  | succ t hut ih => exact ih.step (by omega) (hl t) (h.next t)

/-- The tag of a record that writes a register. -/
theorem Core.Named.writes {tag : Option ℕ} {d : FetchData} (h : Named s i tag d)
    (hw : d.instr.writes d.instr.ctl.regwriteEn ra = true) :
    ∃ p, tag = some p ∧ Writes s i p ra := by
  cases htag : tag with
  | none =>
    rw [h.1 htag, FetchData.instr_zero] at hw
    cases hw
  | some p =>
    rw [(h.2 p htag).2] at hw
    exact ⟨p, rfl, hw⟩

theorem Core.IsRun.tag_of_isCsr (h : Core.IsRun s i) (hc : (s t).mw.instr.op.isCsr = true) :
    ∃ p, (tags s i t).mw = some p := by
  refine Option.ne_none_iff_exists'.mp fun hnone => ?_
  rw [(h.decoded t).mw.instr, (h.tagsOk t).mw.1 hnone, FetchData.instr_zero] at hc
  cases hc

/-- A CSR instruction in flight flushes what is younger, if it ever arrives in
write-back. -/
theorem Core.IsRun.overtaken_of_isCsr (h : Core.IsRun s i) {w : ℕ}
    (hp : (tags s i u).InFlight p) (hpy : p < y) (huw : u ≤ w) (hw : (tags s i w).mw = some p)
    (hc : (s w).mw.instr.op.isCsr = true) : Overtaken s i u y :=
  ⟨p, w, hp, hpy, huw, hw, (h.decoded w).csrFlush_of_isCsr hc _⟩

/-- What a record that is no load carries is what it writes back, unless it is a CSR
instruction. -/
theorem Core.IsRun.produces (h : Core.IsRun s i) (hl : ∀ u, (s u).Lossless (i u))
    (hc : Carries s i p v u) (hp : (tags s i u).Holds p) (hpy : p < y)
    (hm : ((s p).dataF (i p)).instr.ctl.memrEn = false) (hno : ¬Overtaken s i u y) {w : ℕ}
    (hw : (tags s i w).mw = some p) : (s w).dataW.writeData = v := by
  have huw : u ≤ w := by
    by_contra hlt
    refine tags_gone (tags_mw_lt hl hw) (fun hh => ?_) (by omega : w ≤ u) hp
    have := tags_mw_older hl hw hh
    omega
  have hd := h.decoded w
  rw [hd.writeData, (h.carries hl hc (tags_holds_lt hl hp) huw).mw hw]
  · rw [hd.mw.instr, ((h.tagsOk w).mw.2 p hw).2]
    exact hm
  · by_contra hcsr
    exact hno (h.overtaken_of_isCsr (.inl hp) hpy huw hw (Bool.not_eq_false _ ▸ hcsr))

theorem Core.Supplied.of_producer (hl : ∀ u, (s u).Lossless (i u)) (hy : (tags s i u).Holds y)
    (hp : IsProducer s i u y ra p) (hv : ∀ w, (tags s i w).mw = some p → (s w).dataW.writeData = v) :
    Supplied s i u y ra v where
  produced q hq w hw := by
    obtain rfl : q = p :=
      Nat.le_antisymm (hp.youngest q hq.inFlight hq.older hq.writes)
        (hq.youngest p hp.inFlight hp.older hp.writes)
    exact hv w hw
  arrives _ hq _ ht := tags_arrives hl hy hq.inFlight hq.older ht
  unwritten hno := absurd hp (hno p)

theorem Core.Named.of_writes {d : FetchData} (h : Named s i (some p) d) (hw : Writes s i p ra) :
    d.instr.writes d.instr.ctl.regwriteEn ra = true := by
  rw [(h.2 p rfl).2]
  exact hw

/-- Where the instructions stand that are older than `y` and write `ra`. -/
structure Core.Ahead (s : ℕ → Core) (i : ℕ → CoreIn) (u y : ℕ) (ra : BitVec 5) : Prop where
  holds : (tags s i u).Holds y
  em : ∀ p, (tags s i u).em = some p → p < y
  dataM1 : ∀ p, (tags s i u).dataM1 = some p → p < y
  /-- They are past execute. -/
  past : ∀ p, (tags s i u).InFlight p → p < y → Writes s i p ra →
    (tags s i u).em = some p ∨ (tags s i u).dataM1 = some p ∨ (tags s i u).mw = some p

theorem Core.IsRun.ahead (h : Core.IsRun s i) (hl : ∀ u, (s u).Lossless (i u))
    (hy : (tags s i u).de = some y ∨ (tags s i u).fd = some y ∧
      (s u).de.instr.writes (s u).de.instr.ctl.regwriteEn ra = false) : Ahead s i u y ra := by
  have hord := tags_ordered hl u
  rcases hy with hy | ⟨hy, hde⟩
  · refine ⟨.inl (.inr (.inl hy)), fun p hp => hord.em_de p hp y hy,
      fun p hp => hord.dataM1_de p hp y hy, fun p hp hpy _ => ?_⟩
    rcases hp with ((hp | hp | hp) | hp) | hp
    · have := hord.de_fd y hy p hp
      omega
    · rw [hy] at hp
      cases hp
      omega
    · exact .inl hp
    · exact .inr (.inl hp)
    · exact .inr (.inr hp)
  · refine ⟨.inl (.inl hy), fun p hp => hord.em_fd p hp y hy,
      fun p hp => hord.dataM1_fd p hp y hy, fun p hp hpy hw => ?_⟩
    rcases hp with ((hp | hp | hp) | hp) | hp
    · rw [hy] at hp
      cases hp
      omega
    · have hok := (h.tagsOk u).de
      rw [hp] at hok
      rw [(h.decoded u).de.instr, hok.of_writes hw] at hde
      cases hde
    · exact .inl hp
    · exact .inr (.inl hp)
    · exact .inr (.inr hp)

/-- The producer is the record in `em`. -/
theorem Core.IsRun.supplied_em (h : Core.IsRun s i) (hl : ∀ u, (s u).Lossless (i u))
    (hno : ¬Overtaken s i u y) (hload : (s u).NoLoad ra) (hy : Ahead s i u y ra)
    (hem : (s u).em.instr.writes (s u).em.instr.ctl.regwriteEn ra = true) :
    Supplied s i u y ra (s u).em.aluout := by
  have hord := tags_ordered hl u
  have hok := (h.tagsOk u).em
  have hlem := hload.em
  rw [(h.decoded u).em.instr] at hem hlem
  obtain ⟨p, hp, hw⟩ := hok.writes hem
  have hholds : (tags s i u).Holds p := .inl (.inr (.inr hp))
  have hprod : IsProducer s i u y ra p := by
    refine ⟨.inl hholds, hy.em p hp, hw, fun q hq hqy hqw => ?_⟩
    rcases hy.past q hq hqy hqw with h' | h' | h'
    · rw [hp] at h'
      cases h'
      exact Nat.le_refl _
    · exact (hord.dataM1_em q h' p hp).le
    · exact (tags_mw_older hl h' hholds).le
  have hcarry : Carries s i p (s u).em.aluout u := by
    refine ⟨fun h' => ?_, fun h' => ?_, fun _ => rfl, fun h' => ?_, fun h' => ?_⟩
    · exact absurd (hord.em_fd p hp p h') (Nat.lt_irrefl p)
    · exact absurd (hord.em_de p hp p h') (Nat.lt_irrefl p)
    · exact absurd (hord.dataM1_em p h' p hp) (Nat.lt_irrefl p)
    · exact absurd (tags_mw_older hl h' hholds) (Nat.lt_irrefl p)
  refine .of_producer hl hy.holds hprod fun w hmw => ?_
  refine h.produces hl hcarry hholds (hy.em p hp) ?_ hno hmw
  rw [← (hok.2 p hp).2]
  exact Instr.memrEn_of_writes hem hlem

/-- The producer is the record in `dataM1`. -/
theorem Core.IsRun.supplied_dataM1 (h : Core.IsRun s i) (hl : ∀ u, (s u).Lossless (i u))
    (hno : ¬Overtaken s i u y) (hload : (s u).NoLoad ra) (hy : Ahead s i u y ra)
    (hem : ¬(s u).em.instr.writes (s u).em.instr.ctl.regwriteEn ra = true)
    (hm1 : (s u).memory.dataM1.instr.writes (s u).memory.dataM1.instr.ctl.regwriteEn ra = true) :
    Supplied s i u y ra (s u).memory.dataM1.aluout := by
  have hord := tags_ordered hl u
  have hok := (h.tagsOk u).dataM1
  have hlm1 := hload.dataM1
  rw [(h.decoded u).em.instr] at hem
  rw [(h.decoded u).dataM1.instr] at hm1 hlm1
  obtain ⟨p, hp, hw⟩ := hok.writes hm1
  have hholds : (tags s i u).Holds p := .inr hp
  have hprod : IsProducer s i u y ra p := by
    refine ⟨.inl hholds, hy.dataM1 p hp, hw, fun q hq hqy hqw => ?_⟩
    rcases hy.past q hq hqy hqw with h' | h' | h'
    · have hokem := (h.tagsOk u).em
      rw [h'] at hokem
      exact absurd (hokem.of_writes hqw) hem
    · rw [hp] at h'
      cases h'
      exact Nat.le_refl _
    · exact (tags_mw_older hl h' hholds).le
  have hcarry : Carries s i p (s u).memory.dataM1.aluout u := by
    refine ⟨fun h' => ?_, fun h' => ?_, fun h' => ?_, fun _ => rfl, fun h' => ?_⟩
    · exact absurd (hord.dataM1_fd p hp p h') (Nat.lt_irrefl p)
    · exact absurd (hord.dataM1_de p hp p h') (Nat.lt_irrefl p)
    · exact absurd (hord.dataM1_em p hp p h') (Nat.lt_irrefl p)
    · exact absurd (tags_mw_older hl h' hholds) (Nat.lt_irrefl p)
  refine .of_producer hl hy.holds hprod fun w hmw => ?_
  refine h.produces hl hcarry hholds (hy.dataM1 p hp) ?_ hno hmw
  rw [← (hok.2 p hp).2]
  exact Instr.memrEn_of_writes hm1 hlm1

/-- The producer is in write-back, or there is none. -/
theorem Core.IsRun.supplied_mw (h : Core.IsRun s i) (hl : ∀ u, (s u).Lossless (i u))
    (hy : Ahead s i u y ra)
    (hem : ¬(s u).em.instr.writes (s u).em.instr.ctl.regwriteEn ra = true)
    (hm1 : ¬(s u).memory.dataM1.instr.writes (s u).memory.dataM1.instr.ctl.regwriteEn ra = true) :
    Supplied s i u y ra ((s u).valueW ra) := by
  have hok := h.tagsOk u
  have hd := h.decoded u
  rw [hd.em.instr] at hem
  rw [hd.dataM1.instr] at hm1
  have hmw : ∀ q, (tags s i u).InFlight q → q < y → Writes s i q ra →
      (tags s i u).mw = some q := by
    intro q hq hqy hqw
    rcases hy.past q hq hqy hqw with h' | h' | h'
    · have hokem := hok.em
      rw [h'] at hokem
      exact absurd (hokem.of_writes hqw) hem
    · have hokm1 := hok.dataM1
      rw [h'] at hokm1
      exact absurd (hokm1.of_writes hqw) hm1
    · exact h'
  rw [Core.valueW, hd.mw.instr]
  split
  · rename_i hw
    obtain ⟨p, hp, hpw⟩ := hok.mw.writes hw
    have hprod : IsProducer s i u y ra p := by
      refine ⟨.inr hp, tags_mw_older hl hp hy.holds, hpw, fun q hq hqy hqw => ?_⟩
      have := hmw q hq hqy hqw
      rw [hp] at this
      cases this
      exact Nat.le_refl _
    refine .of_producer hl hy.holds hprod fun w hw' => ?_
    rw [tags_mw_once hl hw' hp]
  · rename_i hw
    have hnone : ∀ p, ¬IsProducer s i u y ra p := by
      intro p hp
      have hokmw := hok.mw
      rw [hmw p hp.inFlight hp.older hp.writes] at hokmw
      exact hw (hokmw.of_writes hp.writes)
    exact ⟨fun p hp => absurd hp (hnone p), fun p hp => absurd hp (hnone p), fun _ => rfl⟩

/-- The value behind `em` is supplied in program order. -/
theorem Core.IsRun.supplied (h : Core.IsRun s i) (hl : ∀ u, (s u).Lossless (i u))
    (hno : ¬Overtaken s i u y) (hload : (s u).NoLoad ra) (hy : Ahead s i u y ra) :
    Supplied s i u y ra ((s u).valueE ra) := by
  rw [Core.valueE]
  split
  · exact h.supplied_em hl hno hload hy ‹_›
  · rw [Core.valueM1]
    split
    · exact h.supplied_dataM1 hl hno hload hy ‹_› ‹_›
    · exact h.supplied_mw hl hy ‹_› ‹_›

/-- An instruction that is overtaken by a flush never reaches write-back. -/
theorem Core.Overtaken.squashed (hl : ∀ u, (s u).Lossless (i u)) (h : Overtaken s i u y)
    (hy : (tags s i u).Holds y) (t : ℕ) : (tags s i t).mw ≠ some y := by
  obtain ⟨x, v, _, hxy, huv, hx, hf⟩ := h
  intro ht
  rcases Nat.lt_or_ge v t with hvt | hvt
  · have hr : (s v).pipeReset (i v) = true := by
      rw [pipeReset, hf, Bool.or_true]
    have := tags_mw_after hr hvt ht
    have := tags_holds_lt hl hy
    omega
  · have := tags_mw_before hl hx ht hxy
    omega

/-! ## Operands -/

/-- An instruction is found in `de` for the first time after it has been decoded. -/
theorem Core.decodes_of_first (hl : (s t).Lossless (i t))
    (hy : (tags s i (t + 1)).de = some y) (hno : (tags s i t).de ≠ some y) :
    (s t).Decodes (i t) := by
  have hr : (s t).pipeReset (i t) = false := by
    by_contra hc
    rw [tags, Tags.step_pipeReset (Bool.not_eq_false _ ▸ hc)] at hy
    cases hy
  rw [tags, hl.step_tags hr] at hy
  dsimp only at hy
  split_ifs at hy with h1 h2
  · exact absurd hy hno
  · simp only [Bool.or_eq_true, Bool.not_eq_true', not_or, Bool.not_eq_true,
      Bool.not_eq_false] at h1 h2
    exact ⟨hr, h1.1, h1.2, h2.1, h2.2⟩

/-- What execute reads in the first cycle of an instruction. -/
theorem Core.IsRun.operands_de (h : Core.IsRun s i) (hl : ∀ u, (s u).Lossless (i u))
    (hy : (tags s i u).de = some y) (hfirst : ∀ v < u, (tags s i v).de ≠ some y)
    (hno : ¬Overtaken s i u y) :
    Supplied s i u y (s u).de.instr.ra1 (s u).a ∧
      Supplied s i u y (s u).de.instr.ra2 (s u).regdatab := by
  obtain ⟨t, rfl⟩ : ∃ t, u = t + 1 := by
    cases u with
    | zero => cases hy
    | succ t => exact ⟨t, rfl⟩
  have hdec := decodes_of_first (hl t) hy (hfirst t (by omega))
  have hahead : ∀ ra, Ahead s i (t + 1) y ra := fun _ => h.ahead hl (.inl hy)
  have hcsr : (s (t + 1)).mw.instr.op.isCsr = false := by
    by_contra hc
    obtain ⟨p, hp⟩ := h.tag_of_isCsr (Bool.not_eq_false _ ▸ hc)
    exact hno (h.overtaken_of_isCsr (.inr hp) (tags_mw_older hl hp (.inl (.inr (.inl hy))))
      (Nat.le_refl _) hp (Bool.not_eq_false _ ▸ hc))
  have hde : (s (t + 1)).de = (s t).dataD := by
    rw [h.next t, step_de hdec.noReset, hdec.noStall, hdec.notDoing, hdec.ready, hdec.arrived]
    rfl
  rw [Core.a, Core.regdatab, hde]
  rw [h.next t] at hcsr
  have hread : ∀ ra, ra = (s t).fd.instr.ra1 ∨ ra = (s t).fd.instr.ra2 →
      Supplied s i (t + 1) y ra ((s (t + 1)).operandE ra ((s t).operandD ra)) := by
    intro ra hra
    obtain ⟨hval, hload⟩ := hdec.operandE (hl t) (h.decoded t) (h.regfile_zero t) hcsr hra
    rw [← h.next t] at hval hload
    rw [hval]
    exact h.supplied hl hno hload (hahead ra)
  exact ⟨hread _ (.inl rfl), hread _ (.inr rfl)⟩

/-- What a branch or `jalr` reads in decode in a cycle in which it is not held. -/
theorem Core.IsRun.operands_fd (h : Core.IsRun s i) (hl : ∀ u, (s u).Lossless (i u))
    (hy : (tags s i u).fd = some y) (hs : ((s u).regstallEn (i u)).fd = false)
    (hno : ¬Overtaken s i u y) :
    ((s u).fd.instr.ctl.bj ≠ .nothing → Supplied s i u y (s u).fd.instr.ra1 (s u).rd1) ∧
      ((s u).fd.instr.ctl.bj = .bBeq → Supplied s i u y (s u).fd.instr.ra2 (s u).rd2) := by
  rw [regstallEn_fd, frontStall_eq] at hs
  have hready : (s u).operandStall = false := by
    simp only [Bool.or_eq_false_iff] at hs
    exact hs.2.1
  have hread : ∀ ra, (ra = (s u).fd.instr.ra1 ∨ ra = (s u).fd.instr.ra2) →
      (s u).de.instr.writes (s u).de.instr.ctl.regwriteEn ra = false →
      Supplied s i u y ra ((s u).operandD ra) := by
    intro ra hra hde
    rw [operandD_eq]
    exact h.supplied hl hno (noLoad_of_ready hready hra).2 (h.ahead hl (.inr ⟨hy, hde⟩))
  refine ⟨fun hb => hread _ (.inl rfl) (unwritten_of_ready hready hb).1, fun hb => ?_⟩
  exact hread _ (.inr rfl) ((unwritten_of_ready hready (by rw [hb]; simp)).2 hb)

end Run

/-! ## Runs of the top module -/

/-- Every instruction reads its operands in program order.  In its first cycle in `de`
execute reads what its youngest older producer writes back, or the register file, and so
does decode for a branch or jump that is not held.  The exception is an instruction that
an older one overtakes with a flush, and which never reaches write-back. -/
theorem VTop.IsRun.operands_in_order {s : ℕ → VTop} {i : ℕ → VTopIn} (h : VTop.IsRun s i)
    (u y : ℕ) :
    let c := fun t => (s t).core
    let j := fun t => (s t).coreIn (i t)
    ((tags s i u).de = some y → (∀ v < u, (tags s i v).de ≠ some y) →
      (¬Core.Overtaken c j u y →
        Core.Supplied c j u y (c u).de.instr.ra1 (c u).a ∧
        Core.Supplied c j u y (c u).de.instr.ra2 (c u).regdatab) ∧
      (Core.Overtaken c j u y → ∀ t, (tags s i t).mw ≠ some y)) ∧
    ((tags s i u).fd = some y → ((c u).regstallEn (j u)).fd = false →
      (c u).fd.instr.ctl.bj = .bBeq ∨ (c u).fd.instr.ctl.bj = .iJalr →
      (¬Core.Overtaken c j u y →
        Core.Supplied c j u y (c u).fd.instr.ra1 (c u).rd1 ∧
        ((c u).fd.instr.ctl.bj = .bBeq →
          Core.Supplied c j u y (c u).fd.instr.ra2 (c u).rd2)) ∧
      (Core.Overtaken c j u y → ∀ t, (tags s i t).mw ≠ some y)) := by
  intro c j
  have hl : ∀ t, (c t).Lossless (j t) := h.lossless
  constructor
  · intro hy hfirst
    exact ⟨h.core.operands_de hl hy hfirst, fun ho t => ho.squashed hl (.inl (.inr (.inl hy))) t⟩
  · intro hy hs hbj
    refine ⟨fun hno => ?_, fun ho t => ho.squashed hl (.inl (.inl hy)) t⟩
    obtain ⟨h1, h2⟩ := h.core.operands_fd hl hy hs hno
    refine ⟨h1 ?_, h2⟩
    rcases hbj with hb | hb <;> rw [hb] <;> simp

/-! ## An example run -/

/-- `addi x1, x0, 5` and `addi x1, x1, 1`. -/
def dependentAdds : List (BitVec 32) := [0x00500093#32, 0x00108093#32]

/-- The second addition, fetched in cycle 6, is in `de` in cycle 9 with the first one,
fetched in cycle 4, in `dataM1`.  It reads what the first one writes back in cycle 10. -/
theorem dependentAdds_operand :
    (SimTop.boot dependentAdds .low 10).top.core.dataW.writeData =
      (SimTop.boot dependentAdds .low 9).top.core.a := by
  have hrun := (SimTop.boot_isRun dependentAdds .low).top
  have hnine : VTop.tags (fun u => (SimTop.boot dependentAdds .low u).top)
      (fun u => (SimTop.boot dependentAdds .low u).topIn (.fast .low)) 9 =
      ⟨some 8, some 6, none, some 4, none⟩ := by
    decide +kernel
  have hten : (VTop.tags (fun u => (SimTop.boot dependentAdds .low u).top)
      (fun u => (SimTop.boot dependentAdds .low u).topIn (.fast .low)) 10).mw = some 4 := by
    decide +kernel
  have hfirst : ∀ v < 9, (VTop.tags (fun u => (SimTop.boot dependentAdds .low u).top)
      (fun u => (SimTop.boot dependentAdds .low u).topIn (.fast .low)) v).de ≠ some 6 := by
    decide +kernel
  have honly : ∀ q, (VTop.tags (fun u => (SimTop.boot dependentAdds .low u).top)
      (fun u => (SimTop.boot dependentAdds .low u).topIn (.fast .low)) 9).InFlight q → q < 6 →
      q = 4 := by
    intro q hq hlt
    rw [hnine] at hq
    rcases hq with ((hq | hq | hq) | hq) | hq <;> cases hq
    · omega
    · omega
    · rfl
  have hprod : Core.IsProducer (fun u => (SimTop.boot dependentAdds .low u).top.core)
      (fun u => (SimTop.boot dependentAdds .low u).top.coreIn
        ((SimTop.boot dependentAdds .low u).topIn (.fast .low))) 9 6 1 4 := by
    refine ⟨.inl (.inr ?_), by decide, by unfold Core.Writes; decide +kernel,
      fun q hq hlt _ => (honly q hq hlt).le⟩
    exact congrArg Tags.dataM1 hnine
  have hno : ¬Core.Overtaken (fun u => (SimTop.boot dependentAdds .low u).top.core)
      (fun u => (SimTop.boot dependentAdds .low u).top.coreIn
        ((SimTop.boot dependentAdds .low u).topIn (.fast .low))) 9 6 := by
    rintro ⟨x, v, hx, hlt, _, hmw, hf⟩
    obtain rfl := honly x hx hlt
    obtain rfl := Core.tags_mw_once hrun.lossless hmw hten
    revert hf
    decide +kernel
  have hde : (SimTop.boot dependentAdds .low 9).top.core.de.instr.ra1 = 1 := by decide +kernel
  have hsup := (((hrun.operands_in_order 9 6).1 (congrArg Tags.de hnine) hfirst).1 hno).1
  exact hsup.produced 4 (hde ▸ hprod) 10 hten

end RiscvCpu
