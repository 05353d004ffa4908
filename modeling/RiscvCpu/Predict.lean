import RiscvCpu.Decoded
import RiscvCpu.SimTop

/-!
# Prediction and resolution

Fetch predicts from the opcode of the word alone, decode resolves what the decoder makes
of it.  `bp_hit` compares the two directions and drives the pc; the flush of `fd` asks in
addition for a decoded jump or branch.  The two differ where the predictor takes for a
jump or branch what the decoder does not: a word at a misaligned pc, and a branch opcode
with a reserved `funct3`.
-/

namespace RiscvCpu

/-! ## Jumps and branches -/

/-- The operations `change_pcsrc` can resolve to a jump. -/
def Op.isJump (op : Op) : Bool :=
  match op with
  | .jal | .jalr | .beq | .bne | .blt | .bge | .bltu | .bgeu => true
  | _ => false

/-- The kinds of instruction a wrong prediction of which flushes `fd`. -/
def Instr.flushes (instr : Instr) : Bool :=
  instr.ctl.bj == .bBeq || instr.ctl.bj == .jJal || instr.ctl.bj == .iJalr

theorem resolvePcsrc_isJump {op : Op} {x y : BitVec 64} (h : resolvePcsrc op x y = .pcjump) :
    op.isJump = true := by
  cases op <;> first | rfl | cases h

section Decoder

variable {raw : BitVec 32}

theorem flushes_ite {p : Prop} [Decidable p] {d e : Decoded}
    (hd : d.instr.op.isJump = true → d.instr.flushes = true)
    (he : e.instr.op.isJump = true → e.instr.flushes = true)
    (h : (if p then d else e).instr.op.isJump = true) :
    (if p then d else e).instr.flushes = true := by
  split at h
  · rw [if_pos ‹_›]
    exact hd h
  · rw [if_neg ‹_›]
    exact he h

/-- A decoded jump or branch is of one of the kinds that flush. -/
theorem isJump_flushes : (decoder raw).instr.op.isJump = true →
    (decoder raw).instr.flushes = true := by
  rw [decoder]
  repeat' first
    | exact id
    | refine flushes_ite ?_ ?_

theorem decoder_jal (h : opOf raw = opJal) : decoder raw = decodeJal raw := by
  simp [decoder, h, opAddi, opAdd, opJalr, opBeq, opLd, opSd, opLui, opAuipc, opJal]

theorem decoder_beq (h : opOf raw = opBeq) : decoder raw = decodeBeq raw := by
  simp [decoder, h, opAddi, opAdd, opJalr, opBeq]

/-- A branch opcode is decoded to a branch, or to nothing for a reserved `funct3`. -/
theorem decodeBeq_cases (raw : BitVec 32) :
    (∃ op, op.isJump = true ∧ op ≠ .jalr ∧ decodeBeq raw = branch raw op) ∧
      f3Of raw ≠ 0b010#3 ∧ f3Of raw ≠ 0b011#3 ∨
    decodeBeq raw = 0 ∧ (f3Of raw = 0b010#3 ∨ f3Of raw = 0b011#3) := by
  unfold decodeBeq
  split_ifs with h0 h1 h4 h5 h6 h7
  · exact .inl ⟨⟨_, rfl, by decide, rfl⟩, by simp [h0], by simp [h0]⟩
  · exact .inl ⟨⟨_, rfl, by decide, rfl⟩, by simp [h1], by simp [h1]⟩
  · exact .inl ⟨⟨_, rfl, by decide, rfl⟩, by simp [h4], by simp [h4]⟩
  · exact .inl ⟨⟨_, rfl, by decide, rfl⟩, by simp [h5], by simp [h5]⟩
  · exact .inl ⟨⟨_, rfl, by decide, rfl⟩, by simp [h6], by simp [h6]⟩
  · exact .inl ⟨⟨_, rfl, by decide, rfl⟩, by simp [h7], by simp [h7]⟩
  · exact .inr ⟨rfl, by bv_omega⟩

end Decoder

/-! ## Agreement -/

/-- The word in decode, with the direction predicted when it was fetched. -/
def Bpb.fetched (bpb : Bpb) (raw : BitVec 32) (pc : BitVec 64) : FetchData :=
  ⟨pc, raw, (bpb.bpResult raw pc).pcsrc⟩

/-- Prediction and resolution of a word agree.  A hit has the resolved target, for all
operands.  Where a cycle that redirects the pc to the resolved target of a miss ends,
the word fetched behind it is flushed, whatever else the core holds. -/
def Bpb.Agrees (bpb : Bpb) (raw : BitVec 32) (pc : BitVec 64) : Prop :=
  (∀ rd1 rd2, (bpb.fetched raw pc).bpHit rd1 rd2 = true →
    (bpb.bpResult raw pc).targetPc = ((bpb.fetched raw pc).instrCommit rd1 rd2).targetPc) ∧
  ∀ (c : Core) (i : CoreIn), c.fd = bpb.fetched raw pc → c.bpHit = false →
    c.pipeReset i = false → (c.regstallEn i).pc = false →
    (c.step i).fetch.pc = c.instrCommit.targetPc ∧
      (c.regflushEn i).fd = true ∧ (c.step i).fd = 0

/-- The predictor takes the word for a jump or branch to be taken, and the decoder does
not know it as one. -/
def Bpb.Misread (bpb : Bpb) (raw : BitVec 32) (pc : BitVec 64) : Prop :=
  opOf raw = opJal ∧ pc.extractLsb' 0 2 ≠ 0 ∨
  opOf raw = opBeq ∧ (bpb (bpbEntry pc)).jump = true ∧
    (pc.extractLsb' 0 2 ≠ 0 ∨ f3Of raw = 0b010#3 ∨ f3Of raw = 0b011#3)

section Agreement

variable {bpb : Bpb} {raw : BitVec 32} {pc : BitVec 64}

theorem bpResult_jal (h : opOf raw = opJal) :
    bpb.bpResult raw pc = ⟨pc, pc + immJ raw, .pcjump⟩ := by
  simp [Bpb.bpResult, h]

theorem bpResult_beq (h : opOf raw = opBeq) :
    bpb.bpResult raw pc =
      if (bpb (bpbEntry pc)).jump then ⟨pc, pc + immB raw, .pcjump⟩
      else ⟨pc, pc + 4, .pcplus4⟩ := by
  cases hj : (bpb (bpbEntry pc)).jump <;>
    simp [Bpb.bpResult, TwoBitCounter.bpPcsrc, h, hj, opBeq, opJal]

theorem bpResult_other (hj : opOf raw ≠ opJal) (hb : opOf raw ≠ opBeq) :
    bpb.bpResult raw pc = ⟨pc, pc + 4, .pcplus4⟩ := by
  simp [Bpb.bpResult, hj, hb]

/-- Resolution of a word that is no jump. -/
theorem instrCommit_zero {d : FetchData} (h : d.instr = 0) (x y : BitVec 64) :
    d.instrCommit x y = ⟨d.pcO, d.pcO + 4, .pcplus4⟩ := by
  rw [FetchData.instrCommit, h]
  rfl

/-- Resolution where `jalr` is out of the question. -/
theorem changePcsrc_target {instr : Instr} (h : instr.op ≠ .jalr) (x y : BitVec 64) :
    changePcsrc pc instr x y =
      ⟨pc, if resolvePcsrc instr.op x y = .pcjump then pc + instr.imm else pc + 4,
        resolvePcsrc instr.op x y⟩ := by
  unfold changePcsrc
  cases resolvePcsrc instr.op x y <;> simp [h]

/-- What decode makes of a word predicted as a jump: nothing, if it is misread, else a
jump or branch to the predicted target. -/
theorem fetched_predicted (hp : (bpb.bpResult raw pc).pcsrc = .pcjump) :
    bpb.Misread raw pc ∧ (bpb.fetched raw pc).instr = 0 ∨
    ¬bpb.Misread raw pc ∧ (bpb.fetched raw pc).instr.op.isJump = true ∧
      (bpb.fetched raw pc).instr.op ≠ .jalr ∧
      (bpb.bpResult raw pc).targetPc = pc + (bpb.fetched raw pc).instr.imm := by
  have hword : (bpb.fetched raw pc).instr =
      (decoder (if pc.extractLsb' 0 2 = 0 then raw else 0)).instr := rfl
  by_cases hj : opOf raw = opJal
  · have hb : opOf raw ≠ opBeq := by rw [hj]; decide
    by_cases ha : pc.extractLsb' 0 2 = 0
    · rw [hword, if_pos ha, decoder_jal hj, bpResult_jal hj]
      exact .inr ⟨fun h => by simp [Bpb.Misread, ha, hb] at h, rfl, Op.noConfusion, rfl⟩
    · rw [hword, if_neg ha, decoder_zero]
      exact .inl ⟨.inl ⟨hj, ha⟩, rfl⟩
  · by_cases hb : opOf raw = opBeq
    · cases ht : (bpb (bpbEntry pc)).jump with
      | false => rw [bpResult_beq hb, ht] at hp; cases hp
      | true =>
        by_cases ha : pc.extractLsb' 0 2 = 0
        · rw [hword, if_pos ha, decoder_beq hb, bpResult_beq hb, ht]
          rcases decodeBeq_cases raw with ⟨⟨op, hop, hne, he⟩, h2, h3⟩ | ⟨he, hf⟩
          · rw [he]
            exact .inr ⟨fun h => by simp [Bpb.Misread, ha, hj, h2, h3] at h, hop, hne, rfl⟩
          · rw [he]
            exact .inl ⟨.inr ⟨hb, ht, .inr hf⟩, rfl⟩
        · rw [hword, if_neg ha, decoder_zero]
          exact .inl ⟨.inr ⟨hb, ht, .inl ha⟩, rfl⟩
    · rw [bpResult_other hj hb] at hp
      cases hp

/-- A misread word is predicted as a jump. -/
theorem Bpb.Misread.predicted (h : bpb.Misread raw pc) :
    (bpb.bpResult raw pc).pcsrc = .pcjump := by
  rcases h with ⟨hj, _⟩ | ⟨hb, ht, _⟩
  · rw [bpResult_jal hj]
  · rw [bpResult_beq hb, ht]
    rfl

/-- A hit has the resolved target. -/
theorem fetched_hit {x y : BitVec 64} (h : (bpb.fetched raw pc).bpHit x y = true) :
    (bpb.bpResult raw pc).targetPc = ((bpb.fetched raw pc).instrCommit x y).targetPc := by
  have hdir : (bpb.bpResult raw pc).pcsrc = ((bpb.fetched raw pc).instrCommit x y).pcsrc := by
    simpa [FetchData.bpHit, Bpb.fetched] using h
  cases hp : (bpb.bpResult raw pc).pcsrc with
  | pcplus4 =>
    have hr : resolvePcsrc (bpb.fetched raw pc).instr.op x y = .pcplus4 := hdir.symm.trans hp
    have ht : (bpb.bpResult raw pc).targetPc = pc + 4 :=
      if_neg (by change (bpb.bpResult raw pc).pcsrc ≠ _; rw [hp]; decide)
    rw [ht, FetchData.instrCommit, changePcsrc, hr]
    rfl
  | pcjump =>
    rw [hp] at hdir
    rcases fetched_predicted hp with ⟨_, hz⟩ | ⟨_, _, hne, ht⟩
    · rw [instrCommit_zero hz] at hdir
      cases hdir
    · rw [FetchData.instrCommit, changePcsrc_target hne] at hdir ⊢
      have hr : resolvePcsrc (bpb.fetched raw pc).instr.op x y = .pcjump := hdir.symm
      rw [ht, hr]
      rfl

/-- A miss is the fault of an instruction of one of the kinds that flush, unless the word
is misread. -/
theorem fetched_miss {x y : BitVec 64} (hm : ¬bpb.Misread raw pc)
    (h : (bpb.fetched raw pc).bpHit x y = false) :
    (bpb.fetched raw pc).instr.flushes = true := by
  refine isJump_flushes ?_
  cases hp : (bpb.bpResult raw pc).pcsrc with
  | pcjump =>
    rcases fetched_predicted hp with ⟨hmis, _⟩ | ⟨_, hjump, _⟩
    · exact absurd hmis hm
    · exact hjump
  | pcplus4 =>
    cases hr : ((bpb.fetched raw pc).instrCommit x y).pcsrc with
    | pcjump => exact resolvePcsrc_isJump hr
    | pcplus4 =>
      change ((bpb.bpResult raw pc).pcsrc == _) = false at h
      rw [hp, hr] at h
      cases h

/-- The cycle that redirects the pc after a miss of an instruction that flushes. -/
theorem Core.step_miss {c : Core} {i : CoreIn} (hf : c.fd.instr.flushes = true)
    (hb : c.bpHit = false) (hr : c.pipeReset i = false) (hs : (c.regstallEn i).pc = false) :
    (c.step i).fetch.pc = c.instrCommit.targetPc ∧
      (c.regflushEn i).fd = true ∧ (c.step i).fd = 0 := by
  have hflush : (c.regflushEn i).fd = true := by
    change (c.fd.instr.flushes && !c.bpHit) = true
    rw [hf, hb]
    rfl
  have hfd : (c.regstallEn i).fd = false := hs
  rw [Core.pipeReset, Bool.or_eq_false_iff] at hr
  refine ⟨?_, hflush, ?_⟩
  · have hcsr : (c.csrPcNxt i.pins).csrPcValid = false := hr.2
    simp [Core.step, Fetch.step, pcselect, Fetch.pcJumpTar, hr.1, hcsr, hs, hb]
  · simp [Core.step, Core.pipeReset, hr.1, hr.2, hflush, hfd]

/-- A cycle in which nothing answers. -/
def CoreIn.quiet : CoreIn := ⟨false, ⟨false, false, 0⟩, ⟨false, false, 0⟩, .low⟩

theorem clear_pipeReset : Core.clear.pipeReset .quiet = false := by decide +kernel

/-- The word of a misread is a bubble to decode, and its miss flushes nothing. -/
theorem Bpb.Misread.not_agrees (h : bpb.Misread raw pc) : ¬bpb.Agrees raw pc := by
  have hz : (bpb.fetched raw pc).instr = 0 := by
    rcases fetched_predicted h.predicted with ⟨_, hz⟩ | ⟨hn, _⟩
    · exact hz
    · exact absurd h hn
  -- the word alone in an idle core
  let c : Core := { Core.clear with fd := bpb.fetched raw pc }
  have hmiss : c.bpHit = false := by
    change ((bpb.bpResult raw pc).pcsrc == ((bpb.fetched raw pc).instrCommit _ _).pcsrc) = false
    rw [h.predicted, instrCommit_zero hz]
    rfl
  have hstall : (c.regstallEn .quiet).pc = false := by
    change ({ c.hazard .quiet with fo := (bpb.fetched raw pc).instr }.regstallEn).pc = false
    rw [hz]
    rfl
  have hflush : (c.regflushEn .quiet).fd = false := by
    change ((bpb.fetched raw pc).instr.flushes && _) = false
    rw [hz]
    rfl
  intro ha
  have := (ha.2 c .quiet rfl hmiss clear_pipeReset hstall).2.1
  rw [hflush] at this
  cases this

end Agreement

/-- Prediction and resolution of a word agree but where it is misread. -/
theorem Bpb.agrees_iff (bpb : Bpb) (raw : BitVec 32) (pc : BitVec 64) :
    bpb.Agrees raw pc ↔ ¬bpb.Misread raw pc := by
  constructor
  · intro ha hm
    exact hm.not_agrees ha
  · refine fun hm => ⟨fun _ _ => fetched_hit, fun c i hc hb hr hs => ?_⟩
    have hmiss : (bpb.fetched raw pc).bpHit c.rd1 c.rd2 = false := by
      rw [← hc]
      exact hb
    refine Core.step_miss ?_ hb hr hs
    rw [hc]
    exact fetched_miss hm hmiss

/-- `auipc x1, 0`, then `jalr x0, 10(x1)`, which leads into the middle of `jal x0, 16`. -/
def jumpIntoJal : List (BitVec 32) := [0x00000097#32, 0x00a08067#32, 0x0100006f#32]

/-- The `jal` fetched at the misaligned pc is predicted to jump and decoded as a bubble.
The pc goes back to where the bubble leads, and the word fetched at the predicted target
enters `fd`. -/
theorem jumpIntoJal_disagrees :
    ((SimTop.boot jumpIntoJal .low 12).top.core.fd =
      (SimTop.boot jumpIntoJal .low 10).top.core.fetch.bpb.fetched 0x0100006f#32 0x8000000a#64) ∧
    (SimTop.boot jumpIntoJal .low 12).top.core.bpHit = false ∧
    (SimTop.boot jumpIntoJal .low 13).top.core.fetch.pc = 0x8000000e#64 ∧
    (SimTop.boot jumpIntoJal .low 13).top.core.fd = ⟨0x8000001a#64, nop, .pcplus4⟩ ∧
    ¬(SimTop.boot jumpIntoJal .low 10).top.core.fetch.bpb.Agrees 0x0100006f#32 0x8000000a#64 := by
  have hfd : (SimTop.boot jumpIntoJal .low 12).top.core.fd =
      (SimTop.boot jumpIntoJal .low 10).top.core.fetch.bpb.fetched 0x0100006f#32 0x8000000a#64 := by
    decide +kernel
  have hhit : (SimTop.boot jumpIntoJal .low 12).top.core.bpHit = false := by
    decide +kernel
  refine ⟨hfd, hhit, by decide +kernel, by decide +kernel, fun ha => ?_⟩
  have hz := (ha.2 _ ((SimTop.boot jumpIntoJal .low 12).top.coreIn
    ((SimTop.boot jumpIntoJal .low 12).topIn (.fast .low))) hfd hhit
    (by decide +kernel) (by decide +kernel)).2.1
  exact absurd hz (by decide +kernel)

end RiscvCpu
