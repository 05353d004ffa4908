import RiscvCpu.Arith.SignMagnitude
import RiscvCpu.Divider
import RiscvCpu.ExecuteIsa
import RiscvCpu.Multiplier

/-!
# The multicycle unit against the instruction set

The multiplier forms the product of the magnitudes (`partialProducts_exact`), the divider
their remainder and quotient (`iterate_restore`).  With the signs put back both are what
the instruction set asks for.

A run of the unit keeps the operands of the first cycle (`Multicycle.Dividing`), so that
the operand inputs of the cycles between do not matter.
-/

namespace RiscvCpu

/-! ## Signs and halves -/

section Results

variable {n : ℕ} {x y : BitVec n} {u v : BitVec 32} {a b : BitVec 64}

theorem Isa.div_eq_sdiv (hy : y ≠ 0) : Isa.div x y = x.sdiv y := by
  unfold Isa.div
  rw [if_neg hy]
  split
  · obtain ⟨rfl, rfl⟩ := ‹_ ∧ _›
    rw [← BitVec.neg_one_eq_allOnes, BitVec.intMin_sdiv_neg_one]
  · refine SignMagnitude.ofInt_tdiv ?_
    rw [BitVec.neg_one_eq_allOnes]
    exact not_and_or.mp ‹_›

theorem Isa.rem_eq_srem (hy : y ≠ 0) : Isa.rem x y = x.srem y := by
  unfold Isa.rem
  rw [if_neg hy]
  split
  · obtain ⟨rfl, rfl⟩ := ‹_ ∧ _›
    rw [← BitVec.neg_one_eq_allOnes, SignMagnitude.srem_neg_one]
  · exact SignMagnitude.ofInt_tmod

theorem Isa.divu_eq_udiv (hy : y ≠ 0) : Isa.divu x y = x / y := by
  rw [Isa.divu, if_neg hy, ← BitVec.toNat_udiv, BitVec.ofNat_toNat, BitVec.setWidth_eq]

theorem Isa.remu_eq_umod (hy : y ≠ 0) : Isa.remu x y = x % y := by
  rw [Isa.remu, if_neg hy, ← BitVec.toNat_umod, BitVec.ofNat_toNat, BitVec.setWidth_eq]

theorem toNat_widened (v : BitVec 32) : (v.setWidth 64).toNat = v.toNat :=
  BitVec.toNat_setWidth_of_le (by decide)

theorem widened_ne_zero (h : v ≠ 0) : v.setWidth 64 ≠ 0 := by
  intro h0
  refine h (BitVec.eq_of_toNat_eq ?_)
  rw [← toNat_widened, h0]
  rfl

/-- The lower half of a number below `2 ^ 32`. -/
theorem lo_eq_of_toNat {x : BitVec 64} (h : x.toNat = v.toNat) : Isa.lo x = v := by
  apply BitVec.eq_of_toNat_eq
  rw [lo_eq_setWidth, BitVec.toNat_setWidth, h, Nat.mod_eq_of_lt v.isLt]

theorem lo_udiv : Isa.lo (u.setWidth 64 / v.setWidth 64) = u / v := by
  apply lo_eq_of_toNat
  rw [BitVec.toNat_udiv, BitVec.toNat_udiv, toNat_widened, toNat_widened]

theorem lo_umod : Isa.lo (u.setWidth 64 % v.setWidth 64) = u % v := by
  apply lo_eq_of_toNat
  rw [BitVec.toNat_umod, BitVec.toNat_umod, toNat_widened, toNat_widened]

theorem lo_mul : Isa.lo (a * b) = Isa.lo a * Isa.lo b := by
  simp only [lo_eq_setWidth]
  exact BitVec.setWidth_mul a b (by decide)

/-! ## What the units return -/

/-- The divisor is zero. -/
def zeroDivisor (op : Op) (b : BitVec 64) : Bool :=
  match op with
  | .div | .divu | .rem | .remu => b == 0
  | .divw | .divuw | .remw | .remuw => Isa.lo b == 0
  | _ => false

/-- Is the operation carried out by the divider? -/
def Op.isDiv (op : Op) : Bool := op.isMulDiv && !mulvalid op

/-- The divisor handed to the divider is not zero. -/
theorem divOperand_ne_zero {op : Op} (ho : op.isDiv = true) (h : zeroDivisor op b = false) :
    divOperand op b ≠ 0 := by
  cases op with
  | div | rem => exact SignMagnitude.abs_ne_zero (by simpa [zeroDivisor] using h)
  | divu | remu => exact fun h0 : b = 0 => by simp [zeroDivisor, h0] at h
  | divw | remw =>
    exact widened_ne_zero (SignMagnitude.abs_ne_zero (y := Isa.lo b) (by simpa [zeroDivisor] using h))
  | divuw | remuw =>
    exact widened_ne_zero (v := Isa.lo b) (by simpa [zeroDivisor] using h)
  | _ => cases ho

/-- Division by zero. -/
theorem divZero_eq {op : Op} (h : zeroDivisor op b = true) : divZero op a = Isa.mulDiv op a b := by
  cases op with
  | div | divu | rem | remu =>
    obtain rfl : b = 0 := by simpa [zeroDivisor] using h
    rfl
  | divw | divuw | remw | remuw =>
    have hb : Isa.lo b = 0 := by simpa [zeroDivisor] using h
    simp only [Isa.mulDiv, hb]
    rfl
  | _ => cases h

section Halves

variable {q r : BitVec 64}

theorem lo_quotient : (r ++ q).extractLsb' 0 32 = Isa.lo q := by
  rw [← BitVec.extractLsb'_extractLsb'_of_le (by decide : 0 + 32 ≤ 64),
    BitVec.extractLsb'_append_eq_right, Isa.lo]

theorem lo_remainder : (r ++ q).extractLsb' 64 32 = Isa.lo r := by
  refine BitVec.eq_of_getLsbD_eq fun i _ => ?_
  rw [Isa.lo, BitVec.getLsbD_extractLsb', BitVec.getLsbD_extractLsb', BitVec.getLsbD_append,
    if_neg (by omega), Nat.add_sub_cancel_left, Nat.zero_add]

theorem msb_lo : a.getLsbD 31 = (Isa.lo a).msb := by
  simp [Isa.lo, BitVec.msb_eq_getLsbD_last]

theorem msb_lo_remainder : (r ++ q).getLsbD 95 = (Isa.lo r).msb := by
  rw [BitVec.getLsbD_append, if_neg (by decide), ← msb_lo]

end Halves

/-- The result for a nonzero divisor. -/
theorem divResult_eq {op : Op} (ho : op.isDiv = true) (h : zeroDivisor op b = false) :
    divResult op a b
        ((divOperand op a % divOperand op b) ++ (divOperand op a / divOperand op b)) =
      Isa.mulDiv op a b := by
  cases op with
  | div =>
    have hb : b ≠ 0 := by simpa [zeroDivisor] using h
    rw [divResult, BitVec.extractLsb'_append_eq_right, Isa.mulDiv, Isa.div_eq_sdiv hb]
    exact SignMagnitude.sdiv_eq_signed.symm
  | divu =>
    have hb : b ≠ 0 := by simpa [zeroDivisor] using h
    rw [divResult, BitVec.extractLsb'_append_eq_right, Isa.mulDiv, Isa.divu_eq_udiv hb]
    rfl
  | rem =>
    have hb : b ≠ 0 := by simpa [zeroDivisor] using h
    have hm : (abs64 a % abs64 b).msb = false := SignMagnitude.msb_abs_mod hb
    rw [divResult, BitVec.extractLsb'_append_eq_left, Isa.mulDiv, Isa.rem_eq_srem hb,
      BitVec.msb_append, if_neg (by decide)]
    simp only [divOperand, hm, Bool.xor_false]
    exact SignMagnitude.srem_eq_signed.symm
  | remu =>
    have hb : b ≠ 0 := by simpa [zeroDivisor] using h
    rw [divResult, BitVec.extractLsb'_append_eq_left, Isa.mulDiv, Isa.remu_eq_umod hb]
    rfl
  | divw =>
    have hb : Isa.lo b ≠ 0 := by simpa [zeroDivisor] using h
    rw [divResult, lo_quotient, Isa.mulDiv, Isa.div_eq_sdiv hb, msb_lo, msb_lo,
      SignMagnitude.sdiv_eq_signed]
    exact congrArg (fun z => (negIf _ z).signExtend 64) lo_udiv
  | divuw =>
    have hb : Isa.lo b ≠ 0 := by simpa [zeroDivisor] using h
    rw [divResult, lo_quotient, Isa.mulDiv, Isa.divu_eq_udiv hb]
    exact congrArg (BitVec.signExtend 64) lo_udiv
  | remw =>
    have hb : Isa.lo b ≠ 0 := by simpa [zeroDivisor] using h
    have hlo : Isa.lo (abs32 a % abs32 b) = (Isa.lo a).abs % (Isa.lo b).abs := lo_umod
    have hm : ((Isa.lo a).abs % (Isa.lo b).abs).msb = false := SignMagnitude.msb_abs_mod hb
    rw [divResult, lo_remainder, msb_lo_remainder, Isa.mulDiv, Isa.rem_eq_srem hb, msb_lo,
      SignMagnitude.srem_eq_signed]
    simp only [divOperand, hlo, hm, Bool.xor_false]
    rfl
  | remuw =>
    have hb : Isa.lo b ≠ 0 := by simpa [zeroDivisor] using h
    rw [divResult, lo_remainder, Isa.mulDiv, Isa.remu_eq_umod hb]
    exact congrArg (BitVec.signExtend 64) lo_umod
  | _ => cases ho

theorem lo_sum (A B : BitVec 64) : (partialProducts A B).sum.extractLsb' 0 64 = A * B := by
  apply BitVec.eq_of_toNat_eq
  rw [BitVec.extractLsb'_toNat, (partialProducts_exact A B).product, BitVec.toNat_mul, Nat.shiftRight_zero]

/-- The product with its sign. -/
theorem mulResult_eq {op : Op} (ho : mulvalid op = true) {mulT : MultiplierTop}
    (hp : mulT.mul0.products = partialProducts (mulFactor op a) (mulFactor op b)) :
    mulT.result op a b = Isa.mulDiv op a b := by
  cases op with
  | mul =>
    rw [MultiplierTop.result, hp, lo_sum]
    exact SignMagnitude.mul_eq_signed.symm
  | mulw =>
    have hlo : (partialProducts (abs32 a) (abs32 b)).sum.extractLsb' 0 32 =
        (Isa.lo a).abs * (Isa.lo b).abs := by
      rw [← BitVec.extractLsb'_extractLsb'_of_le (by decide : 0 + 32 ≤ 64), lo_sum]
      refine lo_mul.trans ?_
      rw [abs32, abs32, lo_setWidth, lo_setWidth]
      rfl
    rw [MultiplierTop.result, hp, Isa.mulDiv, msb_lo, msb_lo, SignMagnitude.mul_eq_signed]
    exact congrArg (fun z => (negIf _ z).signExtend 64) hlo
  | _ => cases ho

end Results

/-! ## Runs -/

/-- `m` is a run of the unit on one operation from a cycle in which both units are in
the state `INIT`.  Operand values come with every cycle. -/
structure Multicycle.Runs (m : ℕ → Multicycle) (op : Op) (a b : ℕ → BitVec 64) : Prop where
  mulInit : (m 0).mulT.mul0.state = .init
  divInit : (m 0).divT.div0.state = .init
  next : ∀ k, m (k + 1) = (m k).step false op (a k) (b k)

/-- How many cycles after the first one the result is there. -/
def mulDivCycles (op : Op) (b : BitVec 64) : ℕ :=
  if mulvalid op then 1 else if zeroDivisor op b then 0 else 65

/-- A division under way: the operands of the first cycle are stored, and `j` steps are
done. -/
structure Multicycle.Dividing (m : Multicycle) (op : Op) (a b : BitVec 64) (j : ℕ) : Prop where
  mulState : m.mulT.mul0.state = .init
  state : m.divT.div0.state = .doing
  aStore : m.divT.aStore = a
  bStore : m.divT.bStore = b
  count : m.divT.div0.count = 1#67 <<< (64 - j)
  p : m.divT.div0.p = (restore · (divOperand op b))^[j] (0#64 ++ divOperand op a)

/-- A multiplication under way: the partial products of the first cycle are stored. -/
structure Multicycle.Multiplying (m : Multicycle) (op : Op) (a b : BitVec 64) : Prop where
  state : m.mulT.mul0.state = .doing
  divState : m.divT.div0.state = .init
  aStore : m.mulT.aStore = a
  bStore : m.mulT.bStore = b
  products : m.mulT.mul0.products = partialProducts (mulFactor op a) (mulFactor op b)

section Runs

variable {m : Multicycle} {op : Op} {a b x y : BitVec 64} {j : ℕ}

theorem mulvalid_of_isDiv (h : op.isDiv = true) : mulvalid op = false := by
  cases op <;> first | rfl | cases h

/-- A division leaves the multiplier alone. -/
theorem mulDone_of_isDiv (ho : op.isDiv = true) (h : m.mulT.mul0.state = .init) :
    m.mulT.done op = true ∧ (m.step false op a b).mulT.mul0.state = .init := by
  have hnxt : m.mulT.mul0.stateNxt (mulvalid op) = .init := by
    simp [Multiplier.stateNxt, mulvalid_of_isDiv ho, h]
  exact ⟨by simp [MultiplierTop.done, Multiplier.done, hnxt], hnxt⟩

/-- The divider starts where the divisor is not zero. -/
theorem divvalid_init (ho : op.isDiv = true) (h : m.divT.div0.state = .init) :
    m.divT.divvalid op b = !zeroDivisor op b := by
  have hi : m.divT.inputInit = true := by rw [DividerTop.inputInit, h]; rfl
  cases op <;> first | (cases ho; done) | simp [DividerTop.divvalid, zeroDivisor, hi, Isa.lo]

/-- A division under way goes on, whatever the operand inputs show. -/
theorem divvalid_doing (ho : op.isDiv = true) (h : m.divT.div0.state = .doing) :
    m.divT.divvalid op b = true := by
  have hi : m.divT.inputInit = false := by rw [DividerTop.inputInit, h]; rfl
  cases op <;> first | (cases ho; done) | simp [DividerTop.divvalid, hi]

/-- A multiplication leaves the divider alone. -/
theorem divvalid_of_mulvalid (ho : mulvalid op = true) : m.divT.divvalid op b = false := by
  cases op <;> first | rfl | cases ho

theorem Multicycle.Dividing.iterated (h : m.Dividing op a b j) :
    m.divT.div0.Iterated (divOperand op a) (divOperand op b) j := ⟨h.state, h.count, h.p⟩

/-- The first cycle of a division. -/
theorem Multicycle.start_dividing (ho : op.isDiv = true) (hz : zeroDivisor op b = false)
    (hm : m.mulT.mul0.state = .init) (hd : m.divT.div0.state = .init) :
    m.doing op b = true ∧ (m.step false op a b).Dividing op a b 0 := by
  have hv : m.divT.divvalid op b = true := by rw [divvalid_init ho hd, hz]; rfl
  have hi : m.divT.inputInit = true := by rw [DividerTop.inputInit, hd]; rfl
  have hdiv : (m.step false op a b).divT.div0 =
      m.divT.div0.step false true (divOperand op a) (divOperand op b) := by
    simp [Multicycle.step, DividerTop.step, DividerTop.operand, hv, hi]
  obtain ⟨hdone, hiter⟩ := Divider.iterated_zero hd (rfl : true = true)
  rw [← hdiv] at hiter
  refine ⟨?_, (mulDone_of_isDiv ho hm).2, hiter.state, ?_, ?_, hiter.count, hiter.p⟩
  · simp [Multicycle.doing, DividerTop.done, hv, hdone]
  · simp [Multicycle.step, DividerTop.step, hv, hi]
  · simp [Multicycle.step, DividerTop.step, hv, hi]

/-- A further cycle of a division. -/
theorem Multicycle.Dividing.step (ho : op.isDiv = true) (h : m.Dividing op a b j) (hj : j < 64) :
    m.doing op y = true ∧ (m.step false op x y).Dividing op a b (j + 1) := by
  have hv : m.divT.divvalid op y = true := divvalid_doing ho h.state
  have hi : m.divT.inputInit = false := by rw [DividerTop.inputInit, h.state]; rfl
  have hdiv : (m.step false op x y).divT.div0 =
      m.divT.div0.step false true (divOperand op a) (divOperand op b) := by
    simp [Multicycle.step, DividerTop.step, DividerTop.operand, hv, hi, h.aStore, h.bStore]
  obtain ⟨hdone, hiter⟩ := h.iterated.step hj true
  rw [← hdiv] at hiter
  refine ⟨?_, (mulDone_of_isDiv ho h.mulState).2, hiter.state, ?_, ?_, hiter.count, hiter.p⟩
  · simp [Multicycle.doing, DividerTop.done, hv, hdone]
  · simp [Multicycle.step, DividerTop.step, hi, h.aStore]
  · simp [Multicycle.step, DividerTop.step, hi, h.bStore]

/-- The last cycle of a division. -/
theorem Multicycle.Dividing.last (ho : op.isDiv = true) (hz : zeroDivisor op b = false)
    (h : m.Dividing op a b 64) :
    m.doing op y = false ∧ m.multiC op x y = Isa.mulDiv op a b := by
  have hv : m.divT.divvalid op y = true := divvalid_doing ho h.state
  have hi : m.divT.inputInit = false := by rw [DividerTop.inputInit, h.state]; rfl
  have hdone : m.divT.done op y = true := h.iterated.done
  have hmul : ¬(op = .mul ∨ op = .mulw) := by
    rintro (rfl | rfl) <;> cases ho
  refine ⟨?_, ?_⟩
  · rw [Multicycle.doing, (mulDone_of_isDiv (a := 0) (b := 0) ho h.mulState).1, hdone]
    rfl
  · rw [Multicycle.multiC, if_neg hmul, DividerTop.c, hv, DividerTop.operand, DividerTop.operand,
      hv, hi, h.p, h.aStore, h.bStore, iterate_restore (divOperand_ne_zero ho hz)]
    exact divResult_eq ho hz

/-- A division by zero takes one cycle. -/
theorem Multicycle.divide_zero (ho : op.isDiv = true) (hz : zeroDivisor op b = true)
    (hm : m.mulT.mul0.state = .init) (hd : m.divT.div0.state = .init) :
    m.doing op b = false ∧ m.multiC op a b = Isa.mulDiv op a b := by
  have hv : m.divT.divvalid op b = false := by rw [divvalid_init ho hd, hz]; rfl
  have hmul : ¬(op = .mul ∨ op = .mulw) := by
    rintro (rfl | rfl) <;> cases ho
  refine ⟨?_, ?_⟩
  · simp [Multicycle.doing, DividerTop.done, Divider.done, Divider.stateNxt, hd, hv,
      (mulDone_of_isDiv (a := 0) (b := 0) ho hm).1]
  · rw [Multicycle.multiC, if_neg hmul, DividerTop.c, hv]
    exact divZero_eq hz

/-- The first cycle of a multiplication. -/
theorem Multicycle.start_multiplying (ho : mulvalid op = true) (hm : m.mulT.mul0.state = .init)
    (hd : m.divT.div0.state = .init) :
    m.doing op b = true ∧ (m.step false op a b).Multiplying op a b := by
  have hnxt : m.mulT.mul0.stateNxt (mulvalid op) = .doing := by
    simp [Multiplier.stateNxt, ho, hm]
  have hdone : m.mulT.done op = false := by
    simp [MultiplierTop.done, Multiplier.done, hnxt]
  refine ⟨by simp [Multicycle.doing, hdone], hnxt, ?_, ?_, ?_, ?_⟩
  · simp [Multicycle.step, DividerTop.step, Divider.step, Divider.stateNxt,
      divvalid_of_mulvalid ho, hd]
  · simp [Multicycle.step, MultiplierTop.step, hdone]
  · simp [Multicycle.step, MultiplierTop.step, hdone]
  · simp [Multicycle.step, MultiplierTop.step, Multiplier.step, MultiplierTop.operand, hdone, ho]

/-- The second and last cycle of a multiplication. -/
theorem Multicycle.Multiplying.last (ho : mulvalid op = true) (h : m.Multiplying op a b) :
    m.doing op y = false ∧ m.multiC op x y = Isa.mulDiv op a b := by
  have hdone : m.mulT.done op = true := by
    simp [MultiplierTop.done, Multiplier.done, Multiplier.stateNxt, h.state]
  refine ⟨?_, ?_⟩
  · simp [Multicycle.doing, hdone, DividerTop.done, Divider.done, Divider.stateNxt, h.divState,
      divvalid_of_mulvalid ho]
  · have hmul : op = .mul ∨ op = .mulw := by simpa [mulvalid] using ho
    rw [Multicycle.multiC, if_pos hmul, MultiplierTop.c, MultiplierTop.operand,
      MultiplierTop.operand, hdone, h.aStore, h.bStore]
    exact mulResult_eq ho h.products

end Runs

section Result

variable {m : ℕ → Multicycle} {op : Op} {a b : ℕ → BitVec 64}

/-- The state of a division after its first cycle, for any operand inputs. -/
theorem Multicycle.Runs.dividing (h : Multicycle.Runs m op a b) (ho : op.isDiv = true)
    (hz : zeroDivisor op (b 0) = false) {j : ℕ} (hj : j ≤ 64) :
    (m (j + 1)).Dividing op (a 0) (b 0) j := by
  induction j with
  | zero =>
    rw [h.next 0]
    exact (Multicycle.start_dividing ho hz h.mulInit h.divInit).2
  | succ j ih =>
    rw [h.next (j + 1)]
    exact ((ih (by omega)).step ho (by omega)).2

/-- Multiplication and division: the unit is busy for the cycles the operation takes, and
then shows the result for the operands of the first cycle, whatever the operand inputs
show in the cycles between. -/
theorem Multicycle.Runs.result (h : Multicycle.Runs m op a b) (ho : op.isMulDiv = true) :
    (∀ k < mulDivCycles op (b 0), (m k).doing op (b k) = true) ∧
    (m (mulDivCycles op (b 0))).doing op (b (mulDivCycles op (b 0))) = false ∧
    (m (mulDivCycles op (b 0))).multiC op (a (mulDivCycles op (b 0)))
      (b (mulDivCycles op (b 0))) = Isa.mulDiv op (a 0) (b 0) := by
  by_cases hmul : mulvalid op = true
  · have hn : mulDivCycles op (b 0) = 1 := if_pos hmul
    obtain ⟨hdoing, hm⟩ := Multicycle.start_multiplying (a := a 0) (b := b 0) hmul h.mulInit
      h.divInit
    rw [hn, h.next 0]
    refine ⟨fun k hk => ?_, hm.last hmul⟩
    obtain rfl : k = 0 := by omega
    exact hdoing
  · have hdiv : op.isDiv = true := by
      rw [Op.isDiv, ho, Bool.eq_false_iff.mpr hmul]
      rfl
    cases hz : zeroDivisor op (b 0) with
    | true =>
      have hn : mulDivCycles op (b 0) = 0 := by
        rw [mulDivCycles, if_neg hmul, hz]
        rfl
      rw [hn]
      exact ⟨fun k hk => absurd hk (Nat.not_lt_zero k),
        Multicycle.divide_zero hdiv hz h.mulInit h.divInit⟩
    | false =>
      have hn : mulDivCycles op (b 0) = 65 := by
        rw [mulDivCycles, if_neg hmul, hz]
        rfl
      rw [hn]
      refine ⟨fun k hk => ?_, (h.dividing hdiv hz (Nat.le_refl 64)).last hdiv hz⟩
      cases k with
      | zero => exact (Multicycle.start_dividing (a := a 0) hdiv hz h.mulInit h.divInit).1
      | succ j =>
        exact ((h.dividing hdiv hz (by omega)).step (x := a (j + 1)) hdiv (by omega)).1

/-- The unit right after a reset. -/
def Multicycle.idle : Multicycle := ⟨⟨0, 0, ⟨0, .init⟩⟩, ⟨0, 0, ⟨.init, 0, 0⟩⟩⟩

/-- The run of one operation, with the operands in the first cycle alone. -/
def Multicycle.operate (op : Op) (a b : BitVec 64) : ℕ → Multicycle
  | 0 => .idle
  | k + 1 => (operate op a b k).step false op (if k = 0 then a else 0) (if k = 0 then b else 0)

/-- The division whose quotient does not fit. -/
theorem operate_divw_overflow :
    (Multicycle.operate .divw 0x80000000#64 0xffffffff#64 65).multiC .divw 0 0 =
      0xffffffff80000000#64 := by
  have h : Multicycle.Runs (Multicycle.operate .divw 0x80000000#64 0xffffffff#64) .divw
      (fun k => if k = 0 then 0x80000000#64 else 0) (fun k => if k = 0 then 0xffffffff#64 else 0) :=
    ⟨rfl, rfl, fun _ => rfl⟩
  exact (h.result rfl).2.2

end Result

end RiscvCpu
