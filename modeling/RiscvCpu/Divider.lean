import RiscvCpu.Arith.LongDivision
import RiscvCpu.Execute

/-!
# The divider

Restoring division of the words `A` and `B`, one bit of `A` in a cycle.  The register
`p` holds the remainder in its upper half and the digits of the quotient, as they come,
in its lower one.  Each step is one of long division on the numbers, since the doubled
register never overflows, and a one-hot counter ends the loop after the last digit.
-/

namespace RiscvCpu

/-! ## The division loop -/

section Division

variable {A B : BitVec 64} {p : BitVec 128} {j k : ℕ}

theorem toNat_or_one (x : BitVec 64) (h : x.toNat % 2 = 0) :
    (x ||| 1#64).toNat = x.toNat + 1 := by
  have hx : x.toNat = (x.toNat / 2) <<< 1 := by
    rw [Nat.shiftLeft_eq]
    omega
  have hor : (x.toNat / 2) <<< 1 + 1 = (x.toNat / 2) <<< 1 ||| 1 :=
    Nat.shiftLeft_add_eq_or_of_lt (by decide) _
  rw [BitVec.toNat_or, BitVec.toNat_ofNat, hx]
  exact hor.symm

/-- A step of the divider is one of long division, as long as the doubled register
fits. -/
theorem toNat_restore (h : 2 * p.toNat < 2 ^ 128) :
    (restore p B).toNat = LongDivision.step 64 B.toNat p.toNat := by
  have hq : (p <<< 1).toNat = 2 * p.toNat := by
    rw [BitVec.toNat_shiftLeft, Nat.shiftLeft_eq, Nat.mod_eq_of_lt (by omega)]
    omega
  have hhi : ((p <<< 1).extractLsb' 64 64).toNat = 2 * p.toNat / 2 ^ 64 := by
    rw [BitVec.extractLsb'_toNat, hq, Nat.shiftRight_eq_div_pow, Nat.mod_eq_of_lt (by omega)]
  have hlo : ((p <<< 1).extractLsb' 0 64).toNat = 2 * p.toNat % 2 ^ 64 := by
    rw [BitVec.extractLsb'_toNat, hq, Nat.shiftRight_zero]
  have hle : B ≤ (p <<< 1).extractLsb' 64 64 ↔ B.toNat * 2 ^ 64 ≤ 2 * p.toNat := by
    rw [BitVec.le_def, hhi, Nat.le_div_iff_mul_le (by decide)]
  rw [restore, LongDivision.step]
  by_cases hc : B.toNat * 2 ^ 64 ≤ 2 * p.toNat
  · have hB : B.toNat ≤ 2 * p.toNat / 2 ^ 64 := (Nat.le_div_iff_mul_le (by decide)).mpr hc
    rw [if_pos (hle.mpr hc), if_pos hc, BitVec.toNat_append, toNat_or_one _ (by omega),
      BitVec.toNat_sub, hhi, hlo, ← Nat.shiftLeft_add_eq_or_of_lt (by omega), Nat.shiftLeft_eq]
    have := B.isLt
    omega
  · rw [if_neg (fun h' => hc (hle.mp h')), if_neg hc, hq]

/-- The register after `k` steps. -/
theorem toNat_iterate_restore (hB : B ≠ 0) (hk : k ≤ 64) :
    ((restore · B)^[k] (0#64 ++ A)).toNat = LongDivision.digits 64 A.toNat B.toNat k := by
  have hpos : 0 < B.toNat := by
    rcases Nat.eq_zero_or_pos B.toNat with h | h
    · exact absurd (BitVec.eq_of_toNat_eq (by simpa using h)) hB
    · exact h
  induction k with
  | zero =>
    rw [LongDivision.digits_zero A.isLt, Function.iterate_zero_apply, BitVec.toNat_append]
    simp
  | succ k ih =>
    have ih := ih (by omega)
    rw [Function.iterate_succ_apply', toNat_restore, ih, LongDivision.step_digits hpos A.isLt hk]
    rw [ih]
    exact LongDivision.two_mul_digits_lt A.isLt hk

/-- Remainder and quotient after the last step. -/
theorem iterate_restore (hB : B ≠ 0) :
    (restore · B)^[64] (0#64 ++ A) = (A % B) ++ (A / B) := by
  apply BitVec.eq_of_toNat_eq
  rw [toNat_iterate_restore hB (Nat.le_refl 64), LongDivision.digits_last, BitVec.toNat_append,
    ← Nat.shiftLeft_add_eq_or_of_lt (BitVec.isLt _), Nat.shiftLeft_eq, BitVec.toNat_umod,
    BitVec.toNat_udiv]

/-- The register after `k` steps, by its halves: the remainder and the last digits of the
quotient.  Before the last step its top bit is clear. -/
theorem halves_iterate_restore (hB : B ≠ 0) (hk : k ≤ 64) :
    (((restore · B)^[k] (0#64 ++ A)).extractLsb' 64 64).toNat =
        A.toNat / 2 ^ (64 - k) % B.toNat ∧
      ((restore · B)^[k] (0#64 ++ A)).toNat % 2 ^ k = A.toNat / 2 ^ (64 - k) / B.toNat ∧
      (k < 64 → ((restore · B)^[k] (0#64 ++ A)).getLsbD 127 = false) := by
  have hdigits := toNat_iterate_restore (A := A) hB hk
  have hlt := ((restore · B)^[k] (0#64 ++ A)).isLt
  have hhalf := LongDivision.digits_div (b := B.toNat) A.isLt hk
  refine ⟨?_, ?_, fun hk' => ?_⟩
  · rw [BitVec.extractLsb'_toNat, Nat.shiftRight_eq_div_pow, hdigits, hhalf, Nat.mod_eq_of_lt]
    rw [hdigits] at hlt
    omega
  · rw [hdigits, LongDivision.digits_mod A.isLt hk]
  · have htwice := LongDivision.two_mul_digits_lt (b := B.toNat) A.isLt hk'
    rw [← BitVec.testBit_toNat, hdigits]
    exact Nat.testBit_lt_two_pow (by omega)

end Division

/-! ## Runs -/

/-- `d` is a run of the divider on `A` and `B`, which are held, from a cycle in which it
is in the state `INIT` and is asked to divide. -/
structure Divider.Divides (d : ℕ → Divider) (valid : ℕ → Bool) (A B : BitVec 64) : Prop where
  init : (d 0).state = .init
  asked : valid 0 = true
  next : ∀ n, d (n + 1) = (d n).step false (valid n) A B

/-- The divider after `k` steps of the loop. -/
structure Divider.Iterated (div0 : Divider) (A B : BitVec 64) (k : ℕ) : Prop where
  state : div0.state = .doing
  count : div0.count = 1#67 <<< (64 - k)
  p : div0.p = (restore · B)^[k] (0#64 ++ A)

section Loop

variable {div0 : Divider} {A B : BitVec 64} {valid : Bool} {j k : ℕ}

/-- The counter is one bit, shifted out after its last position. -/
theorem count_shift (hj : j < 64) :
    (1#67 <<< (64 - j)) >>> 1 = 1#67 <<< (64 - (j + 1)) ∧ (1#67 <<< (64 - j)) >>> 1 ≠ 0 := by
  obtain ⟨n, hn⟩ : ∃ n, 64 - j = n + 1 := ⟨63 - j, by omega⟩
  have hshift : (1#67 <<< (n + 1)) >>> 1 = 1#67 <<< n := by
    apply BitVec.eq_of_toNat_eq
    rw [BitVec.toNat_ushiftRight, ← BitVec.twoPow_eq, ← BitVec.twoPow_eq,
      BitVec.toNat_twoPow_of_lt (by omega), BitVec.toNat_twoPow_of_lt (by omega),
      Nat.shiftRight_eq_div_pow, Nat.pow_succ, Nat.pow_one, Nat.mul_div_cancel _ (by decide)]
  have hne : 1#67 <<< n ≠ 0 := by
    intro h0
    have := congrArg BitVec.toNat h0
    rw [← BitVec.twoPow_eq, BitVec.toNat_twoPow_of_lt (by omega)] at this
    exact absurd this (Nat.two_pow_pos n).ne'
  rw [show 64 - (j + 1) = n by omega, hn, hshift]
  exact ⟨rfl, hne⟩

theorem Divider.iterated_zero (h : div0.state = .init) (hv : valid = true) :
    div0.done valid = false ∧ (div0.step false valid A B).Iterated A B 0 := by
  have hnxt : div0.stateNxt valid = (.doing, divDelay) := by
    rw [stateNxt, h, hv]
    rfl
  refine ⟨?_, ?_, ?_, ?_⟩
  · rw [done, hnxt]
    rfl
  · exact congrArg Prod.fst hnxt
  · exact congrArg Prod.snd hnxt
  · rw [step, pNxt, h]
    rfl

/-- A step of the loop but the last is not the end of it. -/
theorem Divider.Iterated.step (h : div0.Iterated A B k) (hk : k < 64) (valid : Bool) :
    div0.done valid = false ∧ (div0.step false valid A B).Iterated A B (k + 1) := by
  obtain ⟨hshift, hne⟩ := count_shift hk
  have hnxt : div0.stateNxt valid = (.doing, 1#67 <<< (64 - (k + 1))) := by
    rw [stateNxt, h.state, h.count]
    dsimp only
    rw [if_neg hne, hshift]
  refine ⟨?_, ?_, ?_, ?_⟩
  · rw [done, hnxt]
    rfl
  · exact congrArg Prod.fst hnxt
  · exact congrArg Prod.snd hnxt
  · rw [Function.iterate_succ_apply', ← h.p, Divider.step, pNxt, h.state]
    rfl

/-- The counter runs out in the cycle that sees the last digit. -/
theorem Divider.Iterated.done (h : div0.Iterated A B 64) : div0.done valid = true := by
  rw [Divider.done, stateNxt, h.state, h.count]
  rfl

end Loop

section Run

variable {d : ℕ → Divider} {valid : ℕ → Bool} {A B : BitVec 64} {k : ℕ}

theorem Divider.Divides.iterated (h : Divides d valid A B) (hk : k ≤ 64) :
    (d (k + 1)).Iterated A B k := by
  induction k with
  | zero =>
    rw [h.next 0]
    exact (iterated_zero h.init h.asked).2
  | succ k ih =>
    rw [h.next (k + 1)]
    exact ((ih (by omega)).step hk _).2

/-- After `k` steps of the loop the halves of `p` are remainder and quotient of the top
`k` bits of `A`, and no bit is ever shifted out.  The cycle that has all bits is the first
to raise `done`, and shows remainder and quotient of `A`. -/
theorem Divider.Divides.loop_exact (h : Divides d valid A B) (hB : B ≠ 0) :
    (∀ k ≤ 64, (d (k + 1)).state = .doing ∧
      ((d (k + 1)).p.extractLsb' 64 64).toNat = A.toNat / 2 ^ (64 - k) % B.toNat ∧
      (d (k + 1)).p.toNat % 2 ^ k = A.toNat / 2 ^ (64 - k) / B.toNat) ∧
    (∀ k < 64, (d (k + 1)).p.getLsbD 127 = false) ∧
    (∀ n < 65, (d n).done (valid n) = false) ∧ (d 65).done (valid 65) = true ∧
    (d 65).p = (A % B) ++ (A / B) := by
  refine ⟨fun k hk => ?_, fun k hk => ?_, fun n hn => ?_, (h.iterated (Nat.le_refl 64)).done, ?_⟩
  · have hi := h.iterated hk
    obtain ⟨hrem, hquo, _⟩ := halves_iterate_restore (A := A) hB hk
    rw [← hi.p] at hrem hquo
    exact ⟨hi.state, hrem, hquo⟩
  · rw [(h.iterated hk.le).p]
    exact (halves_iterate_restore hB hk.le).2.2 hk
  · cases n with
    | zero => exact (iterated_zero (A := A) (B := B) h.init h.asked).1
    | succ k => exact ((h.iterated (by omega)).step (by omega) _).1
  · rw [(h.iterated (Nat.le_refl 64)).p, iterate_restore hB]

/-- The run of a division from the state after a reset. -/
def Divider.divide (A B : BitVec 64) : ℕ → Divider
  | 0 => ⟨.init, 0, 0⟩
  | n + 1 => (divide A B n).step false true A B

theorem Divider.divide_hundred : (divide 100#64 7#64 65).p = 2#64 ++ 14#64 := by
  have h : Divides (divide 100#64 7#64) (fun _ => true) 100#64 7#64 := ⟨rfl, rfl, fun _ => rfl⟩
  exact (h.loop_exact (by decide)).2.2.2.2

end Run

end RiscvCpu
