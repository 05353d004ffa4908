import Mathlib

/-!
# Signed division by magnitudes

A signed division rounds towards zero, so that its quotient is the quotient of the
magnitudes with the product of the signs, and its remainder the remainder of the
magnitudes with the sign of the dividend.
-/

namespace SignMagnitude

/-- The number with a magnitude and a sign. -/
def signed {n : ℕ} (neg : Bool) (x : BitVec n) : BitVec n := if neg then -x else x

section Magnitudes

variable {n : ℕ} {x y : BitVec n}

theorem sdiv_eq_signed : x.sdiv y = signed (x.msb ^^ y.msb) (x.abs / y.abs) := by
  rw [BitVec.sdiv_eq]
  cases hx : x.msb <;> cases hy : y.msb <;> simp [signed, BitVec.abs, hx, hy]

theorem srem_eq_signed : x.srem y = signed x.msb (x.abs % y.abs) := by
  rw [BitVec.srem_eq]
  cases hx : x.msb <;> cases hy : y.msb <;> simp [signed, BitVec.abs, hx, hy]

/-- The quotient of the integers, where it fits. -/
theorem ofInt_tdiv (h : x ≠ BitVec.intMin n ∨ y ≠ -1#n) :
    BitVec.ofInt n (x.toInt.tdiv y.toInt) = x.sdiv y := by
  rw [← BitVec.toInt_sdiv_of_ne_or_ne x y h, BitVec.ofInt_toInt]

/-- The remainder of the integers. -/
theorem ofInt_tmod : BitVec.ofInt n (x.toInt.tmod y.toInt) = x.srem y := by
  rw [← BitVec.toInt_srem, BitVec.ofInt_toInt]

/-- There is no remainder where the quotient does not fit. -/
theorem srem_neg_one : x.srem (-1#n) = 0 := by
  have habs : (-1#n).abs = 1#n := by
    rcases Nat.eq_zero_or_pos n with rfl | hn
    · exact BitVec.of_length_zero
    · rw [BitVec.abs, BitVec.neg_one_eq_allOnes, BitVec.msb_allOnes hn, ← BitVec.neg_one_eq_allOnes]
      simp
  rw [srem_eq_signed, habs, BitVec.umod_one]
  simp [signed]

theorem abs_ne_zero (h : y ≠ 0) : y.abs ≠ 0 := by
  unfold BitVec.abs
  split
  · exact fun h0 => h (BitVec.neg_eq_zero_iff.mp h0)
  · exact h

/-- A magnitude is at most half the range. -/
theorem two_mul_toNat_abs_le : 2 * x.abs.toNat ≤ 2 ^ n := by
  rw [BitVec.toNat_abs]
  split
  · have := BitVec.msb_eq_true_iff_two_mul_ge.mp ‹_›
    omega
  · have := BitVec.msb_eq_false_iff_two_mul_lt.mp (Bool.eq_false_iff.mpr ‹_›)
    omega

/-- The remainder of two magnitudes has no sign bit. -/
theorem msb_abs_mod (h : y ≠ 0) : (x.abs % y.abs).msb = false := by
  have hpos : 0 < y.abs.toNat := by
    rcases Nat.eq_zero_or_pos y.abs.toNat with h0 | hpos
    · exact absurd (BitVec.eq_of_toNat_eq (by simpa using h0)) (abs_ne_zero h)
    · exact hpos
  have hlt := Nat.mod_lt x.abs.toNat hpos
  have hhalf := two_mul_toNat_abs_le (x := y)
  rw [BitVec.msb_eq_false_iff_two_mul_lt, BitVec.toNat_umod]
  omega

/-- A product from the magnitudes of its factors. -/
theorem mul_eq_signed : x * y = signed (x.msb ^^ y.msb) (x.abs * y.abs) := by
  unfold signed BitVec.abs
  cases x.msb <;> cases y.msb <;> simp

end Magnitudes

end SignMagnitude
