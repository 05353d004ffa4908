import Mathlib

/-!
# Wrapping counters

A counter of `n` bits that starts anywhere and counts up passes every value once
in `2 ^ n` steps.  `ahead start o` is the step in which it passes `o`.  A wrapping
burst visits the words of its block in this order.
-/

namespace Sync

variable {n : ℕ} {start o : BitVec n} {k : ℕ}

/-- The number of steps from `start` to `o`. -/
def ahead (start o : BitVec n) : ℕ := (o - start).toNat

theorem ahead_lt (start o : BitVec n) : ahead start o < 2 ^ n := (o - start).isLt

@[simp] theorem ahead_self (start : BitVec n) : ahead start start = 0 := by
  simp [ahead]

/-- Step `k` passes one value. -/
theorem ahead_eq_iff (hk : k < 2 ^ n) :
    ahead start o = k ↔ o = start + BitVec.ofNat n k := by
  constructor
  · intro h
    have ho : o - start = BitVec.ofNat n k := by
      apply BitVec.eq_of_toNat_eq
      rw [BitVec.toNat_ofNat, Nat.mod_eq_of_lt hk]
      exact h
    rw [← ho, BitVec.add_comm, BitVec.sub_add_cancel]
  · intro h
    rw [ahead, h, BitVec.add_comm, BitVec.add_sub_cancel, BitVec.toNat_ofNat,
      Nat.mod_eq_of_lt hk]

/-- After step `k` the values passed are those before it and one more. -/
theorem ahead_lt_succ_iff (hk : k < 2 ^ n) :
    ahead start o < k + 1 ↔ ahead start o < k ∨ o = start + BitVec.ofNat n k := by
  rw [← ahead_eq_iff hk]
  omega

/-- The counter after a step. -/
theorem add_ofNat_succ (start : BitVec n) (k : ℕ) :
    start + BitVec.ofNat n k + 1 = start + BitVec.ofNat n (k + 1) := by
  rw [BitVec.add_assoc]
  congr 1
  apply BitVec.eq_of_toNat_eq
  simp

/-- The last of the `2 ^ n` steps brings the counter back to where it started. -/
theorem add_ofNat_last (start : BitVec n) (hk : k + 1 = 2 ^ n) :
    start + BitVec.ofNat n k + 1 = start := by
  have h : BitVec.ofNat n (k + 1) = 0#n := by
    apply BitVec.eq_of_toNat_eq
    rw [hk, BitVec.toNat_ofNat, BitVec.toNat_ofNat, Nat.mod_self, Nat.zero_mod]
  rw [add_ofNat_succ, h, BitVec.add_zero]

end Sync
