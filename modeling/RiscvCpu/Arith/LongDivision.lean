import Mathlib

/-!
# Long division in binary

Restoring division keeps remainder and quotient in one number of `2 * n` bits: the
remainder above bit `n`, below it the digits of the dividend that have not been brought
down yet, and behind them the digits of the quotient.  A step doubles the number, which
brings down one digit, and subtracts the divisor from the remainder where that goes,
which sets the digit of the quotient.
-/

namespace LongDivision

/-- One step of the division by `b`. -/
def step (n b p : ℕ) : ℕ := if b * 2 ^ n ≤ 2 * p then 2 * p - b * 2 ^ n + 1 else 2 * p

/-- Remainder, digits to come and quotient after `k` steps of the division of `a`. -/
def digits (n a b k : ℕ) : ℕ :=
  a / 2 ^ (n - k) % b * 2 ^ n + (a % 2 ^ (n - k) * 2 ^ k + a / 2 ^ (n - k) / b)

section Digits

variable {n a b k h d : ℕ}

/-- The quotient when the digit `d` is brought down. -/
theorem div_bringDown (hb : 0 < b) (hd : d < 2) :
    (2 * h + d) / b = 2 * (h / b) + if b ≤ 2 * (h % b) + d then 1 else 0 := by
  have hm := Nat.mod_lt h hb
  have heq : 2 * h + d = 2 * (h % b) + d + b * (2 * (h / b)) := by
    have := Nat.mod_add_div h b
    calc 2 * h + d = 2 * (h % b + b * (h / b)) + d := by rw [this]
      _ = _ := by ring
  rw [heq, Nat.add_mul_div_left _ _ hb, Nat.add_comm]
  congr 1
  split
  · exact Nat.div_eq_of_lt_le (by omega) (by omega)
  · exact Nat.div_eq_of_lt (by omega)

/-- The remainder when the digit `d` is brought down. -/
theorem mod_bringDown (hb : 0 < b) (hd : d < 2) :
    (2 * h + d) % b = 2 * (h % b) + d - if b ≤ 2 * (h % b) + d then b else 0 := by
  have hm := Nat.mod_lt h hb
  have heq : 2 * h + d = 2 * (h % b) + d + b * (2 * (h / b)) := by
    have := Nat.mod_add_div h b
    calc 2 * h + d = 2 * (h % b + b * (h / b)) + d := by rw [this]
      _ = _ := by ring
  rw [heq, Nat.add_mul_mod_self_left]
  split
  · rw [Nat.mod_eq_sub_mod ‹_›, Nat.mod_eq_of_lt (by omega)]
  · rw [Nat.mod_eq_of_lt (by omega), Nat.sub_zero]

/-- The quotient of `k` digits has `k` digits. -/
theorem quotient_lt (ha : a < 2 ^ n) (hk : k ≤ n) : a / 2 ^ (n - k) / b < 2 ^ k := by
  have hpow : 2 ^ (n - k) * 2 ^ k = 2 ^ n := by rw [← Nat.pow_add, Nat.sub_add_cancel hk]
  refine lt_of_le_of_lt (Nat.div_le_self _ _) (Nat.div_lt_of_lt_mul ?_)
  rwa [hpow]

/-- What lies below the remainder fits into `n` bits. -/
theorem below_lt (ha : a < 2 ^ n) (hk : k ≤ n) :
    a % 2 ^ (n - k) * 2 ^ k + a / 2 ^ (n - k) / b < 2 ^ n := by
  have hpow : 2 ^ (n - k) * 2 ^ k = 2 ^ n := by rw [← Nat.pow_add, Nat.sub_add_cancel hk]
  have hq := quotient_lt (b := b) ha hk
  have hl : (a % 2 ^ (n - k) + 1) * 2 ^ k ≤ 2 ^ (n - k) * 2 ^ k :=
    Nat.mul_le_mul_right _ (Nat.mod_lt a (Nat.two_pow_pos _))
  rw [hpow, Nat.add_mul, Nat.one_mul] at hl
  omega

/-- The digits above position `m` and the digit at it. -/
theorem div_succ (m : ℕ) : a / 2 ^ m = 2 * (a / 2 ^ (m + 1)) + a / 2 ^ m % 2 := by
  have h : a / 2 ^ (m + 1) = a / 2 ^ m / 2 := by rw [Nat.pow_succ, Nat.div_div_eq_div_mul]
  rw [h]
  omega

/-- The digits below position `m + 1`. -/
theorem mod_succ (m : ℕ) : a % 2 ^ (m + 1) = a / 2 ^ m % 2 * 2 ^ m + a % 2 ^ m := by
  rw [Nat.pow_succ, Nat.mod_mul]
  ring

/-- One step brings down one digit. -/
theorem step_digits (hb : 0 < b) (ha : a < 2 ^ n) (hk : k < n) :
    step n b (digits n a b k) = digits n a b (k + 1) := by
  obtain ⟨m, rfl⟩ : ∃ m, n = k + 1 + m := Nat.exists_eq_add_of_le hk
  have hbelow := below_lt (b := b) ha hk
  unfold digits
  rw [show k + 1 + m - (k + 1) = m by omega] at hbelow ⊢
  rw [show k + 1 + m - k = m + 1 by omega, mod_succ m]
  have hd : a / 2 ^ m % 2 < 2 := Nat.mod_lt _ (by decide)
  have hdiv := div_bringDown (h := a / 2 ^ (m + 1)) hb hd
  have hmod := mod_bringDown (h := a / 2 ^ (m + 1)) hb hd
  rw [← div_succ m] at hdiv hmod
  -- twice the number, by its part above bit `n` and its part below
  generalize a / 2 ^ (m + 1) = h, a / 2 ^ m = h', a % 2 ^ m = l at *
  have hdouble : 2 * (h % b * 2 ^ (k + 1 + m) + ((h' % 2 * 2 ^ m + l) * 2 ^ k + h / b)) =
      (2 * (h % b) + h' % 2) * 2 ^ (k + 1 + m) + (l * 2 ^ (k + 1) + 2 * (h / b)) := by
    ring
  rw [step, hdouble, hdiv, hmod]
  rw [hdiv] at hbelow
  generalize l * 2 ^ (k + 1) = low, 2 * (h % b) + h' % 2 = x, 2 ^ (k + 1 + m) = N at *
  by_cases hle : b ≤ x
  · have hge : b * N ≤ x * N + (low + 2 * (h / b)) :=
      le_trans (Nat.mul_le_mul_right N hle) (Nat.le_add_right _ _)
    have hmul : (x - b) * N = x * N - b * N := Nat.sub_mul x b N
    have hxb := Nat.mul_le_mul_right N hle
    rw [if_pos hge, if_pos hle, if_pos hle, hmul]
    omega
  · have hlt : (x + 1) * N ≤ b * N := Nat.mul_le_mul_right N (by omega)
    rw [if_neg hle, Nat.add_zero] at hbelow
    rw [Nat.add_mul, Nat.one_mul] at hlt
    rw [if_neg (by omega), if_neg hle, if_neg hle, Nat.add_zero, Nat.sub_zero]

theorem digits_zero (ha : a < 2 ^ n) : digits n a b 0 = a := by
  simp [digits, Nat.div_eq_of_lt ha, Nat.mod_eq_of_lt ha]

/-- All digits are brought down: remainder and quotient. -/
theorem digits_last : digits n a b n = a % b * 2 ^ n + a / b := by
  simp [digits, Nat.mod_one]

/-- The part above bit `n` is the remainder of the digits brought down. -/
theorem digits_div (ha : a < 2 ^ n) (hk : k ≤ n) :
    digits n a b k / 2 ^ n = a / 2 ^ (n - k) % b := by
  rw [digits, Nat.mul_comm, Nat.mul_add_div (Nat.two_pow_pos n),
    Nat.div_eq_of_lt (below_lt ha hk), Nat.add_zero]

/-- The last `k` digits are the quotient of the digits brought down. -/
theorem digits_mod (ha : a < 2 ^ n) (hk : k ≤ n) :
    digits n a b k % 2 ^ k = a / 2 ^ (n - k) / b := by
  have hpow : 2 ^ n = 2 ^ (n - k) * 2 ^ k := by rw [← Nat.pow_add, Nat.sub_add_cancel hk]
  have heq : digits n a b k =
      a / 2 ^ (n - k) / b + 2 ^ k * (a / 2 ^ (n - k) % b * 2 ^ (n - k) + a % 2 ^ (n - k)) := by
    rw [digits, hpow]
    ring
  rw [heq, Nat.add_mul_mod_self_left, Nat.mod_eq_of_lt (quotient_lt ha hk)]

/-- Before the last step the doubled number still fits into `2 * n` bits. -/
theorem two_mul_digits_lt (ha : a < 2 ^ n) (hk : k < n) : 2 * digits n a b k < 2 ^ (2 * n) := by
  have hbelow := below_lt (b := b) ha hk.le
  have hpow : 2 ^ (n - k) * 2 ^ k = 2 ^ n := by rw [← Nat.pow_add, Nat.sub_add_cancel hk.le]
  have htop : a / 2 ^ (n - k) % b < 2 ^ k := by
    refine lt_of_le_of_lt (Nat.mod_le _ _) (Nat.div_lt_of_lt_mul ?_)
    rwa [hpow]
  have hk' : 2 ^ (k + 1) ≤ 2 ^ n := Nat.pow_le_pow_right (by decide) hk
  calc 2 * digits n a b k < 2 * ((a / 2 ^ (n - k) % b + 1) * 2 ^ n) := by
        rw [digits, Nat.add_mul, Nat.one_mul]
        omega
    _ ≤ 2 * (2 ^ k * 2 ^ n) := Nat.mul_le_mul_left 2 (Nat.mul_le_mul_right _ htop)
    _ = 2 ^ (k + 1) * 2 ^ n := by ring
    _ ≤ 2 ^ n * 2 ^ n := Nat.mul_le_mul_right _ hk'
    _ = 2 ^ (2 * n) := by rw [← Nat.pow_add, Nat.two_mul]

end Digits

end LongDivision
