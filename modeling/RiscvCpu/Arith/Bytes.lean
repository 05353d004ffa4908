import Mathlib

/-!
# Words as little-endian bytes

Byte `k` of a word is its bits from `8 * k` on.  A memory of bytes is a function of
the offset, and `Bytes.word` is the number its bytes spell, least significant first.
-/

namespace Bytes

/-- Byte `k` of a word, zero beyond its end. -/
def byte {w : ℕ} (x : BitVec w) (k : ℕ) : BitVec 8 := x.extractLsb' (8 * k) 8

/-- The number the first `n` bytes spell. -/
def value (f : ℕ → BitVec 8) : ℕ → ℕ
  | 0 => 0
  | n + 1 => value f n + 2 ^ (8 * n) * (f n).toNat

/-- The word the first `n` bytes spell. -/
def word (f : ℕ → BitVec 8) (n : ℕ) : BitVec (8 * n) := BitVec.ofNat (8 * n) (value f n)

/-- `n` bytes from `off` on are replaced. -/
def write (f : ℕ → BitVec 8) (off n : ℕ) (v : ℕ → BitVec 8) : ℕ → BitVec 8 := fun k =>
  if off ≤ k ∧ k < off + n then v (k - off) else f k

theorem value_congr {f g : ℕ → BitVec 8} {n : ℕ} (h : ∀ k < n, f k = g k) :
    value f n = value g n := by
  induction n with
  | zero => rfl
  | succ n ih => rw [value, value, ih fun k hk => h k (by omega), h n (by omega)]

theorem word_congr {f g : ℕ → BitVec 8} {n : ℕ} (h : ∀ k < n, f k = g k) : word f n = word g n := by
  rw [word, word, value_congr h]

/-- The bytes of a stretch of a word spell it. -/
theorem toNat_extract {w : ℕ} (x : BitVec w) (k n : ℕ) :
    (x.extractLsb' (8 * k) (8 * n)).toNat = value (fun j => byte x (k + j)) n := by
  induction n with
  | zero => simp [value, Nat.mod_one]
  | succ n ih =>
    have hb : (byte x (k + n)).toNat = x.toNat >>> (8 * k) / 2 ^ (8 * n) % 2 ^ 8 := by
      rw [byte, BitVec.extractLsb'_toNat, Nat.shiftRight_eq_div_pow, Nat.shiftRight_eq_div_pow,
        Nat.div_div_eq_div_mul, ← Nat.pow_add, Nat.mul_add]
    rw [value, ← ih, hb, BitVec.extractLsb'_toNat, BitVec.extractLsb'_toNat, Nat.mul_add,
      Nat.mul_one, Nat.pow_add, Nat.mod_mul]

theorem extract_eq_word {w : ℕ} (x : BitVec w) (k n : ℕ) :
    x.extractLsb' (8 * k) (8 * n) = word (fun j => byte x (k + j)) n := by
  apply BitVec.eq_of_toNat_eq
  have h := toNat_extract x k n
  rw [word, BitVec.toNat_ofNat, ← h, Nat.mod_eq_of_lt (BitVec.isLt _)]

/-- A byte bit by bit. -/
theorem getLsbD_byte {w : ℕ} (x : BitVec w) {k j : ℕ} (hj : j < 8) :
    (byte x k).getLsbD j = x.getLsbD (8 * k + j) := by
  rw [byte, BitVec.getLsbD_extractLsb']
  simp [hj]

end Bytes
