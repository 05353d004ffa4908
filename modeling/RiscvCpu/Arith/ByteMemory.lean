import RiscvCpu.Arith.Bytes

/-!
# A memory of bytes and its words

A memory of bytes is a function of the 64-bit address.  `words` groups it into
64-bit words, eight bytes to a word, and `ofWords` takes it apart again.  An access
that stays in one word reads and writes bytes of that word.
-/

namespace Bytes

/-- The bytes from `addr` on. -/
def bytesAt (mem : BitVec 64 → BitVec 8) (addr : BitVec 64) (k : ℕ) : BitVec 8 :=
  mem (addr + BitVec.ofNat 64 k)

/-- The word an address lies in. -/
def wordIdx (addr : BitVec 64) : BitVec 61 := addr.extractLsb' 3 61

/-- The place of an address in its word. -/
def offset (addr : BitVec 64) : ℕ := (addr.extractLsb' 0 3).toNat

/-- The first address of a word. -/
def base (a : BitVec 61) : BitVec 64 := a ++ 0#3

/-- The memory, word by word. -/
def words (mem : BitVec 64 → BitVec 8) (a : BitVec 61) : BitVec 64 := word (bytesAt mem (base a)) 8

/-- A memory of words, byte by byte. -/
def ofWords (mem : BitVec 61 → BitVec 64) (addr : BitVec 64) : BitVec 8 :=
  byte (mem (wordIdx addr)) (offset addr)

/-- The memory with `n` bytes from `addr` on replaced. -/
def store (mem : BitVec 64 → BitVec 8) (addr : BitVec 64) (n : ℕ) (v : ℕ → BitVec 8) :
    BitVec 64 → BitVec 8 := fun x =>
  if (x - addr).toNat < n then v (x - addr).toNat else mem x

/-! ## Bytes of a spelled word -/

theorem value_lt (f : ℕ → BitVec 8) (n : ℕ) : value f n < 2 ^ (8 * n) := by
  induction n with
  | zero => exact Nat.one_pos
  | succ n ih =>
    have hb : (f n).toNat ≤ 2 ^ 8 - 1 := Nat.le_sub_one_of_lt (f n).isLt
    have hmul : 2 ^ (8 * n) * (f n).toNat ≤ 2 ^ (8 * n) * (2 ^ 8 - 1) := Nat.mul_le_mul_left _ hb
    have hpow : 2 ^ (8 * (n + 1)) = 2 ^ (8 * n) * 2 ^ 8 := by rw [Nat.mul_add, Nat.pow_add]
    rw [value, hpow]
    omega

theorem value_byte (f : ℕ → BitVec 8) {k n : ℕ} (hk : k < n) :
    value f n / 2 ^ (8 * k) % 2 ^ 8 = (f k).toNat := by
  induction n with
  | zero => omega
  | succ n ih =>
    rw [value]
    rcases Nat.lt_or_eq_of_le (Nat.le_of_lt_succ hk) with hlt | rfl
    · obtain ⟨d, rfl⟩ : ∃ d, n = k + 1 + d := ⟨n - (k + 1), by omega⟩
      have hpow : 2 ^ (8 * (k + 1 + d)) = 2 ^ (8 * k) * (2 ^ 8 * 2 ^ (8 * d)) := by
        rw [← Nat.pow_add, ← Nat.pow_add]
        congr 1
        omega
      rw [hpow, Nat.mul_assoc, Nat.add_mul_div_left _ _ (Nat.two_pow_pos _), Nat.mul_assoc,
        Nat.add_mul_mod_self_left]
      exact ih (by omega)
    · rw [Nat.add_mul_div_left _ _ (Nat.two_pow_pos _), Nat.div_eq_of_lt (value_lt f k),
        Nat.zero_add, Nat.mod_eq_of_lt (f k).isLt]

theorem byte_word (f : ℕ → BitVec 8) {k n : ℕ} (hk : k < n) : byte (word f n) k = f k := by
  apply BitVec.eq_of_toNat_eq
  rw [byte, BitVec.extractLsb'_toNat, word, BitVec.toNat_ofNat, Nat.mod_eq_of_lt (value_lt f n),
    Nat.shiftRight_eq_div_pow, value_byte f hk]

/-- A word is its eight bytes. -/
theorem eq_of_bytes {x y : BitVec 64} (h : ∀ k < 8, byte x k = byte y k) : x = y := by
  refine BitVec.eq_of_getLsbD_eq fun i hi => ?_
  have hk := h (i / 8) (by omega)
  have hj : i % 8 < 8 := Nat.mod_lt _ (by omega)
  have hi' : 8 * (i / 8) + i % 8 = i := Nat.div_add_mod i 8
  rw [← hi', ← getLsbD_byte x hj, ← getLsbD_byte y hj, hk]

/-! ## Addresses -/

theorem offset_eq (addr : BitVec 64) : offset addr = addr.toNat % 8 := by
  rw [offset, BitVec.extractLsb'_toNat, Nat.shiftRight_zero]

theorem offset_lt (addr : BitVec 64) : offset addr < 8 := (addr.extractLsb' 0 3).isLt

theorem toNat_wordIdx (addr : BitVec 64) : (wordIdx addr).toNat = addr.toNat / 8 := by
  have := addr.isLt
  rw [wordIdx, BitVec.extractLsb'_toNat, Nat.shiftRight_eq_div_pow]
  exact Nat.mod_eq_of_lt (by omega)

theorem toNat_base (a : BitVec 61) : (base a).toNat = 8 * a.toNat := by
  rw [base, BitVec.toNat_append, Nat.shiftLeft_eq]
  simp [Nat.mul_comm]

/-- An address a few bytes on, in the same word. -/
theorem toNat_add_of_lt {addr : BitVec 64} {k : ℕ} (hk : offset addr + k < 8) :
    (addr + BitVec.ofNat 64 k).toNat = addr.toNat + k := by
  rw [offset_eq] at hk
  have := addr.isLt
  rw [BitVec.toNat_add, BitVec.toNat_ofNat]
  omega

theorem wordIdx_add {addr : BitVec 64} {k : ℕ} (hk : offset addr + k < 8) :
    wordIdx (addr + BitVec.ofNat 64 k) = wordIdx addr := by
  apply BitVec.eq_of_toNat_eq
  rw [toNat_wordIdx, toNat_wordIdx, toNat_add_of_lt hk]
  rw [offset_eq] at hk
  omega

theorem offset_add {addr : BitVec 64} {k : ℕ} (hk : offset addr + k < 8) :
    offset (addr + BitVec.ofNat 64 k) = offset addr + k := by
  rw [offset_eq, toNat_add_of_lt hk]
  rw [offset_eq] at hk ⊢
  omega

@[simp] theorem offset_base (a : BitVec 61) : offset (base a) = 0 := by
  rw [offset_eq, toNat_base]
  omega

@[simp] theorem wordIdx_base (a : BitVec 61) : wordIdx (base a) = a := by
  apply BitVec.eq_of_toNat_eq
  rw [toNat_wordIdx, toNat_base]
  omega

theorem base_wordIdx_add (addr : BitVec 64) :
    base (wordIdx addr) + BitVec.ofNat 64 (offset addr) = addr := by
  apply BitVec.eq_of_toNat_eq
  have h : offset (base (wordIdx addr)) + offset addr < 8 := by
    rw [offset_base, Nat.zero_add]
    exact offset_lt addr
  rw [toNat_add_of_lt h, toNat_base, toNat_wordIdx, offset_eq]
  omega

/-! ## Bytes and words -/

variable {mem : BitVec 64 → BitVec 8} {addr : BitVec 64}

theorem byte_words (a : BitVec 61) {k : ℕ} (hk : k < 8) :
    byte (words mem a) k = mem (base a + BitVec.ofNat 64 k) := byte_word _ hk

/-- The bytes of an access that stays in its word. -/
theorem byte_words_add {k : ℕ} (hk : offset addr + k < 8) :
    byte (words mem (wordIdx addr)) (offset addr + k) = bytesAt mem addr k := by
  rw [byte_words _ hk, BitVec.ofNat_add, ← BitVec.add_assoc, base_wordIdx_add]
  rfl

@[simp] theorem ofWords_words (mem : BitVec 64 → BitVec 8) : ofWords (words mem) = mem := by
  funext addr
  rw [ofWords, byte_words _ (offset_lt addr), base_wordIdx_add]

@[simp] theorem words_ofWords (mem : BitVec 61 → BitVec 64) : words (ofWords mem) = mem := by
  funext a
  refine eq_of_bytes fun k hk => ?_
  have hk' : offset (base a) + k < 8 := by simpa using hk
  rw [byte_words a hk, ofWords, wordIdx_add hk', offset_add hk', wordIdx_base, offset_base,
    Nat.zero_add]

/-- A store that stays in its word changes bytes of that word. -/
theorem words_store (mem : BitVec 64 → BitVec 8) {n : ℕ} (v : ℕ → BitVec 8)
    (hn : offset addr + n ≤ 8) {x : BitVec 64}
    (hx : ∀ k < 8, byte x k = write (byte (words mem (wordIdx addr))) (offset addr) n v k) :
    words (store mem addr n v) = Function.update (words mem) (wordIdx addr) x := by
  funext a
  refine eq_of_bytes fun k hk => ?_
  have hk' : offset (base a) + k < 8 := by simpa using hk
  have haddr := addr.isLt
  have hsum := toNat_add_of_lt hk'
  rw [toNat_base] at hsum
  have hoff := offset_eq addr
  rw [byte_words a hk, store]
  by_cases ha : a = wordIdx addr
  · subst ha
    rw [Function.update_self, hx k hk, write]
    rw [toNat_wordIdx] at hsum
    have hdiff : (base (wordIdx addr) + BitVec.ofNat 64 k - addr).toNat < n ↔
        offset addr ≤ k ∧ k < offset addr + n := by
      rw [BitVec.toNat_sub, hsum]
      omega
    by_cases hin : offset addr ≤ k ∧ k < offset addr + n
    · rw [if_pos (hdiff.mpr hin), if_pos hin]
      congr 1
      rw [BitVec.toNat_sub, hsum]
      omega
    · rw [if_neg fun h => hin (hdiff.mp h), if_neg hin, byte_words _ hk]
  · rw [Function.update_of_ne ha, byte_words a hk, if_neg]
    have hne : a.toNat ≠ addr.toNat / 8 := by
      rw [← toNat_wordIdx]
      exact fun h => ha (BitVec.eq_of_toNat_eq h)
    have halt := a.isLt
    rw [BitVec.toNat_sub, hsum]
    omega

end Bytes
