import Mathlib
import RiscvCpu.Execute

/-!
# The multiplier

The factors are cut into pieces of 14, 25 and 25 and of four times 16 bits.  A partial
product is the product of two pieces, its row that product at its place in the sum, and
the twelve rows are added up in two layers.  None of this loses a bit, and so the sum is
the product of the factors.
-/

namespace RiscvCpu

/-! ## Pieces of the factors -/

section Pieces

/-- Where the pieces `e`, `f` and `g` of the first factor begin. -/
def posA : Fin 3 → ℕ := ![50, 25, 0]

/-- Where the pieces `m`, `n`, `p` and `q` of the second factor begin. -/
def posB : Fin 4 → ℕ := ![48, 32, 16, 0]

/-- How long the pieces of the first factor are. -/
def lenA : Fin 3 → ℕ := ![14, 25, 25]

/-- A piece of the first factor. -/
def pieceA (A : BitVec 64) (i : Fin 3) : ℕ := A.toNat / 2 ^ posA i % 2 ^ lenA i

/-- A piece of the second factor. -/
def pieceB (B : BitVec 64) (j : Fin 4) : ℕ := B.toNat / 2 ^ posB j % 2 ^ 16

theorem pieceA_lt (A : BitVec 64) (i : Fin 3) : pieceA A i < 2 ^ lenA i :=
  Nat.mod_lt _ (Nat.two_pow_pos _)

theorem pieceB_lt (B : BitVec 64) (j : Fin 4) : pieceB B j < 2 ^ 16 :=
  Nat.mod_lt _ (Nat.two_pow_pos _)

theorem lenA_le (i : Fin 3) : lenA i ≤ 25 := by
  revert i
  decide

/-- The pieces make up the first factor. -/
theorem sum_pieceA (A : BitVec 64) : ∑ i, pieceA A i * 2 ^ posA i = A.toNat := by
  have := A.isLt
  simp only [Fin.sum_univ_three, pieceA, posA, lenA, Matrix.cons_val]
  omega

/-- The pieces make up the second factor. -/
theorem sum_pieceB (B : BitVec 64) : ∑ j, pieceB B j * 2 ^ posB j = B.toNat := by
  have := B.isLt
  simp only [Fin.sum_univ_four, pieceB, posB, Matrix.cons_val]
  omega

/-- The pieces multiplied out. -/
theorem sum_pieces (A : BitVec 64) (n : ℕ) (j : Fin 4) :
    ∑ i, pieceA A i * n * 2 ^ (posA i + posB j) = A.toNat * (n * 2 ^ posB j) := by
  rw [← sum_pieceA A, Finset.sum_mul]
  refine Finset.sum_congr rfl fun i _ => ?_
  rw [Nat.pow_add]
  ring

theorem pieceB_mul_lt (B : BitVec 64) (j : Fin 4) : pieceB B j * 2 ^ posB j < 2 ^ 64 := by
  refine lt_of_le_of_lt ?_ B.isLt
  rw [← sum_pieceB B]
  exact Finset.single_le_sum (f := fun j => pieceB B j * 2 ^ posB j) (fun _ _ => Nat.zero_le _)
    (Finset.mem_univ j)

end Pieces

/-! ## Nothing is lost -/

/-- `p0` to `p11`, by the piece of the second and of the first factor. -/
def PartialProducts.p (x : PartialProducts) : Fin 4 → Fin 3 → BitVec 41 :=
  ![![x.p0, x.p1, x.p2], ![x.p3, x.p4, x.p5], ![x.p6, x.p7, x.p8], ![x.p9, x.p10, x.p11]]

/-- `r0` to `r11`, the rows of the sum. -/
def PartialProducts.r (x : PartialProducts) : Fin 4 → Fin 3 → BitVec 128 :=
  ![![x.p0.extractLsb' 0 30 ++ 0#98, 0#14 ++ x.p1 ++ 0#73, 0#39 ++ x.p2 ++ 0#48],
    ![0#5 ++ x.p3 ++ 0#82, 0#30 ++ x.p4 ++ 0#57, 0#55 ++ x.p5 ++ 0#32],
    ![0#21 ++ x.p6 ++ 0#66, 0#46 ++ x.p7 ++ 0#41, 0#71 ++ x.p8 ++ 0#16],
    ![0#37 ++ x.p9 ++ 0#50, 0#62 ++ x.p10 ++ 0#25, 0#87 ++ x.p11]]

/-- `t0` to `t3`, the rows of one piece of the second factor. -/
def PartialProducts.t (x : PartialProducts) (j : Fin 4) : BitVec 128 := x.r j 0 + x.r j 1 + x.r j 2

/-- The partial products, their rows and the sums of these are those of the numbers: no
bit is lost on the way to the product of `A` and `B`. -/
structure PartialProducts.Exact (x : PartialProducts) (A B : BitVec 64) : Prop where
  p : ∀ j i, (x.p j i).toNat = pieceA A i * pieceB B j
  r : ∀ j i, (x.r j i).toNat = (x.p j i).toNat * 2 ^ (posA i + posB j)
  t : ∀ j, (x.t j).toNat = ∑ i, (x.r j i).toNat
  sum : x.sum.toNat = ∑ j, (x.t j).toNat
  product : x.sum.toNat = A.toNat * B.toNat

theorem PartialProducts.sum_eq (x : PartialProducts) : x.sum = x.t 0 + x.t 1 + x.t 2 + x.t 3 := rfl

section Product

variable {x y : BitVec 41} {m n : ℕ}

theorem toNat_mul_of_lt (hx : x.toNat < 2 ^ m) (hy : y.toNat < 2 ^ n) (h : m + n ≤ 41) :
    (x * y).toNat = x.toNat * y.toNat := by
  have hlt : x.toNat * y.toNat < 2 ^ m * 2 ^ n := Nat.mul_lt_mul'' hx hy
  rw [← Nat.pow_add] at hlt
  have hpow := Nat.pow_le_pow_right (n := 2) (by decide) h
  rw [BitVec.toNat_mul, Nat.mod_eq_of_lt (by omega)]

/-- A partial product at its place: no bit is lost. -/
theorem toNat_placed {l r : ℕ} (x : BitVec 41) :
    (0#l ++ x ++ 0#r).toNat = x.toNat * 2 ^ r := by
  simp [BitVec.toNat_append, Nat.shiftLeft_eq]

/-- The topmost row keeps the low bits of its partial product, which are all it has. -/
theorem toNat_topmost {l r : ℕ} (hx : x.toNat < 2 ^ l) :
    (x.extractLsb' 0 l ++ 0#r).toNat = x.toNat * 2 ^ r := by
  rw [BitVec.toNat_append, BitVec.extractLsb'_toNat, Nat.shiftRight_zero, Nat.mod_eq_of_lt hx,
    Nat.shiftLeft_eq]
  exact Nat.or_zero _

/-- The bits of a word from position `lo` on. -/
theorem toNat_chunk (A : BitVec 64) (lo len : ℕ) (h : len ≤ 41) :
    ((A.extractLsb' lo len).setWidth 41).toNat = A.toNat / 2 ^ lo % 2 ^ len := by
  have hlt := Nat.mod_lt (A.toNat / 2 ^ lo) (Nat.two_pow_pos len)
  have hpow := Nat.pow_le_pow_right (n := 2) (by decide) h
  rw [BitVec.toNat_setWidth, BitVec.extractLsb'_toNat, Nat.shiftRight_eq_div_pow,
    Nat.mod_eq_of_lt (a := _ % 2 ^ len) (by omega)]

/-- The partial products are products of pieces. -/
theorem partialProducts_p (A B : BitVec 64) (j : Fin 4) (i : Fin 3) :
    (partialProducts A B).p j i =
      ((A.extractLsb' (posA i) (lenA i)).setWidth 41) *
        ((B.extractLsb' (posB j) 16).setWidth 41) := by
  fin_cases j <;> fin_cases i <;> rfl

theorem toNat_partialProducts (A B : BitVec 64) (j : Fin 4) (i : Fin 3) :
    ((partialProducts A B).p j i).toNat = pieceA A i * pieceB B j := by
  have hlen := lenA_le i
  have hA := toNat_chunk A (posA i) (lenA i) (by omega)
  have hB := toNat_chunk B (posB j) 16 (by decide)
  have hAlt := pieceA_lt A i
  have hBlt := pieceB_lt B j
  rw [pieceA, ← hA] at hAlt
  rw [pieceB, ← hB] at hBlt
  rw [partialProducts_p, toNat_mul_of_lt hAlt hBlt (by omega), hA, hB]
  rfl

/-- A row is its partial product at the place where its two pieces begin. -/
theorem PartialProducts.toNat_r {x : PartialProducts} (h0 : x.p0.toNat < 2 ^ 30) (j : Fin 4)
    (i : Fin 3) : (x.r j i).toNat = (x.p j i).toNat * 2 ^ (posA i + posB j) := by
  have hlast : (x.r 3 2).toNat = x.p11.toNat := by
    change (0#87 ++ x.p11).toNat = x.p11.toNat
    rw [BitVec.toNat_append, BitVec.toNat_ofNat, Nat.zero_mod, Nat.zero_shiftLeft, Nat.zero_or]
  fin_cases j <;> fin_cases i
  · exact toNat_topmost h0
  all_goals first | exact toNat_placed _ | exact hlast.trans (Nat.mul_one _).symm

/-- Partial products, rows and sums of two factors. -/
theorem partialProducts_exact (A B : BitVec 64) : (partialProducts A B).Exact A B := by
  have hp := toNat_partialProducts A B
  have h0 : (partialProducts A B).p0.toNat < 2 ^ 30 := by
    have hlt : pieceA A 0 * pieceB B 0 < 2 ^ 14 * 2 ^ 16 :=
      Nat.mul_lt_mul'' (pieceA_lt A 0) (pieceB_lt B 0)
    exact lt_of_eq_of_lt (hp 0 0) hlt
  have hr := PartialProducts.toNat_r h0
  -- the rows of one piece of `B` make up `A` times that piece
  have hrows : ∀ j, ∑ i, ((partialProducts A B).r j i).toNat =
      A.toNat * (pieceB B j * 2 ^ posB j) := by
    intro j
    simp only [hr, hp]
    exact sum_pieces A (pieceB B j) j
  have ht : ∀ j, ((partialProducts A B).t j).toNat = ∑ i, ((partialProducts A B).r j i).toNat := by
    intro j
    have hlt : A.toNat * (pieceB B j * 2 ^ posB j) < 2 ^ 64 * 2 ^ 64 :=
      Nat.mul_lt_mul'' A.isLt (pieceB_mul_lt B j)
    rw [← hrows j, Fin.sum_univ_three] at hlt
    rw [PartialProducts.t, Fin.sum_univ_three, BitVec.toNat_add_of_lt, BitVec.toNat_add_of_lt]
    · omega
    · rw [BitVec.toNat_add_of_lt] <;> omega
  -- the pieces of `B` make up `B`
  have htotal : ∑ j, ((partialProducts A B).t j).toNat = A.toNat * B.toNat := by
    simp only [ht, hrows]
    rw [← Finset.mul_sum, sum_pieceB]
  have hsum : (partialProducts A B).sum.toNat = ∑ j, ((partialProducts A B).t j).toNat := by
    have hlt : A.toNat * B.toNat < 2 ^ 64 * 2 ^ 64 := Nat.mul_lt_mul'' A.isLt B.isLt
    rw [← htotal, Fin.sum_univ_four] at hlt
    rw [PartialProducts.sum_eq, Fin.sum_univ_four, BitVec.toNat_add_of_lt, BitVec.toNat_add_of_lt,
      BitVec.toNat_add_of_lt]
    · omega
    · rw [BitVec.toNat_add_of_lt] <;> omega
    · rw [BitVec.toNat_add_of_lt, BitVec.toNat_add_of_lt]
      · omega
      · omega
      · rw [BitVec.toNat_add_of_lt] <;> omega
  exact ⟨hp, hr, ht, hsum, hsum.trans htotal⟩

/-- One clock after `A` and `B` are applied the output is their product, and no partial
product, row or sum has lost a bit. -/
theorem Multiplier.step_exact (mul0 : Multiplier) (valid : Bool) (A B : BitVec 64) :
    (mul0.step false valid A B).products.Exact A B ∧
      (mul0.step false valid A B).products.sum = A.setWidth 128 * B.setWidth 128 := by
  have hexact : (mul0.step false valid A B).products.Exact A B := partialProducts_exact A B
  refine ⟨hexact, BitVec.eq_of_toNat_eq ?_⟩
  have hlt : A.toNat * B.toNat < 2 ^ 64 * 2 ^ 64 := Nat.mul_lt_mul'' A.isLt B.isLt
  rw [hexact.product, BitVec.toNat_mul, BitVec.toNat_setWidth_of_le (by decide),
    BitVec.toNat_setWidth_of_le (by decide), Nat.mod_eq_of_lt (by omega)]

end Product

end RiscvCpu
