import RiscvCpu.Arith.Bytes
import RiscvCpu.Cache
import RiscvCpu.Writeback

/-!
# Loads and stores as a byte memory

The lane tables of `writedata` and `readdata` in closed form, and what follows: a
store merged into a word and a load from the result are a write and a read of eight
little-endian bytes.
-/

namespace RiscvCpu

/-- The number of bytes of an access. -/
def Msize.bytes (msize : Msize) : ℕ := 2 ^ msize.log2

/-- The access is naturally aligned. -/
def Msize.Aligned (msize : Msize) (off : BitVec 3) : Prop := msize.bytes ∣ off.toNat

instance alignedDecidable (msize : Msize) (off : BitVec 3) : Decidable (msize.Aligned off) :=
  inferInstanceAs (Decidable (_ ∣ _))

/-- The bytes an aligned access covers, as a strobe. -/
def Msize.strobe (msize : Msize) (off : BitVec 3) : BitVec 8 :=
  BitVec.ofNat 8 (2 ^ msize.bytes - 1) <<< off.toNat

/-- A load from a memory of bytes. -/
def loadValue (mem : ℕ → BitVec 8) (off : ℕ) (msize : Msize) (memUnsigned : Bool) : BitVec 64 :=
  let lane := Bytes.word (fun j => mem (off + j)) msize.bytes
  if memUnsigned then lane.setWidth 64 else lane.signExtend 64

/-! ## The lane tables -/

/-- The eight offsets in a word. -/
theorem offset_cases (off : BitVec 3) :
    off = 0 ∨ off = 1 ∨ off = 2 ∨ off = 3 ∨ off = 4 ∨ off = 5 ∨ off = 6 ∨ off = 7 := by
  revert off
  decide

section Lanes

variable {off : BitVec 3} {msize : Msize}

theorem writedata_aligned (h : msize.Aligned off) (v : BitVec 64) :
    writedata off v msize =
      ⟨(v.extractLsb' 0 (8 * msize.bytes)).setWidth 64 <<< (8 * off.toNat), msize.strobe off,
        false⟩ := by
  cases msize <;> rcases offset_cases off with rfl | rfl | rfl | rfl | rfl | rfl | rfl | rfl <;>
    first | exact absurd h (by decide) | rfl | simp [writedata, Msize.strobe, Msize.bytes, Msize.log2]

theorem writedata_misaligned (h : ¬msize.Aligned off) (v : BitVec 64) :
    writedata off v msize = misalignedStore := by
  cases msize <;> rcases offset_cases off with rfl | rfl | rfl | rfl | rfl | rfl | rfl | rfl <;>
    first | exact absurd (by decide) h | rfl

theorem readdata_aligned (h : msize.Aligned off) (x : BitVec 64) (u : Bool) :
    readdata x off msize u = loadLane x (8 * off.toNat) (8 * msize.bytes) u := by
  cases msize <;> rcases offset_cases off with rfl | rfl | rfl | rfl | rfl | rfl | rfl | rfl <;>
    first | exact absurd h (by decide) | rfl | simp [readdata, loadLane, Msize.bytes, Msize.log2]

theorem readdata_misaligned (h : ¬msize.Aligned off) (x : BitVec 64) (u : Bool) :
    readdata x off msize u = misalignedLoad := by
  cases msize <;> rcases offset_cases off with rfl | rfl | rfl | rfl | rfl | rfl | rfl | rfl <;>
    first | exact absurd (by decide) h | rfl

end Lanes

/-! ## Bytes of a merged word -/

theorem byte_strobeMask (strobe : BitVec 8) {k : ℕ} (hk : k < 8) :
    Bytes.byte (strobeMask strobe) k = if strobe.getLsbD k then 0xff#8 else 0#8 := by
  have h : ∀ (x : BitVec 8) (i : Fin 8),
      Bytes.byte (strobeMask x) i = if x.getLsbD i then 0xff#8 else 0#8 := by
    decide +kernel
  exact h strobe ⟨k, hk⟩

theorem byte_mergeBytes (old new : BitVec 64) (strobe : BitVec 8) {k : ℕ} (hk : k < 8) :
    Bytes.byte (mergeBytes old new strobe) k =
      if strobe.getLsbD k then Bytes.byte new k else Bytes.byte old k := by
  have hmask := byte_strobeMask strobe hk
  refine BitVec.eq_of_getLsbD_eq fun j hj => ?_
  have hbit : (strobeMask strobe).getLsbD (8 * k + j) = strobe.getLsbD k := by
    rw [← Bytes.getLsbD_byte _ hj, hmask]
    cases strobe.getLsbD k with
    | true =>
      rw [if_pos rfl]
      interval_cases j <;> rfl
    | false => simp
  have hin : 8 * k + j < 64 := by omega
  rw [Bytes.getLsbD_byte _ hj, mergeBytes, BitVec.getLsbD_or, BitVec.getLsbD_and,
    BitVec.getLsbD_and, BitVec.getLsbD_not, hbit]
  cases strobe.getLsbD k with
  | true => simp [Bytes.getLsbD_byte _ hj, -BitVec.getLsbD_eq_getElem]
  | false => simp [Bytes.getLsbD_byte _ hj, hin, -BitVec.getLsbD_eq_getElem]

section Store

variable {off : BitVec 3} {msize : Msize}

theorem Msize.Aligned.end_le (h : msize.Aligned off) : off.toNat + msize.bytes ≤ 8 := by
  revert h
  cases msize <;> revert off <;> decide

theorem Msize.Aligned.getLsbD_strobe (h : msize.Aligned off) {k : ℕ} (hk : k < 8) :
    (msize.strobe off).getLsbD k = decide (off.toNat ≤ k ∧ k < off.toNat + msize.bytes) := by
  have hall : ∀ (o : BitVec 3) (i : Fin 8), msize.Aligned o →
      (msize.strobe o).getLsbD i = decide (o.toNat ≤ i ∧ (i : ℕ) < o.toNat + msize.bytes) := by
    cases msize <;> decide
  exact hall off ⟨k, hk⟩ h

theorem Msize.Aligned.strobe_ne_zero (h : msize.Aligned off) : msize.strobe off ≠ 0 := by
  revert h
  cases msize <;> revert off <;> decide

/-- An aligned store writes the low bytes of its value. -/
theorem byte_store (h : msize.Aligned off) (x v : BitVec 64) {k : ℕ} (hk : k < 8) :
    Bytes.byte (mergeBytes x (writedata off v msize).wd (writedata off v msize).strobe) k =
      Bytes.write (Bytes.byte x) off.toNat msize.bytes (Bytes.byte v) k := by
  rw [byte_mergeBytes _ _ _ hk, writedata_aligned h, h.getLsbD_strobe hk, Bytes.write]
  by_cases hin : off.toNat ≤ k ∧ k < off.toNat + msize.bytes
  · rw [if_pos (decide_eq_true hin), if_pos hin]
    refine BitVec.eq_of_getLsbD_eq fun j hj => ?_
    rw [Bytes.getLsbD_byte _ hj, Bytes.getLsbD_byte _ hj, BitVec.getLsbD_shiftLeft,
      BitVec.getLsbD_setWidth, BitVec.getLsbD_extractLsb']
    have h1 : 8 * k + j < 64 := by omega
    have h2 : ¬8 * k + j < 8 * off.toNat := by omega
    have h3 : 8 * k + j - 8 * off.toNat < 8 * msize.bytes := by omega
    have h4 : 8 * k + j - 8 * off.toNat = 8 * (k - off.toNat) + j := by omega
    have h5 : 8 * (k - off.toNat) + j < 64 := by omega
    rw [h4] at h3 ⊢
    simp [h1, h2, h3, h5, -BitVec.getLsbD_eq_getElem]
  · rw [if_neg (by simpa using hin), if_neg hin]

/-- An aligned load reads little-endian bytes. -/
theorem readdata_eq_loadValue (h : msize.Aligned off) (x : BitVec 64) (u : Bool) :
    readdata x off msize u = ⟨loadValue (Bytes.byte x) off.toNat msize u, false⟩ := by
  rw [readdata_aligned h, loadLane, loadValue, Bytes.extract_eq_word]

theorem loadValue_congr {f g : ℕ → BitVec 8} {n : ℕ} (u : Bool)
    (h : ∀ k < n + msize.bytes, f k = g k) : loadValue f n msize u = loadValue g n msize u := by
  rw [loadValue, loadValue, Bytes.word_congr fun k hk => h (n + k) (by omega)]

theorem isSdMissalign_iff (v : BitVec 64) :
    (writedata off v msize).isSdMissalign = true ↔ ¬msize.Aligned off := by
  by_cases h : msize.Aligned off
  · simp [writedata_aligned h, h]
  · simp [writedata_misaligned h, misalignedStore, h]

theorem isLdMissalign_iff (x : BitVec 64) (u : Bool) :
    (readdata x off msize u).isLdMissalign = true ↔ ¬msize.Aligned off := by
  by_cases h : msize.Aligned off
  · simp [readdata_eq_loadValue h, h]
  · simp [readdata_misaligned h, misalignedLoad, h]

end Store

/-- A store followed by a load behaves as on a little-endian memory of bytes, and the
misalignment flags are exact. -/
theorem load_after_store (x v : BitVec 64) (ssize lsize : Msize) (soff loff : BitVec 3)
    (u : Bool) :
    (ssize.Aligned soff → lsize.Aligned loff →
      (readdata (mergeBytes x (writedata soff v ssize).wd (writedata soff v ssize).strobe) loff
        lsize u).rd =
        loadValue (Bytes.write (Bytes.byte x) soff.toNat ssize.bytes (Bytes.byte v)) loff.toNat
          lsize u) ∧
    ((writedata soff v ssize).isSdMissalign = true ↔ ¬ssize.bytes ∣ soff.toNat) ∧
    ((readdata x loff lsize u).isLdMissalign = true ↔ ¬lsize.bytes ∣ loff.toNat) ∧
    (¬ssize.bytes ∣ soff.toNat → (writedata soff v ssize).strobe = 0) := by
  refine ⟨fun hs hl => ?_, isSdMissalign_iff v, isLdMissalign_iff x u, fun hs => ?_⟩
  · rw [readdata_eq_loadValue hl]
    have hend := hl.end_le
    exact loadValue_congr u fun k hk => byte_store hs x v (by omega)
  · rw [writedata_misaligned hs]
    rfl

/-- The two upper bytes of a stored halfword and of the old word, loaded as a signed
word. -/
theorem halfword_then_word :
    (readdata (mergeBytes 0x1122334455667788#64 (writedata 2 0xabcd#64 .msize2).wd
      (writedata 2 0xabcd#64 .msize2).strobe) 0 .msize4 false).rd = 0xffffffffabcd7788#64 := by
  rw [(load_after_store 0x1122334455667788#64 0xabcd#64 .msize2 .msize4 2 0 false).1 (by decide)
    (by decide)]
  decide

end RiscvCpu
