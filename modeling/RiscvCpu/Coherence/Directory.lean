import RiscvCpu.Cache

/-!
# The directory of a cache

Tags and valid bits name the lines a cache holds.  A word is resident in the way
whose tag is valid and equal to its own.  Residence does not depend on the offset.

`DirectoryOk` says that no line is held twice.  Under it the index computed from
the hit bits is the way of the word that hits.
-/

namespace RiscvCpu

section Directory

variable {ib : Nat} {s : Cache ib} {dreq : DbusReq}

/-- The line of word `a` is held in way `w`. -/
def Cache.Resident (s : Cache ib) (w : BitVec 3) (a : ReqAddr ib) : Prop :=
  (s.metadata a.index w).valid = true ∧ s.tagRam a.index w = a.tag

/-- No set holds a line in two ways. -/
def Cache.DirectoryOk (s : Cache ib) : Prop :=
  ∀ w w' a, s.Resident w a → s.Resident w' a → w = w'

/-- The place of word `a` in way `w` of the data RAM. -/
def ReqAddr.slot (a : ReqAddr ib) (w : BitVec 3) : CacheAddr ib := ⟨w, a.index, a.offset⟩

theorem ReqAddr.slot_inj {a b : ReqAddr ib} {w w' : BitVec 3} (ht : a.tag = b.tag)
    (h : a.slot w = b.slot w') : a = b ∧ w = w' := by
  cases a with
  | mk tag index offset =>
    cases b with
    | mk tag' index' offset' =>
      simp only [slot, CacheAddr.mk.injEq] at h
      obtain ⟨hw, hi, ho⟩ := h
      simp only at ht
      exact ⟨by rw [ht, hi, ho], hw⟩

/-! ## Hits -/

theorem Cache.hitBits_iff {w : BitVec 3} :
    s.hitBits dreq w = true ↔ s.Resident w (reqAddr ib dreq.addr) := by
  simp only [hitBits, Resident, Bool.and_eq_true, beq_iff_eq]
  exact and_congr_right fun _ => eq_comm

/-- A property of a way is one of the eight. -/
theorem exists_way_iff {p : BitVec 3 → Bool} :
    (p 0 || p 1 || p 2 || p 3 || p 4 || p 5 || p 6 || p 7) = true ↔ ∃ w, p w = true := by
  simp only [Bool.or_eq_true]
  constructor
  · rintro (((((((h | h) | h) | h) | h) | h) | h) | h) <;> exact ⟨_, h⟩
  · rintro ⟨w, hw⟩
    have hall : ∀ v : BitVec 3, v = 0 ∨ v = 1 ∨ v = 2 ∨ v = 3 ∨ v = 4 ∨ v = 5 ∨ v = 6 ∨ v = 7 := by
      decide
    rcases hall w with rfl | rfl | rfl | rfl | rfl | rfl | rfl | rfl <;>
      simp only [hw, true_or, or_true]

theorem Cache.isHit_iff : s.isHit dreq = true ↔ ∃ w, s.Resident w (reqAddr ib dreq.addr) := by
  simp only [isHit, exists_way_iff, hitBits_iff]

theorem Cache.not_resident_of_miss (h : s.isHit dreq = false) (w : BitVec 3) :
    ¬s.Resident w (reqAddr ib dreq.addr) := by
  intro hw
  rw [isHit_iff.mpr ⟨w, hw⟩] at h
  cases h

/-- The way encoded from one-hot bits is the way whose bit is set. -/
theorem encode_way (w : BitVec 3) {p : BitVec 3 → Bool} (hp : ∀ v, p v = decide (v = w)) :
    BitVec.ofBool (p 4 || p 5 || p 6 || p 7) ++ BitVec.ofBool (p 2 || p 3 || p 6 || p 7) ++
      BitVec.ofBool (p 1 || p 3 || p 5 || p 7) = w := by
  simp only [hp]
  clear hp
  revert w
  decide

/-- The index of a hit is the way of the word. -/
theorem Cache.DirectoryOk.idx_eq (h : s.DirectoryOk) {w : BitVec 3}
    (hw : s.Resident w (reqAddr ib dreq.addr)) : s.idx dreq = w := by
  refine encode_way w fun v => ?_
  rw [Bool.eq_iff_iff, hitBits_iff, decide_eq_true_iff]
  constructor
  · intro hv
    exact h v w _ hv hw
  · intro hv
    exact hv ▸ hw

/-- A hit is served from the way of the word. -/
theorem Cache.DirectoryOk.hit (h : s.DirectoryOk) (hh : s.fsmToHit dreq = true) :
    s.Resident (s.idx dreq) (reqAddr ib dreq.addr) ∧ s.isMissDataLoaded dreq = true := by
  simp only [fsmToHit, Bool.and_eq_true] at hh
  obtain ⟨w, hw⟩ := isHit_iff.mp hh.1.1
  rw [h.idx_eq hw]
  exact ⟨hw, hh.2.2⟩

theorem Cache.cacheAddr_eq : s.cacheAddr dreq = (reqAddr ib dreq.addr).slot (s.idx dreq) := rfl

/-! ## Byte strobes -/

@[simp] theorem mergeBytes_full (old new : BitVec 64) : mergeBytes old new 0xff#8 = new := by
  have h : strobeMask 0xff#8 = BitVec.allOnes 64 := by decide
  rw [mergeBytes, h, BitVec.and_allOnes, BitVec.not_allOnes, BitVec.and_zero, BitVec.zero_or]

@[simp] theorem mergeBytes_none (old new : BitVec 64) : mergeBytes old new 0 = old := by
  have h : strobeMask 0 = 0#64 := by decide
  rw [mergeBytes, h, BitVec.not_zero, BitVec.and_allOnes, BitVec.and_zero, BitVec.or_zero]

end Directory

end RiscvCpu
