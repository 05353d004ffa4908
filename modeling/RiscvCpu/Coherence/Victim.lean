import RiscvCpu.Coherence.Replacement

/-!
# Dirty victims

A miss that takes the way of a valid dirty line is served by two bursts of sixteen beats:
one that brings the new line in, and one that sends the old line away.  The second sends
the words the way held in the cycle of the miss, whatever the gaps between the beats and
whatever hits in between.

The words wait in the way until the refill overwrites them, and in the write buffer from
then on (`displacedAt`).  Only the bus has to keep to the length of the bursts, and only
from the miss on.
-/

namespace RiscvCpu

/-! ## The two bursts -/

/-- The number of beats in the cycles after `t` and before `u`. -/
def beatsSince (i : ℕ → DCacheIn) (t : ℕ) : ℕ → ℕ
  | 0 => 0
  | u + 1 =>
    if t < u ∧ (i u).cresp.ready = true then beatsSince i t u + 1 else beatsSince i t u

/-- After cycle `t` the bus ends two bursts, each with its sixteenth beat. -/
def EndsTwoBursts (i : ℕ → DCacheIn) (t : ℕ) : Prop :=
  ∀ u, t < u → beatsSince i t u < 32 →
    ((i u).cresp.last = true ↔
      (i u).cresp.ready = true ∧ (beatsSince i t u = 15 ∨ beatsSince i t u = 31))

section Beats

variable {i : ℕ → DCacheIn} {t u : ℕ}

theorem beatsSince_start (h : u ≤ t + 1) : beatsSince i t u = 0 := by
  induction u with
  | zero => rfl
  | succ u ih =>
    rw [beatsSince, if_neg fun hc => by omega]
    exact ih (by omega)

theorem beatsSince_succ (h : t < u) :
    beatsSince i t (u + 1) = beatsSince i t u + (i u).cresp.ready.toNat := by
  rw [beatsSince]
  cases (i u).cresp.ready with
  | true => rw [if_pos ⟨h, rfl⟩]; rfl
  | false => rw [if_neg fun hc => Bool.false_ne_true hc.2]; rfl

theorem beatsSince_mono {v : ℕ} (h : u ≤ v) : beatsSince i t u ≤ beatsSince i t v := by
  induction h with
  | refl => exact Nat.le_refl _
  | step _ ih =>
    rw [Nat.succ_eq_add_one, beatsSince]
    split
    · exact Nat.le_succ_of_le ih
    · exact ih

end Beats

/-- A request is beat `k` of the write-back of the words `line` to the line of `a`, the word
of `a` being the first. -/
structure CbusReq.WritesBack {ib : Nat} (req : CbusReq) (a : ReqAddr ib)
    (line : BitVec 4 → BitVec 64) (k : ℕ) : Prop where
  valid : req.valid = true
  isWrite : req.isWrite = true
  strobe : req.strobe = 0xff#8
  addr : req.addr = a.addr
  burst : req.size = .msize8 ∧ req.len = mlen16 ∧ req.burst = .wrap
  /-- The beat is for word `k` of the line in wrapping order. -/
  word : wordOf (req.beatAddr k) =
    (⟨a.tag, a.index, a.offset + BitVec.ofNat 4 k⟩ : ReqAddr ib).word
  data : req.data = line (a.offset + BitVec.ofNat 4 k)

/-! ## The miss registers in the two bursts -/

section Evicting

variable {ib : Nat} {s : Cache ib} {dreq : DbusReq} {cresp : CbusResp} {fsmToMiss : Bool}
  {a : ReqAddr ib} {line : BitVec 4 → BitVec 64} {n : ℕ}

/-- The line of `a` with the words `line` is displaced, `n` beats after a miss on the offset
of `a`. -/
structure Cache.Evicting (s : Cache ib) (a : ReqAddr ib) (line : BitVec 4 → BitVec 64)
    (n : ℕ) : Prop where
  state : s.missState = if n < 16 then .load else .writeback
  refill : s.RefillOk (n % 16)
  wbMeta : n < 16 → s.wbMeta.valid = true ∧ s.wbMeta.dirty = true
  wbTag : s.wbTag = a.tag
  index : s.creqAddr.index = a.index
  offset : s.creqAddr.offset = a.offset
  words : ∀ o, s.displacedAt o = line o

/-- A miss displaces the line of its victim. -/
theorem Cache.DirectoryOk.evicting_start (h : s.DirectoryOk) (hm : s.MayMiss dreq cresp true)
    (hv : (s.metadata (reqAddr ib dreq.addr).index (s.missIdx dreq)).valid = true)
    (hd : (s.metadata (reqAddr ib dreq.addr).index (s.missIdx dreq)).dirty = true) :
    (s.step dreq cresp true false).Evicting
      ⟨s.tagRam (reqAddr ib dreq.addr).index (s.missIdx dreq), (reqAddr ib dreq.addr).index,
        (reqAddr ib dreq.addr).offset⟩
      (fun o => s.dataRam ⟨s.missIdx dreq, (reqAddr ib dreq.addr).index, o⟩) 0 where
  state := rfl
  refill := h.refillOk_start hm
  wbMeta _ := ⟨hv, hd⟩
  wbTag := rfl
  index := rfl
  offset := rfl
  words o := by
    rw [displacedAt_of_waiting rfl rfl]
    exact hm.step_dataRam _

theorem Cache.Evicting.busy (h : s.Evicting a line n) : s.missState ≠ .idle := by
  rw [h.state]
  split <;> simp

/-- No other miss starts before the last beat of the write-back. -/
theorem Cache.Evicting.not_miss (h : s.Evicting a line n) (hm : s.MayMiss dreq cresp fsmToMiss)
    (hlast : 16 ≤ n → cresp.last = false) : fsmToMiss = false := by
  by_contra hc
  have hst := h.state
  rcases hm.ready (Bool.not_eq_false _ ▸ hc) with hi | ⟨hw, hl⟩
  · exact h.busy hi
  · rw [hw] at hst
    split at hst
    · cases hst
    · rw [hlast (by omega)] at hl
      cases hl

/-- The last beat of the refill is the one that is not followed by another. -/
theorem Cache.Evicting.last_iff
    (hb : cresp.last = true ↔ cresp.ready = true ∧ (n = 15 ∨ n = 31)) (h16 : n < 16) :
    cresp.last = true ↔ ¬n + cresp.ready.toNat < 16 := by
  rw [hb]
  cases cresp.ready with
  | true =>
    rw [Bool.toNat_true]
    simp only [true_and]
    omega
  | false =>
    rw [Bool.toNat_false]
    simp only [Bool.false_eq_true, false_and, false_iff, not_not]
    exact h16

section Bus

variable (hb : cresp.last = true ↔ cresp.ready = true ∧ (n = 15 ∨ n = 31))
  (hn : n + cresp.ready.toNat < 32)

include hb hn

/-- The bus ends either burst with its sixteenth beat. -/
theorem Cache.Evicting.beats : s.Beats (n % 16) cresp := by
  intro _
  rw [hb]
  exact and_congr_right fun _ => by omega

/-- The write-back goes on. -/
theorem Cache.Evicting.not_last (h16 : 16 ≤ n) : cresp.last = false := by
  by_contra hc
  obtain ⟨hr, h31⟩ := hb.mp (Bool.not_eq_false _ ▸ hc)
  rw [hr, Bool.toNat_true] at hn
  omega

theorem Cache.Evicting.beatNxt (h : s.Evicting a line n) :
    s.beatNxt (n % 16) cresp = (n + cresp.ready.toNat) % 16 := by
  have hbeats : s.Beats (n % 16) cresp := beats hb hn
  rcases hbeats.cases h.busy h.refill.beat with ⟨hr, _, hk⟩ | ⟨hr, _, _, hk⟩ | ⟨hr, _, _, hk⟩
  · rw [hk, hr]
    rfl
  · rw [hk, hr, Bool.toNat_true]
    omega
  · rw [hk, hr, Bool.toNat_true]
    omega

/-- The state after a cycle of the two bursts. -/
theorem Cache.Evicting.step_missState (h : s.Evicting a line n) :
    (s.step dreq cresp false false).missState =
      if n + cresp.ready.toNat < 16 then .load else .writeback := by
  have hst := h.state
  split at hst
  · rename_i hload
    rw [(step_of_load dreq cresp hst).1, (h.wbMeta hload).1, (h.wbMeta hload).2]
    simp only [last_iff hb hload, Bool.and_self, if_true, ite_not]
  · rw [(step_of_writeback dreq cresp hst).1, not_last hb hn (by omega),
      if_neg Bool.false_ne_true, if_neg (by omega)]

/-- A cycle of the two bursts. -/
theorem Cache.Evicting.step (h : s.Evicting a line n) (hm : s.MayMiss dreq cresp fsmToMiss) :
    (s.step dreq cresp fsmToMiss false).Evicting a line (n + cresp.ready.toNat) := by
  obtain rfl := h.not_miss hm (not_last hb hn)
  have hbeats : s.Beats (n % 16) cresp := beats hb hn
  have hrefill : (s.step dreq cresp false false).RefillOk _ := h.refill.follow hbeats
  have hwords := fun o => (h.refill.step_displacedAt hbeats h.busy o dreq).trans (h.words o)
  rw [h.beatNxt hb hn] at hrefill
  have hst := h.state
  split at hst
  · rename_i hload
    obtain ⟨_, hca, _, _, hwm, hwt, _⟩ := step_of_load dreq cresp hst
    refine ⟨h.step_missState hb hn, hrefill, fun _ => hwm ▸ h.wbMeta hload, hwt.trans h.wbTag,
      ?_, ?_, hwords⟩
    · rw [hca]
      split <;> exact h.index
    · rw [hca]
      split <;> exact h.offset
  · rename_i hload
    obtain ⟨_, hca, _, hwt, _⟩ := step_of_writeback dreq cresp hst
    refine ⟨h.step_missState hb hn, hrefill, fun hlt => ?_, hwt.trans h.wbTag, hca ▸ h.index,
      hca ▸ h.offset, hwords⟩
    omega

end Bus

/-- A beat of the write-back carries its word. -/
theorem Cache.Evicting.writesBack (h : s.Evicting a line n) (h39 : ib ≤ 39) {k : ℕ}
    (hn : n = 16 + k) (hk : k < 16) : (s.creq dreq).WritesBack a line k := by
  have hst : s.missState = .writeback := by
    rw [h.state, if_neg (by omega)]
  have hr : s.RefillOk k := by
    have := h.refill
    rwa [show n % 16 = k by omega] at this
  have hoff : s.missAddr.offset = a.offset + BitVec.ofNat 4 k := by
    rw [hr.offset h.busy, h.offset]
  have haddr : s.creqAddr = a := by
    have htag := (hr.wbTag hst).trans h.wbTag
    have hindex := h.index
    have hoffset := h.offset
    cases a with
    | mk t i o =>
      cases hc : s.creqAddr with
      | mk t' i' o' =>
        rw [hc] at htag hindex hoffset
        simp only at htag hindex hoffset
        rw [htag, hindex, hoffset]
  rw [creq_of_miss h.busy]
  refine ⟨?_, ?_, ?_, ?_, ⟨rfl, rfl, rfl⟩, ?_, ?_⟩
  · simp [creqNoSkip, hst]
  · simp [creqNoSkip, hst]
  · simp [creqNoSkip, hst]
  · rw [← haddr]
    rfl
  · rw [hr.wordOf_beatAddr h39 h.busy, burstWord, haddr, hoff]
  · rw [← h.words, displacedAt_of_buffered fun hl => absurd (hl.symm.trans hst) (by simp), ← hoff]
    exact (hr.bufAt_next hst).symm

/-- The write-back ends with its last beat. -/
theorem Cache.Evicting.step_last (h : s.Evicting a line 31) (hl : cresp.last = true) :
    (s.step dreq cresp fsmToMiss false).missState ≠ .writeback := by
  cases fsmToMiss with
  | true =>
    intro hw
    cases hw
  | false =>
    rw [(step_of_writeback dreq cresp h.state).1, hl, if_pos rfl]
    simp

end Evicting

/-! ## Runs -/

section Runs

variable {s : ℕ → DCache} {i : ℕ → DCacheIn} {t : ℕ}

/-- The word of memory that a miss of a request takes the place of. -/
def DCache.victim (s : DCache) (dreq : DbusReq) : ReqAddr 8 :=
  let a := reqAddr 8 dreq.addr
  ⟨s.tagRam a.index (s.missIdx dreq), a.index, a.offset⟩

/-- The words of the way that a miss of a request gives away. -/
def DCache.victimLine (s : DCache) (dreq : DbusReq) (o : BitVec 4) : BitVec 64 :=
  s.dataRam ⟨s.missIdx dreq, (reqAddr 8 dreq.addr).index, o⟩

/-- A miss of the data cache displaces a valid dirty line. -/
structure DCache.EvictsDirty (s : DCache) (dreq : DbusReq) (cresp : CbusResp) : Prop where
  miss : DCache.fsmToMiss s dreq cresp = true
  valid : (s.metadata (reqAddr 8 dreq.addr).index (s.missIdx dreq)).valid = true
  dirty : (s.metadata (reqAddr 8 dreq.addr).index (s.missIdx dreq)).dirty = true

/-- From a miss to the last beat of the write-back. -/
theorem DCache.IsRun.evicting (h : DCache.IsRun s i)
    (hm : DCache.EvictsDirty (s t) (i t).dreq (i t).cresp) (hb : EndsTwoBursts i t) (d : ℕ)
    (hn : beatsSince i t (t + 1 + d) < 32) :
    Cache.Evicting (s (t + 1 + d)) (DCache.victim (s t) (i t).dreq)
      (DCache.victimLine (s t) (i t).dreq) (beatsSince i t (t + 1 + d)) := by
  induction d with
  | zero =>
    have hmay : Cache.MayMiss (s t) (i t).dreq (i t).cresp true := hm.miss ▸ DCache.mayMiss _ _ _
    rw [Nat.add_zero, beatsSince_start (Nat.le_refl _), h.next_eq t, hm.miss]
    exact (h.runsFromReset.directoryOk t).evicting_start hmay hm.valid hm.dirty
  | succ d ih =>
    rw [← Nat.add_assoc] at hn ⊢
    have hlt : t < t + 1 + d := by omega
    have hpast : beatsSince i t (t + 1 + d) < 32 :=
      Nat.lt_of_le_of_lt (beatsSince_mono (Nat.le_succ _)) hn
    rw [beatsSince_succ hlt] at hn ⊢
    rw [h.next_eq]
    exact (ih hpast).step (hb _ hlt hpast) hn (DCache.mayMiss _ _ _)

/-- After a miss that displaces a valid dirty line the cache refills for sixteen beats and
then writes back, beat for beat, the words the victim held in the cycle of the miss. -/
theorem DCache.IsRun.victim_written (h : DCache.IsRun s i)
    (hm : DCache.EvictsDirty (s t) (i t).dreq (i t).cresp) (hb : EndsTwoBursts i t) {u : ℕ}
    (hu : t < u) :
    (beatsSince i t u < 16 → (s u).missState = .load) ∧
    (∀ k < 16, beatsSince i t u = 16 + k →
      (Cache.creq (s u) (i u).dreq).WritesBack (DCache.victim (s t) (i t).dreq)
        (DCache.victimLine (s t) (i t).dreq) k) ∧
    (beatsSince i t u = 31 → (i u).cresp.ready = true →
      (s (u + 1)).missState ≠ .writeback) := by
  obtain ⟨d, rfl⟩ := Nat.exists_eq_add_of_le (show t + 1 ≤ u from hu)
  have hev := h.evicting hm hb d
  refine ⟨fun hn => ?_, fun k hk hn => ?_, fun hn hr => ?_⟩
  · rw [(hev (by omega)).state, if_pos hn]
  · exact (hev (by omega)).writesBack (by decide) hn hk
  · have hlast := (hb _ hu (by omega)).mpr ⟨hr, .inr hn⟩
    have hev31 := hev (by omega)
    rw [hn] at hev31
    rw [h.next_eq]
    exact hev31.step_last hlast

end Runs

/-! ## A dirty line in a full set -/

/-- Loads from one line of a set after another, each for seventeen cycles, with a store of
the number 16 to the first of them. -/
def fillStores (t : ℕ) : DCacheIn :=
  ⟨false, ⟨true, BitVec.ofNat 64 (0x80000000 + t / 17 * 0x8000), .msize8,
    if t = 16 then 0xff#8 else 0, BitVec.ofNat 64 t⟩, fillResp t⟩

theorem fillStores_endsTwoBursts : EndsTwoBursts fillStores 136 := by
  intro u hu hn
  have hend : ∀ u ≤ 169, 136 < u →
      ((fillStores u).cresp.last = true ↔ (fillStores u).cresp.ready = true ∧
        (beatsSince fillStores 136 u = 15 ∨ beatsSince fillStores 136 u = 31)) := by
    decide +kernel
  refine hend u ?_ hu
  by_contra hc
  have hle : beatsSince fillStores 136 170 ≤ beatsSince fillStores 136 u :=
    beatsSince_mono (by omega)
  rw [show beatsSince fillStores 136 170 = 32 by decide +kernel] at hle
  omega

/-- The ninth line takes the place of the first, and the first word sent back is the one that
was stored. -/
theorem fillStores_data :
    (Cache.creq (DCache.runOf fillStores 154) (fillStores 154).dreq).data = 16 := by
  have hev : DCache.EvictsDirty (DCache.runOf fillStores 136) (fillStores 136).dreq
      (fillStores 136).cresp := ⟨by decide +kernel, by decide +kernel, by decide +kernel⟩
  have hw := (DCache.IsRun.victim_written (DCache.runOf_isRun (i := fillStores) fun _ => rfl) hev
    fillStores_endsTwoBursts (u := 154) (by decide)).2.1 0 (by decide) (by decide +kernel)
  rw [hw.data]
  decide +kernel

end RiscvCpu
