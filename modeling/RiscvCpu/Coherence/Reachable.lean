import RiscvCpu.Coherence.Memory

/-!
# The caches on their own

Runs of the two caches under any requests and any answers of the bus.  The directory
keeps its invariant in all of them, since it changes only by a miss that may start and by
hits: no line is held twice, and all lines are cached ones.  In the instruction cache no
line is ever dirty, so that it has nothing to write back.

The instruction cache tests for an uncached request by `skip`, which lets one pass in the
last cycle of a write-back.  That does no harm because there are no write-backs.
-/

namespace RiscvCpu

/-! ## Runs -/

/-- The inputs of `DCache`. -/
structure DCacheIn where
  reset : Bool
  dreq : DbusReq
  cresp : CbusResp
deriving DecidableEq, Repr

/-- The clock edge of `DCache` for the inputs of a cycle. -/
def DCache.next (s : DCache) (i : DCacheIn) : DCache := DCache.step s i.reset i.dreq i.cresp

/-- `s` is a run of `DCache` from reset. -/
def DCache.IsRun (s : ℕ → DCache) (i : ℕ → DCacheIn) : Prop :=
  Sync.FromReset DCache.next (fun j => j.reset = true) s i

/-- The inputs of `ICache`. -/
structure ICacheIn where
  reset : Bool
  ireq : IbusReq
  cresp : CbusResp
deriving DecidableEq, Repr

/-- The clock edge of `ICache` for the inputs of a cycle. -/
def ICache.next (s : ICache) (i : ICacheIn) : ICache := ICache.step s i.reset i.ireq i.cresp

/-- `s` is a run of `ICache` from reset. -/
def ICache.IsRun (s : ℕ → ICache) (i : ℕ → ICacheIn) : Prop :=
  Sync.FromReset ICache.next (fun j => j.reset = true) s i

/-! ## The directory -/

section Directory

variable {ib : Nat} {s : Cache ib} {dreq : DbusReq} {cresp : CbusResp} {fsmToMiss : Bool}

/-- What the directory of a cache keeps to. -/
structure Cache.Lawful (s : Cache ib) : Prop where
  /-- Two valid ways of a set hold different tags. -/
  tags : ∀ index w w', (s.metadata index w).valid = true → (s.metadata index w').valid = true →
    s.tagRam index w = s.tagRam index w' → w = w'
  /-- At most one way hits, and `idx` is its number. -/
  hit : ∀ dreq w, s.hitBits dreq w = true → s.idx dreq = w ∧ ∀ w', s.hitBits dreq w' = true → w' = w
  /-- A valid tag has the bit that stands for bit 31 of the address. -/
  cached : ∀ index w, (s.metadata index w).valid = true → (s.tagRam index w).getLsbD (24 - ib) = true
  uncached : ∀ dreq : DbusReq, isCached dreq.addr = false → s.isHit dreq = false

/-- A cycle keeps lines apart, whatever is requested and answered. -/
theorem Cache.DirectoryOk.step (h : s.DirectoryOk) (hm : s.MayMiss dreq cresp fsmToMiss) :
    (s.step dreq cresp fsmToMiss false).DirectoryOk := by
  cases hf : fsmToMiss with
  | true =>
    subst hf
    exact h.start hm
  | false => exact h.follow

/-- The two invariants of the directory in the terms of its registers. -/
theorem Cache.LinesCached.lawful (h : s.LinesCached) (hd : s.DirectoryOk) (h7 : 7 ≤ ib)
    (h24 : ib ≤ 24) : s.Lawful where
  tags index w w' hw hw' ht := hd w w' ⟨s.tagRam index w, index, 0⟩ ⟨hw, rfl⟩ ⟨hw', ht.symm⟩
  hit dreq w hw := by
    have hr := hitBits_iff.mp hw
    exact ⟨hd.idx_eq hr, fun w' hw' => hd w' w _ (hitBits_iff.mp hw') hr⟩
  cached index w hw := by
    have hc := h.resident w ⟨s.tagRam index w, index, 0⟩ ⟨hw, rfl⟩
    rwa [ReqAddr.IsCached, ReqAddr.isCached_addr h24] at hc
  uncached _ hu := h.isHit_uncached h7 h24 hu

end Directory

section Runs

variable {ib : Nat} {s : ℕ → Cache ib} {dreq : ℕ → DbusReq} {cresp : ℕ → CbusResp}
  {fsmToMiss : ℕ → Bool}

/-- `s` runs from reset under any requests and answers, with misses where `fsmToMiss` has
them. -/
structure Cache.RunsFromReset (s : ℕ → Cache ib) (dreq : ℕ → DbusReq) (cresp : ℕ → CbusResp)
    (fsmToMiss : ℕ → Bool) : Prop where
  start : ∃ x d r m, s 0 = Cache.step x d r m true
  next : ∀ t, s (t + 1) = (s t).step (dreq t) (cresp t) (fsmToMiss t) false
  mayMiss : ∀ t, (s t).MayMiss (dreq t) (cresp t) (fsmToMiss t)

theorem Cache.RunsFromReset.directoryOk (h : Cache.RunsFromReset s dreq cresp fsmToMiss) (t : ℕ) :
    (s t).DirectoryOk := by
  induction t with
  | zero =>
    obtain ⟨x, d, r, m, hs⟩ := h.start
    rw [hs]
    exact (refillOk_of_reset x d r m).directory
  | succ t ih =>
    rw [h.next t]
    exact ih.step (h.mayMiss t)

theorem Cache.RunsFromReset.linesCached (h : Cache.RunsFromReset s dreq cresp fsmToMiss)
    (h7 : 7 ≤ ib) (h24 : ib ≤ 24)
    (hc : ∀ t, fsmToMiss t = true → isCached (dreq t).addr = true) (t : ℕ) :
    (s t).LinesCached := by
  induction t with
  | zero =>
    obtain ⟨x, d, r, m, hs⟩ := h.start
    rw [hs]
    exact linesCached_of_reset x d r m
  | succ t ih =>
    rw [h.next t]
    exact ih.step h7 h24 (h.mayMiss t) (hc t)

/-- The directory is lawful when only cached requests miss. -/
theorem Cache.RunsFromReset.lawful (h : Cache.RunsFromReset s dreq cresp fsmToMiss) (h7 : 7 ≤ ib)
    (h24 : ib ≤ 24) (hc : ∀ t, fsmToMiss t = true → isCached (dreq t).addr = true) (t : ℕ) :
    (s t).Lawful :=
  (h.linesCached h7 h24 hc t).lawful (h.directoryOk t) h7 h24

end Runs

section DCache

variable {s : ℕ → DCache} {i : ℕ → DCacheIn}

theorem DCache.IsRun.next_eq (h : DCache.IsRun s i) (t : ℕ) :
    s (t + 1) = Cache.step (s t) (i t).dreq (i t).cresp
      (DCache.fsmToMiss (s t) (i t).dreq (i t).cresp) false := by
  have hr : (i t).reset = false := Bool.eq_false_iff.mpr (h.noReset t)
  rw [h.next t, DCache.next, DCache.step, hr]

theorem DCache.IsRun.runsFromReset (h : DCache.IsRun s i) :
    Cache.RunsFromReset s (fun t => (i t).dreq) (fun t => (i t).cresp)
      fun t => DCache.fsmToMiss (s t) (i t).dreq (i t).cresp where
  start := by
    obtain ⟨x, j, hj, hs⟩ := h.start
    rw [DCache.next, DCache.step, hj] at hs
    exact ⟨_, _, _, _, hs⟩
  next := h.next_eq
  mayMiss _ := DCache.mayMiss _ _ _

end DCache

/-! ## The instruction cache -/

section ICache

variable {s : ICache} {ireq : IbusReq} {cresp : CbusResp}

/-- The instruction cache has nothing to write back. -/
structure ICache.Clean (s : ICache) : Prop where
  metadata : ∀ index w, (s.metadata index w).dirty = false
  wbMeta : s.wbMeta.dirty = false
  missState : s.missState ≠ .writeback

theorem ICache.clean_of_reset (s : ICache) (ireq : IbusReq) (cresp : CbusResp) :
    ICache.Clean (ICache.step s true ireq cresp) where
  metadata _ _ := rfl
  wbMeta := rfl
  missState := by
    intro h
    cases h

/-- A fetch dirties no line. -/
theorem ICache.step_dirty (h : ICache.Clean s) (index : BitVec 7) (w : BitVec 3) :
    ((ICache.step s false ireq cresp).metadata index w).dirty = false := by
  change (Cache.metadataNxt s ireq.toDreq (ICache.fsmToMiss s ireq cresp) index w).dirty = false
  have hstrobe : (ireq.toDreq.strobe != 0) = false := rfl
  rw [Cache.metadataNxt, hstrobe]
  split
  · exact h.metadata index w
  · split
    · by_cases hi : index = (reqAddr 7 ireq.toDreq.addr).index
      · subst hi
        rw [Function.update_self]
        by_cases hw : w = Cache.missIdx s ireq.toDreq
        · rw [hw, Function.update_self]
        · rw [Function.update_of_ne hw]
          exact h.metadata _ w
      · rw [Function.update_of_ne hi]
        exact h.metadata index w
    · exact h.metadata index w

theorem ICache.Clean.step (h : ICache.Clean s) : ICache.Clean (ICache.step s false ireq cresp) := by
  refine ⟨step_dirty h, ?_, ?_⟩
  · rw [ICache.step]
    cases ICache.fsmToMiss s ireq cresp with
    | true => exact h.metadata _ _
    | false =>
      change (Cache.missFsm s cresp).wbMeta.dirty = false
      rw [Cache.missFsm]
      split <;> exact h.wbMeta
  · rw [ICache.step]
    cases hf : ICache.fsmToMiss s ireq cresp with
    | true =>
      intro hst
      cases hst
    | false =>
      cases hs : s.missState with
      | idle =>
        rw [Cache.step_of_idle _ _ hs]
        simp
      | load =>
        rw [(Cache.step_of_load _ _ hs).1, h.wbMeta, Bool.and_false]
        cases cresp.last <;> simp
      | writeback => exact absurd hs h.missState

/-- Without write-backs a miss starts in an idle cache alone, where `skip` shows every
uncached request. -/
theorem ICache.Clean.fsmToMiss_cached (h : ICache.Clean s)
    (hm : ICache.fsmToMiss s ireq cresp = true) : isCached ireq.toDreq.addr = true := by
  have hidle : s.missState = .idle := by
    rcases (ICache.mayMiss s ireq cresp).ready hm with hi | ⟨hw, _⟩
    · exact hi
    · exact absurd hw h.missState
  simp only [fsmToMiss, Cache.skip, hidle, Bool.and_eq_true, Bool.not_eq_true', beq_self_eq_true,
    Bool.and_true, Bool.and_eq_false_iff, Bool.not_eq_false'] at hm
  obtain ⟨⟨⟨_, hskip⟩, hv⟩, _⟩ := hm
  rcases hskip with hc | hnv
  · exact hc
  · have hv' : ireq.toDreq.valid = true := hv
    rw [hnv] at hv'
    cases hv'

/-- A clean cache drives no write. -/
theorem ICache.Clean.creqNoSkip_isWrite (h : ICache.Clean s) :
    (Cache.creqNoSkip s).isWrite = false := by
  change (s.missState == .writeback) = false
  simpa using h.missState

theorem ICache.Clean.creq_isWrite (h : ICache.Clean s) (ireq : IbusReq) :
    (ICache.creq s ireq).isWrite = false := by
  rw [ICache.creq, Cache.creq]
  split
  · rfl
  · exact h.creqNoSkip_isWrite

end ICache

section IRun

variable {s : ℕ → ICache} {i : ℕ → ICacheIn}

theorem ICache.IsRun.next_eq (h : ICache.IsRun s i) (t : ℕ) :
    s (t + 1) = ICache.step (s t) false (i t).ireq (i t).cresp := by
  have hr : (i t).reset = false := Bool.eq_false_iff.mpr (h.noReset t)
  rw [h.next t, ICache.next, hr]

theorem ICache.IsRun.clean (h : ICache.IsRun s i) (t : ℕ) : ICache.Clean (s t) := by
  induction t with
  | zero =>
    obtain ⟨x, j, hj, hs⟩ := h.start
    rw [hs, ICache.next, hj]
    exact ICache.clean_of_reset _ _ _
  | succ t ih =>
    rw [h.next_eq t]
    exact ih.step

theorem ICache.IsRun.runsFromReset (h : ICache.IsRun s i) :
    Cache.RunsFromReset s (fun t => (i t).ireq.toDreq) (fun t => (i t).cresp)
      fun t => ICache.fsmToMiss (s t) (i t).ireq (i t).cresp where
  start := by
    obtain ⟨x, j, hj, hs⟩ := h.start
    rw [ICache.next, ICache.step, hj] at hs
    exact ⟨_, _, _, _, hs⟩
  next := h.next_eq
  mayMiss _ := ICache.mayMiss _ _ _

end IRun

/-- In every state of a run of a cache, whatever is requested and answered, the directory
is lawful, and the instruction cache is clean and drives no write. -/
theorem Cache.directory_lawful :
    (∀ s i, DCache.IsRun s i → ∀ t, Cache.Lawful (s t)) ∧
    (∀ s i, ICache.IsRun s i → ∀ t, Cache.Lawful (s t) ∧
      (∀ index w, ((s t).metadata index w).dirty = false) ∧ (s t).missState ≠ .writeback ∧
      (Cache.creqNoSkip (s t)).isWrite = false ∧
      ∀ ireq, (ICache.creq (s t) ireq).isWrite = false) := by
  refine ⟨fun s i h t => ?_, fun s i h t => ⟨?_, ?_, ?_, ?_, fun ireq => ?_⟩⟩
  · exact h.runsFromReset.lawful (by decide) (by decide) (fun _ => DCache.fsmToMiss_cached) t
  · exact h.runsFromReset.lawful (by decide) (by decide)
      (fun u => (h.clean u).fsmToMiss_cached) t
  · exact (h.clean t).metadata
  · exact (h.clean t).missState
  · exact (h.clean t).creqNoSkip_isWrite
  · exact (h.clean t).creq_isWrite ireq

/-! ## Example runs -/

/-- The run after a reset of a clear cache. -/
def DCache.runOf (i : ℕ → DCacheIn) : ℕ → DCache :=
  Sync.runFrom DCache.next (DCache.next (.clear 8) { i 0 with reset := true }) i

theorem DCache.runOf_isRun {i : ℕ → DCacheIn} (h : ∀ t, (i t).reset = false) :
    DCache.IsRun (runOf i) i where
  start := ⟨_, _, rfl, rfl⟩
  noReset t := Bool.eq_false_iff.mp (h t)
  next _ := rfl

/-- The run after a reset of a clear cache. -/
def ICache.runOf (i : ℕ → ICacheIn) : ℕ → ICache :=
  Sync.runFrom ICache.next (ICache.next (.clear 7) { i 0 with reset := true }) i

theorem ICache.runOf_isRun {i : ℕ → ICacheIn} (h : ∀ t, (i t).reset = false) :
    ICache.IsRun (runOf i) i where
  start := ⟨_, _, rfl, rfl⟩
  noReset t := Bool.eq_false_iff.mp (h t)
  next _ := rfl

/-- Stores to a word, with a bus that always answers and never ends a burst. -/
def storeAlways (_ : ℕ) : DCacheIn :=
  ⟨false, ⟨true, 0x80000000#64, .msize8, 0xff#8, 1⟩, ⟨true, false, 5⟩⟩

/-- Fetches of an uncached word, with a bus that answers likewise. -/
def fetchAlways (_ : ℕ) : ICacheIn := ⟨false, ⟨true, 0x40000000#64⟩, ⟨true, false, 5⟩⟩

/-- After the miss the word is held in way 7, the highest that was free. -/
theorem storeAlways_idx :
    (DCache.runOf storeAlways 2).idx (storeAlways 2).dreq = 7 ∧
      (Cache.creqNoSkip (ICache.runOf fetchAlways 2)).isWrite = false := by
  have hd := (Cache.directory_lawful.1 _ _ (DCache.runOf_isRun (i := storeAlways) fun _ => rfl) 2)
  have hi := (Cache.directory_lawful.2 _ _ (ICache.runOf_isRun (i := fetchAlways) fun _ => rfl) 2)
  exact ⟨(hd.hit _ 7 (by decide +kernel)).1, hi.2.2.2.1⟩

end RiscvCpu
