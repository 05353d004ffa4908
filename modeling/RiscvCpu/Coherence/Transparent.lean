import RiscvCpu.Coherence.Memory

/-!
# The data cache is transparent

`VCacheTop` is the data cache alone between a requester and a memory.  A requester
holds a cached request until it is accepted and through the cycle after that, and
an uncached request until its data arrives.  Everything else is free: which
requests it makes, when it rests, and when memory answers.

A cached load returns what the stores accepted before it have left in memory.
-/

namespace RiscvCpu

/-! ## Stores in order -/

/-- Memory after one request.  A load has no strobe and changes nothing. -/
def storeWord (mem : BitVec 61 → BitVec 64) (dreq : DbusReq) : BitVec 61 → BitVec 64 :=
  Function.update mem (wordOf dreq.addr)
    (mergeBytes (mem (wordOf dreq.addr)) dreq.data dreq.strobe)

/-- Memory after a list of requests, in order. -/
def applyStores (mem : BitVec 61 → BitVec 64) (reqs : List DbusReq) : BitVec 61 → BitVec 64 :=
  reqs.foldl storeWord mem

/-! ## Hits -/

section Hits

variable {s : DCache} {dreq : DbusReq} {cresp : CbusResp}

/-- An accepted cached request hits. -/
theorem DCache.fsmToHit_of_accepted (hc : isCached dreq.addr = true) (hv : dreq.valid = true)
    (hok : (DCache.dresp s dreq cresp).addrOk = true) : Cache.fsmToHit s dreq = true := by
  have hskip : Cache.skip s dreq = false := by
    simp [Cache.skip, hc]
  simp only [DCache.dresp, Cache.dresp, hskip, Bool.false_eq_true, if_false,
    Bool.and_eq_true] at hok
  simp [Cache.fsmToHit, hskip, hv, hok.1, hok.2]

/-- A request that hits is a cached one and accepted. -/
theorem DCache.accepted_of_fsmToHit (h : Cache.LinesCached s)
    (hh : Cache.fsmToHit s dreq = true) (cresp : CbusResp) :
    isCached dreq.addr = true ∧ dreq.valid = true ∧
      (DCache.dresp s dreq cresp).addrOk = true := by
  have hhit := hh
  simp only [Cache.fsmToHit, Bool.and_eq_true, Bool.not_eq_true'] at hhit
  obtain ⟨⟨hit, hskip⟩, hv, hok⟩ := hhit
  refine ⟨?_, hv, ?_⟩
  · by_contra hc
    rw [h.isHit_uncached (by omega) (by omega) (Bool.eq_false_iff.mpr hc)] at hit
    cases hit
  · simp [DCache.dresp, Cache.dresp, hskip, hit, hok]

/-- What a request that hits leaves in a word. -/
theorem DCache.storedAt_of_hit (hh : Cache.fsmToHit s dreq = true)
    (hr : dreq.addr.toNat < 2 ^ 33) (val : BitVec 61 → BitVec 64) (a : ReqAddr 8) :
    Cache.storedAt s dreq a (val a.word) = storeWord val dreq a.word := by
  have hword : (reqAddr 8 dreq.addr).word = wordOf dreq.addr := word_reqAddr (by omega) hr
  rw [Cache.storedAt, storeWord]
  by_cases ha : reqAddr 8 dreq.addr = a
  · rw [if_pos ⟨hh, ha⟩, ← ha, hword, Function.update_self]
  · have hne : a.word ≠ wordOf dreq.addr := by
      rw [← hword]
      exact fun heq => ha (ReqAddr.word_inj (by omega) heq).symm
    rw [if_neg (fun hc => ha hc.2), Function.update_of_ne hne]

end Hits

/-! ## The cache between a requester and memory -/

/-- Where the requester stands with its request. -/
inductive Handshake where
  /-- None is outstanding. -/
  | free
  /-- It waits to be accepted, or for its data if it is uncached. -/
  | pending
  /-- It was accepted in the cycle before and is driven once more. -/
  | again
deriving DecidableEq, Repr

/-- The registers of `VCacheTop`, of the memory behind it and of the requester. -/
structure VCacheTop where
  top : DCache
  ram : Ram
  handshake : Handshake
  /-- The request of the cycle before. -/
  held : DbusReq

/-- The inputs of a cycle. -/
structure VCacheTopIn where
  reset : Bool
  /-- The next request, if none is outstanding. -/
  dreq : DbusReq
  ram : RamIn
deriving DecidableEq, Repr

section VCacheTop

variable (s : VCacheTop) (i : VCacheTopIn)

/-- `dreq`. -/
def VCacheTop.dreq : DbusReq := if s.handshake = .free then i.dreq else s.held

/-- `creq`. -/
def VCacheTop.creq : CbusReq := Cache.creq s.top (s.dreq i)

/-- `cresp`. -/
def VCacheTop.cresp : CbusResp := s.ram.resp (s.creq i) i.ram

/-- `dresp`. -/
def VCacheTop.dresp : DbusResp := DCache.dresp s.top (s.dreq i) (s.cresp i)

/-- Is a cached request accepted, for the first time? -/
def VCacheTop.accepts : Bool :=
  s.handshake != .again && (s.dreq i).valid && isCached (s.dreq i).addr && (s.dresp i).addrOk

/-- Where the requester stands in the next cycle. -/
def VCacheTop.handshakeNxt : Handshake :=
  if s.handshake = .again || !(s.dreq i).valid then .free
  else if isCached (s.dreq i).addr then if (s.dresp i).addrOk then .again else .pending
  else if (s.dresp i).dataOk then .free
  else .pending

/-- The clock edge. -/
def VCacheTop.step : VCacheTop where
  top := DCache.step s.top i.reset (s.dreq i) (s.cresp i)
  ram := s.ram.step (s.creq i) (s.cresp i) i.reset
  handshake := if i.reset then .free else s.handshakeNxt i
  held := s.dreq i

end VCacheTop

/-- `s` is a run of the cache between a requester and memory. -/
def VCacheTop.IsRun (s : ℕ → VCacheTop) (i : ℕ → VCacheTopIn) : Prop :=
  Sync.FromReset VCacheTop.step (fun j => j.reset = true) s i

/-- The cached requests accepted before cycle `t`, in order. -/
def VCacheTop.acceptedBefore (s : ℕ → VCacheTop) (i : ℕ → VCacheTopIn) (t : ℕ) : List DbusReq :=
  (List.range t).filterMap fun u => if (s u).accepts (i u) then some ((s u).dreq (i u)) else none

/-- A cached request is for an address the cache can hold. -/
def DbusReq.InRange (dreq : DbusReq) : Prop :=
  dreq.valid = true → isCached dreq.addr = true → dreq.addr.toNat < 2 ^ 33

instance (dreq : DbusReq) : Decidable dreq.InRange := inferInstanceAs (Decidable (_ → _ → _))

/-! ## The invariant -/

theorem mergeBytes_idem (old new : BitVec 64) (strobe : BitVec 8) :
    mergeBytes (mergeBytes old new strobe) new strobe = mergeBytes old new strobe := by
  unfold mergeBytes
  generalize strobeMask strobe = mask
  ext j hj
  simp only [BitVec.getElem_or, BitVec.getElem_and, BitVec.getElem_not]
  cases mask[j] <;> simp

/-- The cache and memory hold `val`, and a request that is driven once more has been
applied to it already. -/
structure VCacheTop.Transparent (s : VCacheTop) (val : BitVec 61 → BitVec 64) : Prop where
  coherent : s.top.Coherent s.ram.beat s.ram.word val ReqAddr.IsCached
  held : s.handshake ≠ .free → s.held.InRange
  again : s.handshake = .again → s.held.valid = true ∧ isCached s.held.addr = true ∧
    mergeBytes (val (wordOf s.held.addr)) s.held.data s.held.strobe = val (wordOf s.held.addr)

theorem VCacheTop.transparent_of_reset (s : VCacheTop) {i : VCacheTopIn} (h : i.reset = true) :
    (s.step i).Transparent (s.step i).ram.word where
  coherent := by
    have hbeat : (s.step i).ram.beat = 0 := by
      simp [step, Ram.step, h]
    rw [hbeat]
    simp only [step, h]
    exact Cache.coherent_of_reset _ _ _ _ _ _
  held hn := by
    simp [step, h] at hn
  again hn := by
    simp [step, h] at hn

section Step

variable {s : VCacheTop} {i : VCacheTopIn} {val : BitVec 61 → BitVec 64}

theorem VCacheTop.Transparent.inRange (h : s.Transparent val) (hi : i.dreq.InRange) :
    (s.dreq i).InRange := by
  unfold dreq
  split
  · exact hi
  · rename_i hn
    exact h.held hn

/-- An accepted cached request hits. -/
theorem VCacheTop.fsmToHit_of_accepts (ha : s.accepts i = true) :
    s.top.fsmToHit (s.dreq i) = true := by
  simp only [accepts, Bool.and_eq_true] at ha
  obtain ⟨⟨⟨_, hv⟩, hc⟩, hok⟩ := ha
  exact DCache.fsmToHit_of_accepted hc hv hok

/-- A request that hits is a cached one and accepted. -/
theorem VCacheTop.Transparent.of_fsmToHit (h : s.Transparent val)
    (hh : s.top.fsmToHit (s.dreq i) = true) :
    isCached (s.dreq i).addr = true ∧ (s.dreq i).valid = true ∧ (s.dresp i).addrOk = true :=
  DCache.accepted_of_fsmToHit h.coherent.lines hh _

/-- What the requests of a cycle leave in a word. -/
theorem VCacheTop.Transparent.storedAt (h : s.Transparent val) (hi : i.dreq.InRange)
    (a : ReqAddr 8) :
    (if s.accepts i then storeWord val (s.dreq i) else val) a.word =
      s.top.storedAt (s.dreq i) a (val a.word) := by
  unfold Cache.storedAt
  cases hh : s.top.fsmToHit (s.dreq i) with
  | false =>
    have hacc : s.accepts i = false := by
      by_contra hc
      rw [fsmToHit_of_accepts (Bool.not_eq_false _ ▸ hc)] at hh
      cases hh
    rw [hacc]
    rfl
  | true =>
    obtain ⟨hc, hv, hok⟩ := h.of_fsmToHit hh
    have hword : (reqAddr 8 (s.dreq i).addr).word = wordOf (s.dreq i).addr :=
      word_reqAddr (by omega) (h.inRange hi hv hc)
    by_cases hagain : s.handshake = .again
    · -- the request has been applied in the cycle before
      have hacc : s.accepts i = false := by
        simp [accepts, hagain]
      have hheld : s.dreq i = s.held := by
        simp [dreq, hagain]
      rw [hacc, if_neg Bool.false_ne_true]
      split
      · rename_i ha
        rw [← ha.2, hword, hheld]
        exact (h.again hagain).2.2.symm
      · rfl
    · have hacc : s.accepts i = true := by
        simp [accepts, hagain, hv, hc, hok]
      have hstore := DCache.storedAt_of_hit hh (h.inRange hi hv hc) val a
      rw [Cache.storedAt, hh] at hstore
      rw [hacc, if_pos rfl]
      exact hstore.symm

/-- Memory serves the cache and keeps its beats. -/
theorem VCacheTop.Transparent.memory (h : s.Transparent val) (hr : i.reset = false) :
    s.top.Served s.ram.beat s.ram.word (s.cresp i) ∧
    (s.step i).ram.beat = s.top.beatNxt s.ram.beat (s.cresp i) ∧
    ∀ a : ReqAddr 8, (s.step i).ram.word a.word =
      s.top.writtenAt (s.cresp i) a (s.ram.word a.word) := by
  have hword : (s.step i).ram.word = s.ram.wordNxt (s.creq i) (s.cresp i) := by
    simp [step, Ram.step, hr]
  have hbeat : (s.step i).ram.beat = nextBeat s.ram.beat (s.cresp i) := by
    simp [step, Ram.step, hr]
  rw [hword, hbeat]
  by_cases hs : s.top.missState = .idle
  · have hk : s.ram.beat = 0 := h.coherent.refill.idle hs
    refine ⟨⟨fun hn => absurd hs hn, fun hl => absurd (hs.symm.trans hl) (by simp)⟩, ?_,
      fun a => ?_⟩
    · -- an uncached request is a burst of one beat
      rw [Cache.beatNxt, if_pos hs, nextBeat, hk]
      split
      · rename_i hready
        have hv : (s.creq i).valid = true := by
          by_contra hc
          simp [cresp, Ram.resp, hc] at hready
        have hlast : (s.cresp i).last = true := by
          unfold cresp at hready ⊢
          unfold Ram.resp at hready ⊢
          split at hready
          · rename_i hc
            rw [if_pos hc, hk]
            unfold creq
            rw [(Cache.creq_of_idle hs hv).1]
            rfl
          · cases hready
        rw [hlast, if_pos rfl]
      · rfl
    · have hno : s.top.missState ≠ .writeback := by
        rw [hs]
        simp
      rw [Cache.writtenAt, if_neg (fun hc => hno hc.1), Ram.wordNxt, if_neg]
      intro hc
      simp only [Bool.and_eq_true] at hc
      obtain ⟨heq, hu⟩ := Cache.creq_of_idle hs hc.1.1.1
      have hcached := hc.2
      unfold creq at hcached
      rw [heq] at hcached
      exact Bool.false_ne_true (hu.symm.trans hcached)
  · have hcreq : s.creq i = s.top.creqNoSkip := Cache.creq_of_miss hs
    refine ⟨?_, ?_, fun a => ?_⟩
    · unfold cresp
      rw [hcreq]
      exact h.coherent.refill.served h.coherent.lines (by omega) rfl i.ram hs
    · rw [Cache.beatNxt, if_neg hs]
    · rw [hcreq]
      exact h.coherent.refill.wordNxt h.coherent.lines (by omega) rfl hs a

/-- One cycle: an accepted request is applied to the values, everything else leaves
them. -/
theorem VCacheTop.Transparent.step (h : s.Transparent val) (hr : i.reset = false)
    (hi : i.dreq.InRange) :
    (s.step i).Transparent (if s.accepts i then storeWord val (s.dreq i) else val) := by
  obtain ⟨hserved, hbeat, hmem⟩ := h.memory hr
  refine ⟨?_, fun _ => h.inRange hi, fun hagain => ?_⟩
  · rw [hbeat]
    have htop : (s.step i).top = Cache.step s.top (s.dreq i) (s.cresp i)
        (DCache.fsmToMiss s.top (s.dreq i) (s.cresp i)) false := by
      simp only [VCacheTop.step, DCache.step, hr]
    rw [htop]
    exact h.coherent.step (by omega) (by omega) (DCache.mayMiss _ _ _) DCache.fsmToMiss_cached
      hserved (fun a _ => hmem a) (fun a _ => h.storedAt hi a)
  · have hheld : (s.step i).held = s.dreq i := rfl
    have hnxt : s.handshakeNxt i = .again := by
      simpa [VCacheTop.step, hr] using hagain
    unfold handshakeNxt at hnxt
    split at hnxt
    · cases hnxt
    · rename_i hgo
      simp only [Bool.or_eq_true, Bool.not_eq_true', decide_eq_true_eq, not_or,
        Bool.not_eq_false] at hgo
      split at hnxt
      · rename_i hc
        split at hnxt
        · rename_i hok
          have hacc : s.accepts i = true := by
            simp [accepts, hgo.1, hgo.2, hc, hok]
          rw [hheld, hacc, if_pos rfl, storeWord, Function.update_self, mergeBytes_idem]
          exact ⟨hgo.2, hc, rfl⟩
        · cases hnxt
      · split at hnxt <;> cases hnxt

/-- The data of an accepted load is there in the next cycle. -/
theorem VCacheTop.Transparent.load_data (h : s.Transparent val) (hr : i.reset = false)
    (hi : i.dreq.InRange) (hacc : s.accepts i = true) (j : VCacheTopIn) :
    ((s.step i).dresp j).data = val (wordOf (s.dreq i).addr) := by
  have hh := fsmToHit_of_accepts hacc
  obtain ⟨hc, hv, hok⟩ := h.of_fsmToHit hh
  have hnot : s.handshake ≠ .again := by
    intro ha
    simp [accepts, ha] at hacc
  have hagain : (s.step i).handshake = .again := by
    simp [VCacheTop.step, hr, handshakeNxt, hnot, hv, hc, hok]
  have hdreq : (s.step i).dreq j = s.dreq i := by
    rw [dreq, if_neg]
    · rfl
    · rw [hagain]
      simp
  have hskip : (s.step i).top.skip (s.dreq i) = false := by
    simp [Cache.skip, hc]
  have hdata : ((s.step i).dresp j).data = (s.step i).top.hitRdata := by
    simp [dresp, DCache.dresp, Cache.dresp, hdreq, hskip]
  have hcached : (reqAddr 8 (s.dreq i).addr).IsCached := by
    rw [ReqAddr.IsCached, isCached_reqAddr (by omega) (by omega)]
    exact hc
  have hword : (reqAddr 8 (s.dreq i).addr).word = wordOf (s.dreq i).addr :=
    word_reqAddr (by omega) (h.inRange hi hv hc)
  rw [hdata, ← hword]
  exact h.coherent.step_hitRdata hh hcached i.reset

end Step

/-! ## Runs -/

section Run

variable {s : ℕ → VCacheTop} {i : ℕ → VCacheTopIn}

theorem VCacheTop.acceptedBefore_succ (t : ℕ) :
    acceptedBefore s i (t + 1) = acceptedBefore s i t ++
      if (s t).accepts (i t) then [(s t).dreq (i t)] else [] := by
  rw [acceptedBefore, List.range_succ, List.filterMap_append]
  congr 1
  cases h : (s t).accepts (i t) <;> simp [h]

/-- At any time the cache and memory hold what the accepted requests have made of the
initial memory. -/
theorem VCacheTop.IsRun.transparent (h : VCacheTop.IsRun s i) (t : ℕ)
    (hi : ∀ u < t, (i u).dreq.InRange) :
    (s t).Transparent (applyStores (s 0).ram.word (acceptedBefore s i t)) := by
  induction t with
  | zero =>
    obtain ⟨x, j, hj, hs⟩ := h.start
    rw [hs]
    exact x.transparent_of_reset hj
  | succ t ih =>
    have hr : (i t).reset = false := Bool.eq_false_iff.mpr (h.noReset t)
    have hstep := (ih fun u hu => hi u (by omega)).step hr (hi t (by omega))
    rw [← h.next t] at hstep
    have hval : applyStores (s 0).ram.word (acceptedBefore s i (t + 1)) =
        if (s t).accepts (i t) then
          storeWord (applyStores (s 0).ram.word (acceptedBefore s i t)) ((s t).dreq (i t))
        else applyStores (s 0).ram.word (acceptedBefore s i t) := by
      rw [acceptedBefore_succ, applyStores, List.foldl_append]
      cases (s t).accepts (i t) <;> rfl
    rw [hval]
    exact hstep

/-- The data cache is transparent: a cached load returns, in the cycle after it is
accepted, the word the stores accepted before it have made of the initial memory.  So
does a store, which reads the word it is about to change. -/
theorem VCacheTop.IsRun.load_returns_stores (h : VCacheTop.IsRun s i) (t : ℕ)
    (hi : ∀ u ≤ t, (i u).dreq.InRange) (hacc : (s t).accepts (i t) = true) :
    ((s (t + 1)).dresp (i (t + 1))).data =
      applyStores (s 0).ram.word (acceptedBefore s i t) (wordOf ((s t).dreq (i t)).addr) := by
  have hr : (i t).reset = false := Bool.eq_false_iff.mpr (h.noReset t)
  rw [h.next t]
  exact (h.transparent t fun u hu => hi u (by omega)).load_data hr (hi t (Nat.le_refl t)) hacc _

end Run

/-! ## An example run -/

/-- A store of one byte, and from cycle 4 on a load of the word it is in. -/
def storeThenLoad (t : ℕ) : VCacheTopIn where
  reset := false
  dreq :=
    if t < 4 then ⟨true, 0x80000009#64, .msize1, 0x02#8, 0xff00#64⟩
    else ⟨true, 0x80000008#64, .msize8, 0, 0⟩
  ram := ⟨true, 0⟩

/-- The run of `storeThenLoad` with the number of each word in memory. -/
def storeThenLoadRun : ℕ → VCacheTop :=
  let powerOn : VCacheTop :=
    ⟨.clear 8, ⟨fun a => a.setWidth 64, 0⟩, .free, ⟨false, 0, .msize1, 0, 0⟩⟩
  Sync.runFrom VCacheTop.step (powerOn.step { storeThenLoad 0 with reset := true }) storeThenLoad

theorem storeThenLoadRun_isRun : VCacheTop.IsRun storeThenLoadRun storeThenLoad where
  start := ⟨_, _, rfl, rfl⟩
  noReset _ := Bool.false_ne_true
  next _ := rfl

/-- The line the store has hit is still there. -/
theorem storeThenLoad_accepts : (storeThenLoadRun 4).accepts (storeThenLoad 4) = true := by
  have hdreq : (storeThenLoadRun 4).dreq (storeThenLoad 4) =
      ⟨true, 0x80000008#64, .msize8, 0, 0⟩ := by
    decide +kernel
  have hfree : (storeThenLoadRun 4).handshake = .free := by decide +kernel
  have hmiss : DCache.fsmToMiss (storeThenLoadRun 3).top
      ((storeThenLoadRun 3).dreq (storeThenLoad 3))
      ((storeThenLoadRun 3).cresp (storeThenLoad 3)) = false := by
    decide +kernel
  have hstep : (storeThenLoadRun 4).top =
      Cache.step (storeThenLoadRun 3).top ((storeThenLoadRun 3).dreq (storeThenLoad 3))
        ((storeThenLoadRun 3).cresp (storeThenLoad 3)) false false := by
    rw [storeThenLoadRun_isRun.next 3, VCacheTop.step, DCache.step, hmiss, storeThenLoad]
  have hhit : Cache.isHit (storeThenLoadRun 4).top ⟨true, 0x80000008#64, .msize8, 0, 0⟩ =
      true := by
    rw [hstep, Cache.step_isHit]
    decide +kernel
  have hloaded : Cache.isMissDataLoaded (storeThenLoadRun 4).top
      ⟨true, 0x80000008#64, .msize8, 0, 0⟩ = true := by
    decide +kernel
  have hskip : Cache.skip (storeThenLoadRun 4).top ⟨true, 0x80000008#64, .msize8, 0, 0⟩ =
      false := rfl
  rw [VCacheTop.accepts, VCacheTop.dresp, hdreq, hfree, DCache.dresp, Cache.dresp, hskip, hhit,
    hloaded]
  rfl

/-- The load finds the byte in the word that memory held. -/
theorem storeThenLoad_returns_merged :
    ((storeThenLoadRun 5).dresp (storeThenLoad 5)).data =
        applyStores (storeThenLoadRun 0).ram.word
          (VCacheTop.acceptedBefore storeThenLoadRun storeThenLoad 4)
          (wordOf ((storeThenLoadRun 4).dreq (storeThenLoad 4)).addr) ∧
      VCacheTop.acceptedBefore storeThenLoadRun storeThenLoad 4 =
        [⟨true, 0x80000009#64, .msize1, 0x02#8, 0xff00#64⟩] := by
  have hrange : ∀ u ≤ 4, (storeThenLoad u).dreq.InRange := by
    intro u _ _ _
    simp only [storeThenLoad]
    split <;> decide
  exact ⟨storeThenLoadRun_isRun.load_returns_stores 4 hrange storeThenLoad_accepts,
    by decide +kernel⟩

end RiscvCpu
