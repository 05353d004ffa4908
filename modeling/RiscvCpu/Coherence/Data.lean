import RiscvCpu.Coherence.Code
import RiscvCpu.Coherence.Transparent

/-!
# The data in memory and in the data cache

Behind the arbiter the data cache and memory hold one value for each word, and an
accepted store changes it at once.  The memory stage drives an accepted request once
more, which changes nothing.  What memory itself holds of a word is its value now or an
old one, and for the code the two are the same.
-/

namespace RiscvCpu

theorem storeWord_idem (val : BitVec 61 → BitVec 64) (dreq : DbusReq) :
    storeWord (storeWord val dreq) dreq = storeWord val dreq := by
  rw [storeWord, storeWord, Function.update_self, mergeBytes_idem, Function.update_idem]

/-- What the request of a cycle leaves of the values. -/
def SimTop.dataNxt (s : SimTop) (i : SimTopIn) (val : BitVec 61 → BitVec 64) :
    BitVec 61 → BitVec 64 :=
  if Cache.fsmToHit s.top.dcache (s.top.core.dreq i.pins) then
    storeWord val (s.top.core.dreq i.pins)
  else val

/-- The data cache and memory hold `val`. -/
structure SimTop.DataOk (s : SimTop) (val : BitVec 61 → BitVec 64) : Prop where
  coherent : Cache.Coherent s.top.dcache (s.grantBeat 0) s.ram.word val ReqAddr.IsCached
  /-- A request that is driven once more has been applied. -/
  again : s.top.core.memory.drivesM1 = true →
    s.top.core.memory.dataM1.aluout.toNat < 2 ^ 33 ∧
      storeWord val (s.top.core.memory.dataM1.dreq true) = val

/-! ## The memory stage -/

section Stage

variable {c : Core} {i : CoreIn} {dataOk : Bool}

/-- What is driven once more has just left `em`. -/
theorem Core.Spaced.step_drivesM1 (h : c.Spaced dataOk) (hr : c.pipeReset i = false)
    (hd : (c.step i).memory.drivesM1 = true) :
    c.Leaves i ∧ c.em.instr.ctl.isMem = true ∧ (c.step i).memory.dataM1 = c.em.dataMtmp := by
  rw [Core.step_memory hr] at hd ⊢
  rw [Core.Leaves, stallDataOk_eq hr]
  cases hst : c.memory.state with
  | idle =>
    rw [Memory.step_idle hst] at hd ⊢
    rw [Memory.stallDataOk_idle hst]
    cases hm : c.em.instr.ctl.isMem with
    | false =>
      rw [hm] at hd
      cases hd
    | true =>
      rw [hm] at hd
      cases ha : i.dresp.addrOk with
      | false =>
        rw [ha] at hd
        cases hd
      | true => exact ⟨⟨hr, rfl⟩, rfl, rfl⟩
  | memory01 =>
    rw [Memory.step_memory01 hst, h.accepted hst] at hd
    cases hd
  | memory10 =>
    have hm := h.request hst
    rw [Memory.step_memory10 hst hm] at hd ⊢
    rw [Memory.stallDataOk_memory10 hst]
    cases ha : i.dresp.addrOk with
    | false =>
      rw [ha] at hd
      cases hd
    | true =>
      rw [ha] at hd
      rw [if_pos rfl] at hd ⊢
      cases hb : c.em.aluout.getLsbD 31 with
      | false =>
        rw [hb] at hd
        cases hc : c.dataE.instr.ctl.isMem with
        | false =>
          rw [hc] at hd
          cases hd
        | true =>
          rw [hc] at hd
          cases hd
      | true => exact ⟨⟨hr, rfl⟩, hm, rfl⟩
  | memory11 => exact absurd hst h.single

/-- A cached access that leaves `em` is driven once more. -/
theorem Core.Spaced.step_cached (h : c.Spaced dataOk) (hd : c.Decoded) (hl : c.Leaves i)
    (hm : c.em.instr.ctl.isMem = true) (hc : isCached c.em.aluout = true) :
    (c.step i).memory = ⟨.memory01, c.em.dataMtmp⟩ ∧ (c.step i).em = 0 := by
  obtain ⟨hr, hgo⟩ := hl
  obtain ⟨hfirst, _, hok⟩ := h.presents ⟨hr, hgo⟩ hm
  have hexe : c.dataE = 0 := dataE_bubble (h.de_bubble hd hm)
  constructor
  · rw [Core.step_memory hr]
    cases hst : c.memory.state with
    | idle => rw [Memory.step_idle hst, hm, hok]; rfl
    | memory01 => simp [Memory.drivesM1, hst] at hfirst
    | memory10 =>
      have hbit : c.em.aluout.getLsbD 31 = true := hc
      rw [Memory.step_memory10 hst hm, hok, hbit, hexe]
      rfl
    | memory11 => exact absurd hst h.single
  · rw [step_em hr, hgo, hexe]
    exact ite_self _

end Stage

/-! ## One cycle -/

section Data

variable {s : SimTop} {i : SimTopIn} {val : BitVec 61 → BitVec 64}

/-- The request of the data cache that hits is in range. -/
def SimTop.DataInRange (s : SimTop) (i : SimTopIn) : Prop :=
  Cache.fsmToHit s.top.dcache (s.top.core.dreq i.pins) = true →
    (s.top.core.dreq i.pins).addr.toNat < 2 ^ 33

/-- The request of an access that leaves `em` hits if it is a cached one. -/
theorem SimTop.request_of_leaves (hlines : Cache.LinesCached s.top.dcache)
    (hs : s.top.core.Spaced (s.top.coreIn (s.topIn i)).iresp.dataOk)
    (hl : s.top.core.Leaves (s.top.coreIn (s.topIn i)))
    (hm : s.top.core.em.instr.ctl.isMem = true) :
    s.top.core.dreq i.pins = s.top.core.em.dataMtmp.dreq true ∧
      Cache.fsmToHit s.top.dcache (s.top.core.dreq i.pins) = isCached s.top.core.em.aluout := by
  obtain ⟨_, hpins, hok⟩ := hs.presents hl hm
  have hdreq : s.top.core.dreq i.pins = s.top.core.em.dataMtmp.dreq true := hpins
  refine ⟨hdreq, ?_⟩
  have haddr : (s.top.core.dreq i.pins).addr = s.top.core.em.aluout := by
    rw [hdreq]
    rfl
  rw [← haddr]
  cases hc : isCached (s.top.core.dreq i.pins).addr with
  | true =>
    refine DCache.fsmToHit_of_accepted hc ?_ hok
    rw [hdreq]
    rfl
  | false =>
    by_contra hh
    have := (DCache.accepted_of_fsmToHit hlines (Bool.not_eq_false _ ▸ hh) 0).1
    exact Bool.false_ne_true (hc.symm.trans this)

theorem SimTop.DataOk.step_coherent (h : s.DataOk val) (hg : s.top.GrantOk s.ram.beat)
    (ha : s.top.Answered s.ram.beat (s.oresp i)) (hr : i.reset = false)
    (hclean : (s.top.icreq i.pins).isWrite = false) (hrange : s.DataInRange i) :
    Cache.Coherent (s.step i).top.dcache ((s.step i).grantBeat 0) (s.step i).ram.word
      (s.dataNxt i val) ReqAddr.IsCached := by
  rw [step_grantBeat_dcache hg ha hr]
  change Cache.Coherent (DCache.step _ i.reset _ _) _ _ _ _
  rw [hr]
  refine h.coherent.step (by omega) (by omega) (DCache.mayMiss _ _ _) DCache.fsmToMiss_cached
    (SimTop.drives_dcache.served h.coherent.refill h.coherent.lines (by omega))
    (fun a _ => step_ram_word hg hr hclean h.coherent.refill a) (fun a _ => ?_)
  rw [dataNxt]
  cases hh : Cache.fsmToHit s.top.dcache (s.top.core.dreq i.pins) with
  | true => exact (DCache.storedAt_of_hit hh (hrange hh) val a).symm
  | false =>
    rw [Cache.storedAt, if_neg Bool.false_ne_true, if_neg]
    exact fun hc => Bool.false_ne_true (hh.symm.trans hc.1)

/-- One cycle of the data path. -/
theorem SimTop.DataOk.step (h : s.DataOk val) (hg : s.top.GrantOk s.ram.beat)
    (ha : s.top.Answered s.ram.beat (s.oresp i)) (hr : i.reset = false)
    (hreset : s.top.core.pipeReset (s.top.coreIn (s.topIn i)) = false)
    (hclean : (s.top.icreq i.pins).isWrite = false) (hrange : s.DataInRange i)
    (hs : s.top.core.Spaced (s.top.coreIn (s.topIn i)).iresp.dataOk) :
    (s.step i).DataOk (s.dataNxt i val) where
  coherent := h.step_coherent hg ha hr hclean hrange
  again hd := by
    obtain ⟨hl, hm, hm1⟩ := hs.step_drivesM1 hreset hd
    obtain ⟨hdreq, hh⟩ := request_of_leaves hg.lines hs hl hm
    have hnext : (s.step i).top.core.memory.dataM1.dreq true = s.top.core.dreq i.pins := by
      rw [hdreq, ← hm1]
      rfl
    have hcached : isCached s.top.core.em.dataMtmp.aluout = true := by
      rw [← hm1]
      exact hg.step_driven hd
    have hhit : Cache.fsmToHit s.top.dcache (s.top.core.dreq i.pins) = true := hh.trans hcached
    rw [hnext, dataNxt, if_pos hhit, storeWord_idem]
    refine ⟨?_, rfl⟩
    have := hrange hhit
    rwa [← hnext] at this

/-- The word of an accepted request appears on `hit_rdata`. -/
theorem SimTop.DataOk.step_hitRdata (h : s.DataOk val) (hrange : s.DataInRange i)
    (hh : Cache.fsmToHit s.top.dcache (s.top.core.dreq i.pins) = true) :
    (s.step i).top.dcache.hitRdata = val (wordOf (s.top.core.dreq i.pins).addr) := by
  have hcached : (reqAddr 8 (s.top.core.dreq i.pins).addr).IsCached := by
    rw [ReqAddr.IsCached, isCached_reqAddr (by omega) (by omega)]
    exact (DCache.accepted_of_fsmToHit h.coherent.lines hh 0).1
  have hword : (reqAddr 8 (s.top.core.dreq i.pins).addr).word =
      wordOf (s.top.core.dreq i.pins).addr := word_reqAddr (by omega) (hrange hh)
  rw [← hword]
  exact h.coherent.step_hitRdata hh hcached i.reset

/-- Memory keeps the code as long as the values have it. -/
theorem SimTop.DataOk.step_hasCode (h : s.DataOk val) (hg : s.top.GrantOk s.ram.beat)
    (hr : i.reset = false) (hclean : (s.top.icreq i.pins).isWrite = false)
    {C : BitVec 64 → BitVec 32 → Prop}
    (hC : ∀ pc w, C pc w → isCached pc = true ∧ pc.toNat < 0x100000000 ∧
      halfAt (val (wordOf pc)) pc = w) (hram : s.ram.HasCode C) :
    (s.step i).ram.HasCode C := by
  intro pc w hpc
  obtain ⟨hc, hlt, hval⟩ := hC pc w hpc
  have hword : (reqAddr 8 pc).word = wordOf pc := word_reqAddr (by omega) (by omega)
  have hcached : (reqAddr 8 pc).IsCached := by
    rw [ReqAddr.IsCached, isCached_reqAddr (by omega) (by omega)]
    exact hc
  rw [← hword, step_ram_word hg hr hclean h.coherent.refill]
  rcases (h.coherent.words _ hcached).written h.coherent.refill (s.top.dcresp (s.oresp i)) with
    heq | heq
  · rw [heq, hword]
    exact hram pc w hpc
  · rw [heq, hword]
    exact hval

/-- After a reset all data is in memory. -/
theorem SimTop.dataOk_of_reset (s : SimTop) (hr : i.reset = true) :
    (s.step i).DataOk (s.step i).ram.word where
  coherent := by
    rw [s.step_grantBeat_reset hr]
    change Cache.Coherent (DCache.step _ i.reset _ _) _ _ _ _
    rw [hr]
    exact Cache.coherent_of_reset _ _ _ _ _ _
  again hd := by
    have hreset : s.top.core.pipeReset (s.top.coreIn (s.topIn i)) = true :=
      Core.pipeReset_of_reset hr
    have hmem : (s.step i).top.core.memory = ⟨.idle, 0⟩ :=
      (Core.step_pipeReset hreset).2.2.2.1
    rw [hmem] at hd
    cases hd

end Data

end RiscvCpu
