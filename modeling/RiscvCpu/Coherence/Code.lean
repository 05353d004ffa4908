import RiscvCpu.Coherence.Fetch
import RiscvCpu.Coherence.Reachable

/-!
# The code in a memory that is written

A program writes its data through the data cache, and a line of the instruction cache may
hold data next to code, and old data at that.  What matters is that every 32-bit word of the
code is the same in memory and in each line that has been read, for the words that are
executed.  `C` says which words these are.
-/

namespace RiscvCpu

/-! ## Words that are held -/

section Keeps

variable {ib : Nat} {s : Cache ib} {dreq : DbusReq} {cresp : CbusResp} {fsmToMiss : Bool} {k : ℕ}
  {P : ReqAddr ib → BitVec 64 → Prop}

/-- Every word that has arrived in the cache is as `P` has it. -/
def Cache.Keeps (s : Cache ib) (P : ReqAddr ib → BitVec 64 → Prop) : Prop :=
  ∀ w a, s.Resident w a → ¬s.Awaits w a → P a (s.dataRam (a.slot w))

theorem Cache.keeps_of_reset (s : Cache ib) (dreq : DbusReq) (cresp : CbusResp)
    (fsmToMiss : Bool) (P : ReqAddr ib → BitVec 64 → Prop) :
    (s.step dreq cresp fsmToMiss true).Keeps P := fun _ _ hw => by cases hw.1

/-- A miss drops words, and the words it asks for have not arrived. -/
theorem Cache.Keeps.start (h : s.Keeps P) (hm : s.MayMiss dreq cresp true) :
    (s.step dreq cresp true false).Keeps P := by
  intro w a hw harr
  rw [hm.step_dataRam]
  rw [hm.step_resident] at hw
  split at hw
  · rename_i hnew
    exact absurd ⟨rfl, hnew.2.symm, hnew.1.symm, rfl⟩ harr
  · exact h w a hw fun hc => hm.not_load hc.1

/-- A cycle of reads adds the word of a beat. -/
theorem Cache.Keeps.follow (h : s.Keeps P) (hr : s.RefillOk k) (hb : s.Beats k cresp)
    (hread : dreq.strobe = 0)
    (hbeat : s.missState = .load → cresp.ready = true → P s.burstWord cresp.data) :
    (s.step dreq cresp false false).Keeps P := by
  intro w a hw harr
  rw [step_resident rfl] at hw
  rw [step_dataRam]
  by_cases haw : s.Awaits w a
  · obtain ⟨hs, hidx, hindex, hload⟩ := haw
    -- it has arrived, so it came with the beat of this cycle
    have hnow : cresp.ready = true ∧ a.offset = s.missAddr.offset := by
      by_contra hnow
      obtain ⟨hst, hidx', hindex', hload'⟩ := hr.beat_elsewhere hb hs hload hnow dreq
      exact harr ⟨hst, hidx'.trans hidx, hindex'.trans hindex, hload'⟩
    have hslot : a.slot w = s.missAddr := by
      rw [ReqAddr.slot, ← hidx, ← hindex, hnow.2]
    have hword : s.burstWord = a := by
      have htag : s.creqAddr.tag = a.tag := by
        rw [← (hr.line hs).2, hindex, hidx, hw.2]
      rw [burstWord, htag, ← hr.index (Cache.ne_idle_of_load hs), hindex, ← hnow.2]
    rw [if_pos ⟨hs, hnow.1, hslot⟩, ← hword]
    exact hbeat hs hnow.1
  · rw [hread, mergeBytes_none, ite_self, if_neg]
    · exact h w a hw haw
    · rintro ⟨hs, _, hslot⟩
      have hoff : a.offset = s.missAddr.offset := congrArg CacheAddr.offset hslot
      refine haw
        ⟨hs, (congrArg CacheAddr.idx hslot).symm, (congrArg CacheAddr.index hslot).symm, ?_⟩
      rw [hoff]
      exact hr.next_not_loaded hs

theorem Cache.Keeps.step (h : s.Keeps P) (hr : s.RefillOk k)
    (hm : s.MayMiss dreq cresp fsmToMiss) (hb : s.Beats k cresp) (hread : dreq.strobe = 0)
    (hbeat : s.missState = .load → cresp.ready = true → P s.burstWord cresp.data) :
    (s.step dreq cresp fsmToMiss false).Keeps P := by
  cases fsmToMiss with
  | true => exact h.start hm
  | false => exact h.follow hr hb hread hbeat

/-- A hit reads a word that has arrived. -/
theorem Cache.Keeps.hit (h : s.Keeps P) (hr : s.RefillOk k) (hh : s.fsmToHit dreq = true) :
    P (reqAddr ib dreq.addr) (s.dataRam (s.cacheAddr dreq)) :=
  h _ _ (hr.directory.hit hh).1 (hr.hit_arrived hh)

end Keeps

/-! ## Code -/

/-- The 64-bit word `v` at place `a` has the code in its halves. -/
def HasCode (C : BitVec 64 → BitVec 32 → Prop) (a : ReqAddr 7) (v : BitVec 64) : Prop :=
  ∀ pc w, C pc w → reqAddr 7 pc = a → halfAt v pc = w

/-- Memory holds the code. -/
def Ram.HasCode (m : Ram) (C : BitVec 64 → BitVec 32 → Prop) : Prop :=
  ∀ pc w, C pc w → halfAt (m.word (wordOf pc)) pc = w

/-- The fetch path holds words of the code where it holds words that are executed. -/
structure SimTop.CodeOk (s : SimTop) (C : BitVec 64 → BitVec 32 → Prop) : Prop where
  refill : Cache.RefillOk s.top.icache (s.grantBeat 1)
  lines : Cache.LinesCached s.top.icache
  clean : ICache.Clean s.top.icache
  words : Cache.Keeps s.top.icache (HasCode C)
  /-- The word a hit has read is asked for. -/
  arrived : s.top.icache.drespDataOk = true →
    s.top.core.fetch.icacheReqO = true ∧
      ∀ w, C s.top.core.fetch.pc w → halfAt s.top.icache.hitRdata s.top.core.fetch.pc = w
  /-- A word that is not asked for has been latched. -/
  latched : s.top.core.fetch.icacheReqO = false →
    ∀ w, C s.top.core.fetch.pc w → s.top.core.fetch.rawInstr = w

section Code

variable {s : SimTop} {i : SimTopIn} {C : BitVec 64 → BitVec 32 → Prop}

/-- A live answer is the word of the code. -/
theorem SimTop.CodeOk.iresp (h : s.CodeOk C)
    (hrange : ∀ pc w, C pc w → isCached pc = true) {w : BitVec 32}
    (hC : C s.top.core.fetch.pc w) (hok : (s.top.iresp (s.topIn i)).dataOk = true) :
    (s.top.iresp (s.topIn i)).data = w := by
  have hc : (s.top.core.ireq i.pins).IsCached := fun _ => hrange _ _ hC
  change (ICache.iresp s.top.icache (s.top.core.ireq i.pins) _).data = _
  rw [ICache.iresp_data hc]
  exact (h.arrived (ICache.iresp_dataOk hc hok)).2 w hC

/-- Whenever fetch has a word for decode, it is the word of the code. -/
theorem SimTop.CodeOk.dataFRawInstr (h : s.CodeOk C)
    (hrange : ∀ pc w, C pc w → isCached pc = true)
    (hf : s.top.core.csrFlush i.pins = false)
    (hok : s.top.core.iDataOk (s.top.coreIn (s.topIn i)) = true) {w : BitVec 32}
    (hC : C s.top.core.fetch.pc w) :
    s.top.core.fetch.dataFRawInstr (s.top.iresp (s.topIn i)) = w := by
  cases hd : (s.top.iresp (s.topIn i)).dataOk with
  | true =>
    rw [Fetch.dataFRawInstr, if_pos hd]
    exact h.iresp hrange hC hd
  | false =>
    rw [Fetch.dataFRawInstr, hd, if_neg Bool.false_ne_true]
    exact h.latched (Core.not_asked hf hok hd) w hC

/-- The cache keeps the code. -/
theorem SimTop.CodeOk.step_words (h : s.CodeOk C) (hram : s.ram.HasCode C)
    (hrange : ∀ pc w, C pc w → isCached pc = true ∧ pc.toNat < 0x100000000)
    (hr : i.reset = false) :
    Cache.Keeps (s.step i).top.icache (HasCode C) := by
  have hserved := SimTop.drives_icache (i := i).served h.refill h.lines (by omega)
  change Cache.Keeps (ICache.step s.top.icache i.reset _ _) _
  rw [hr]
  refine h.words.step h.refill (ICache.mayMiss _ _ _) hserved.beats rfl fun hs hready => ?_
  intro pc w hC ha
  have hword := hserved.data hs hready
  rw [← ha, word_reqAddr (by omega) (hrange pc w hC).2] at hword
  have hdata : (s.top.icresp (s.topIn i).oresp).data = s.ram.word (wordOf pc) := hword
  rw [hdata]
  exact hram pc w hC

/-- A fetch that hits waits for its word. -/
theorem SimTop.CodeOk.step_arrived (h : s.CodeOk C) (hr : i.reset = false)
    (hd : (s.step i).top.icache.drespDataOk = true) :
    (s.step i).top.core.fetch.icacheReqO = true ∧
      ∀ w, C (s.step i).top.core.fetch.pc w →
        halfAt (s.step i).top.icache.hitRdata (s.step i).top.core.fetch.pc = w := by
  obtain ⟨hhit, hreq, hpc⟩ := step_waits hr hd
  rw [hpc]
  exact ⟨hreq, fun w hC => h.words.hit h.refill hhit _ w hC rfl⟩

/-- A word that decode does not take is latched, and the pc stays. -/
theorem SimTop.CodeOk.step_latched (h : s.CodeOk C)
    (hrange : ∀ pc w, C pc w → isCached pc = true) (hr : i.reset = false)
    (hreq : (s.step i).top.core.fetch.icacheReqO = false) (w : BitVec 32)
    (hC : C (s.step i).top.core.fetch.pc w) : (s.step i).top.core.fetch.rawInstr = w := by
  obtain ⟨hf, hok, hpc, hraw⟩ := step_latches hr hreq
  rw [hpc] at hC
  rw [hraw]
  exact h.dataFRawInstr hrange hf hok hC

/-- One cycle of the fetch path. -/
theorem SimTop.CodeOk.step (h : s.CodeOk C) (hg : s.top.GrantOk s.ram.beat)
    (ha : s.top.Answered s.ram.beat (s.oresp i)) (hram : s.ram.HasCode C)
    (hrange : ∀ pc w, C pc w → isCached pc = true ∧ pc.toNat < 0x100000000)
    (hr : i.reset = false) : (s.step i).CodeOk C where
  refill := by
    rw [step_grantBeat_icache hg ha hr]
    change Cache.RefillOk (ICache.step _ i.reset _ _) _
    rw [hr]
    exact h.refill.step (ICache.mayMiss _ _ _)
      (SimTop.drives_icache.served h.refill h.lines (by omega)).beats
  lines := by
    change Cache.LinesCached (ICache.step _ i.reset _ _)
    rw [hr]
    exact h.lines.step (by omega) (by omega) (ICache.mayMiss _ _ _)
      fun hm => h.clean.fsmToMiss_cached hm
  clean := by
    change ICache.Clean (ICache.step _ i.reset _ _)
    rw [hr]
    exact h.clean.step
  words := h.step_words hram hrange hr
  arrived := h.step_arrived hr
  latched := h.step_latched (fun pc w hC => (hrange pc w hC).1) hr

/-- After a reset nothing has arrived, and the first word is asked for. -/
theorem SimTop.codeOk_of_reset (s : SimTop) (hr : i.reset = true) : (s.step i).CodeOk C := by
  obtain ⟨hk, hasked, hcache⟩ := s.step_fetch_reset hr
  refine ⟨?_, ?_, ?_, ?_, fun hd => ?_, fun hreq => ?_⟩
  · rw [hk, hcache]
    exact Cache.refillOk_of_reset _ _ _ _
  · rw [hcache]
    exact Cache.linesCached_of_reset _ _ _ _
  · rw [hcache]
    exact ICache.clean_of_reset _ _ _
  · rw [hcache]
    exact Cache.keeps_of_reset _ _ _ _ _
  · rw [hcache] at hd
    cases hd
  · exact absurd (hasked.symm.trans hreq) (by simp)

end Code

end RiscvCpu
