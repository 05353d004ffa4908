import RiscvCpu.Coherence.Words

/-!
# Lines in memory

The cache splits an address into tag, index and offset, memory numbers words of
eight bytes, and a burst wraps in a block of 128 bytes.  Here the three views of an
address are brought together, and the bursts of the miss registers are served by
the memory of `SimTop`.
-/

namespace RiscvCpu

section Addresses

variable {ib : Nat}

/-! ## Addresses as numbers -/

theorem ReqAddr.toNat_addr (h : ib ≤ 39) (a : ReqAddr ib) :
    a.addr.toNat = ((a.tag.toNat * 2 ^ ib + a.index.toNat) * 16 + a.offset.toNat) * 8 := by
  have ht := a.tag.isLt
  have hi := a.index.isLt
  have ho := a.offset.isLt
  have hp : 0 < 2 ^ ib := Nat.two_pow_pos ib
  have hle : 2 ^ ib ≤ 2 ^ 39 := Nat.pow_le_pow_right (by omega) h
  have hline : a.tag.toNat * 2 ^ ib + a.index.toNat < 2 ^ 18 * 2 ^ ib :=
    calc a.tag.toNat * 2 ^ ib + a.index.toNat
      _ < (a.tag.toNat + 1) * 2 ^ ib := by
        rw [Nat.succ_mul]
        omega
      _ ≤ 2 ^ 18 * 2 ^ ib := Nat.mul_le_mul_right _ ht
  rw [addr, BitVec.toNat_setWidth, BitVec.toNat_append, BitVec.toNat_append, BitVec.toNat_append,
    ← Nat.shiftLeft_add_eq_or_of_lt hi, ← Nat.shiftLeft_add_eq_or_of_lt ho,
    ← Nat.shiftLeft_add_eq_or_of_lt (by decide), Nat.shiftLeft_eq, Nat.shiftLeft_eq,
    Nat.shiftLeft_eq, Nat.mod_eq_of_lt]
  · rfl
  · simp only [BitVec.toNat_ofNat]
    omega

/-- The number of a word in memory. -/
def ReqAddr.word (a : ReqAddr ib) : BitVec 61 := wordOf a.addr

theorem toNat_wordOf (addr : BitVec 64) : (wordOf addr).toNat = addr.toNat / 8 := by
  have h := addr.isLt
  rw [wordOf, BitVec.extractLsb'_toNat, Nat.shiftRight_eq_div_pow]
  omega

theorem ReqAddr.toNat_word (h : ib ≤ 39) (a : ReqAddr ib) :
    a.word.toNat = (a.tag.toNat * 2 ^ ib + a.index.toNat) * 16 + a.offset.toNat := by
  rw [word, toNat_wordOf, toNat_addr h]
  omega

/-- Different words of a cache are different words of memory. -/
theorem ReqAddr.word_inj (h : ib ≤ 39) {a b : ReqAddr ib} (hw : a.word = b.word) : a = b := by
  have hn := congrArg BitVec.toNat hw
  rw [toNat_word h, toNat_word h] at hn
  have hai := a.index.isLt
  have hbi := b.index.isLt
  have hao := a.offset.isLt
  have hbo := b.offset.isLt
  have hoff : a.offset.toNat = b.offset.toNat := by omega
  have hline : a.tag.toNat * 2 ^ ib + a.index.toNat = b.tag.toNat * 2 ^ ib + b.index.toNat := by
    omega
  have hindex : a.index.toNat = b.index.toNat := by
    have := congrArg (· % 2 ^ ib) hline
    simpa [Nat.mod_eq_of_lt hai, Nat.mod_eq_of_lt hbi] using this
  have htag : a.tag.toNat = b.tag.toNat := by
    have hp : 0 < 2 ^ ib := Nat.two_pow_pos ib
    rw [hindex, Nat.add_right_cancel_iff] at hline
    exact Nat.eq_of_mul_eq_mul_right hp hline
  cases a with
  | mk t i o =>
    cases b with
    | mk t' i' o' =>
      simp only at hoff hindex htag
      rw [BitVec.eq_of_toNat_eq htag, BitVec.eq_of_toNat_eq hindex, BitVec.eq_of_toNat_eq hoff]

/-- An address in the range of the cache is the address of its word. -/
theorem word_reqAddr (h : ib ≤ 39) {addr : BitVec 64} (hr : addr.toNat < 2 ^ (25 + ib)) :
    (reqAddr ib addr).word = wordOf addr := by
  apply BitVec.eq_of_toNat_eq
  rw [ReqAddr.toNat_word h, toNat_wordOf]
  simp only [reqAddr, BitVec.extractLsb'_toNat, Nat.shiftRight_eq_div_pow]
  have hp : 0 < 2 ^ ib := Nat.two_pow_pos ib
  have h7 : 2 ^ (7 + ib) = 2 ^ ib * 128 := by
    rw [Nat.add_comm, Nat.pow_add]
  have hdiv : addr.toNat / 2 ^ (7 + ib) = addr.toNat / 128 / 2 ^ ib := by
    rw [h7, Nat.mul_comm, Nat.div_div_eq_div_mul]
  have hlt : addr.toNat / 2 ^ (7 + ib) < 2 ^ 18 := by
    rw [Nat.div_lt_iff_lt_mul (Nat.two_pow_pos _), ← Nat.pow_add]
    rwa [show 18 + (7 + ib) = 25 + ib by omega]
  rw [Nat.mod_eq_of_lt hlt, hdiv]
  have hsplit := Nat.div_add_mod (addr.toNat / 128) (2 ^ ib)
  rw [Nat.mul_comm] at hsplit
  have h2 : addr.toNat / 2 ^ 7 = addr.toNat / 128 := rfl
  rw [h2, hsplit]
  omega

/-! ## Cached lines -/

/-- Bit 31 of the address of a word. -/
def ReqAddr.IsCached (a : ReqAddr ib) : Prop := isCached a.addr = true

theorem ReqAddr.isCached_addr (h : ib ≤ 24) (a : ReqAddr ib) :
    isCached a.addr = a.tag.getLsbD (24 - ib) := by
  rw [RiscvCpu.isCached, addr, BitVec.getLsbD_setWidth, BitVec.getLsbD_append,
    BitVec.getLsbD_append, BitVec.getLsbD_append, if_neg (by omega), if_neg (by omega),
    if_neg (by omega)]
  simp only [Nat.reduceLT, decide_true, Bool.true_and]

theorem isCached_reqAddr (h7 : 7 ≤ ib) (h : ib ≤ 24) (addr : BitVec 64) :
    isCached (reqAddr ib addr).addr = isCached addr := by
  rw [ReqAddr.isCached_addr h, RiscvCpu.isCached, reqAddr, BitVec.getLsbD_extractLsb']
  have hlt : 24 - ib < 18 := by omega
  simp only [hlt, decide_true, Bool.true_and]
  congr 1
  omega

theorem ReqAddr.isCached_of_tag (h : ib ≤ 24) {a b : ReqAddr ib} (ht : a.tag = b.tag)
    (ha : a.IsCached) : b.IsCached := by
  rw [IsCached, isCached_addr h] at ha ⊢
  rwa [← ht]

end Addresses

section Lines

variable {ib : Nat} {s : Cache ib} {dreq : DbusReq} {cresp : CbusResp} {fsmToMiss : Bool} {k : ℕ}

/-- The cache deals in cached lines only. -/
structure Cache.LinesCached (s : Cache ib) : Prop where
  resident : ∀ w a, s.Resident w a → a.IsCached
  burst : s.missState ≠ .idle → s.creqAddr.IsCached
  evicted : ∀ a, s.Evicted a → a.IsCached

theorem Cache.linesCached_of_reset (s : Cache ib) (dreq : DbusReq) (cresp : CbusResp)
    (fsmToMiss : Bool) : (s.step dreq cresp fsmToMiss true).LinesCached where
  resident w a hw := by cases hw.1
  burst h := absurd rfl h
  evicted a hev := by rcases hev.2.2 with ⟨h, _⟩ | h <;> cases h

theorem Cache.LinesCached.step (h : s.LinesCached) (h7 : 7 ≤ ib) (h24 : ib ≤ 24)
    (hm : s.MayMiss dreq cresp fsmToMiss) (hc : fsmToMiss = true → isCached dreq.addr = true) :
    (s.step dreq cresp fsmToMiss false).LinesCached := by
  cases hf : fsmToMiss with
  | true =>
    subst hf
    have hreq : (reqAddr ib dreq.addr).IsCached := by
      rw [ReqAddr.IsCached, isCached_reqAddr h7 h24]
      exact hc rfl
    refine ⟨fun w a hw => ?_, fun _ => hreq,
      fun a hev => h.resident _ a (resident_of_evicted_start hev).1⟩
    rw [hm.step_resident] at hw
    split at hw
    · exact ReqAddr.isCached_of_tag h24 hw.symm hreq
    · exact h.resident w a hw
  | false =>
    refine ⟨fun w a hw => h.resident w a ((step_resident rfl w a).mp hw), fun hn => ?_,
      fun a hev => h.evicted a (evicted_of_step hev)⟩
    cases hs : s.missState with
    | idle => exact absurd (step_of_idle _ _ hs) hn
    | load =>
      have hn' := Cache.ne_idle_of_load hs
      obtain ⟨hst, hca, _⟩ := step_of_load dreq cresp hs
      rw [hst] at hn
      rw [hca]
      cases hl : cresp.last with
      | false => exact h.burst hn'
      | true =>
        rw [hl, if_pos rfl] at hn
        split at hn
        · -- the line to write back has been displaced
          rename_i hd
          simp only [Bool.and_eq_true] at hd
          have hev : s.Evicted ⟨s.wbTag, s.missAddr.index, 0⟩ := ⟨rfl, rfl, .inl ⟨hs, hd⟩⟩
          rw [if_pos rfl]
          refine ReqAddr.isCached_of_tag h24 ?_ (h.evicted _ hev)
          rfl
        · exact absurd rfl hn
    | writeback =>
      have hn' := Cache.ne_idle_of_writeback hs
      rw [(step_of_writeback _ _ hs).2.1]
      exact h.burst hn'

/-- An uncached address does not hit. -/
theorem Cache.LinesCached.isHit_uncached (h : s.LinesCached) (h7 : 7 ≤ ib) (h24 : ib ≤ 24)
    (hu : isCached dreq.addr = false) : s.isHit dreq = false := by
  by_contra hc
  obtain ⟨w, hw⟩ := isHit_iff.mp (Bool.not_eq_false _ ▸ hc)
  have := h.resident w _ hw
  rw [ReqAddr.IsCached, isCached_reqAddr h7 h24, hu] at this
  cases this

/-! ## Bursts of the miss registers -/

/-- A beat of the burst is about the burst word. -/
theorem Cache.RefillOk.wordOf_beatAddr (h : s.RefillOk k) (h39 : ib ≤ 39)
    (hn : s.missState ≠ .idle) : wordOf (s.creqNoSkip.beatAddr k) = s.burstWord.word := by
  apply BitVec.eq_of_toNat_eq
  rw [ReqAddr.toNat_word h39, toNat_wordOf]
  have haddr := ReqAddr.toNat_addr h39 s.creqAddr
  have hbound := s.creqAddr.addr.isLt
  have ho := s.creqAddr.offset.isLt
  have hoff : s.burstWord.offset.toNat = (s.creqAddr.offset.toNat + k) % 16 := by
    rw [burstWord, h.offset hn, BitVec.toNat_add, BitVec.toNat_ofNat]
    omega
  have hline : s.burstWord.tag.toNat * 2 ^ ib + s.burstWord.index.toNat =
      s.creqAddr.tag.toNat * 2 ^ ib + s.creqAddr.index.toNat := rfl
  rw [hoff, hline]
  generalize s.creqAddr.tag.toNat * 2 ^ ib + s.creqAddr.index.toNat = line at haddr
  have hbeat : s.creqNoSkip.beatAddr k = BitVec.ofNat 64 (s.creqAddr.addr.toNat / 128 * 128 +
      (s.creqAddr.addr.toNat - s.creqAddr.addr.toNat / 128 * 128 + k * 8) % 128) := rfl
  rw [hbeat, BitVec.toNat_ofNat]
  omega

/-- The bus answers the burst of the miss registers, `k` beats being done, from a
memory with the contents `mem`. -/
structure Cache.Served (s : Cache ib) (k : ℕ) (mem : BitVec 61 → BitVec 64)
    (cresp : CbusResp) : Prop where
  beats : s.Beats k cresp
  data : s.missState = .load → cresp.ready = true → cresp.data = mem s.burstWord.word

/-- A cache that is not granted sees no beat. -/
theorem Cache.served_zero (s : Cache ib) (k : ℕ) (mem : BitVec 61 → BitVec 64) :
    s.Served k mem 0 where
  beats _ := ⟨by simp, by simp⟩
  data _ h := by cases h

/-- The memory of `SimTop` serves the burst of the miss registers. -/
theorem Cache.RefillOk.served (hr : s.RefillOk k) (h : s.LinesCached) (h39 : ib ≤ 39) {m : Ram}
    (hk : m.beat = k) (i : RamIn) (hn : s.missState ≠ .idle) :
    s.Served k m.word (m.resp s.creqNoSkip i) where
  beats _ := by
    have hv : s.creqNoSkip.valid = true := by
      simpa [creqNoSkip] using hn
    cases hi : i.ready with
    | false => simp [Ram.resp, hi]
    | true =>
      simp only [Ram.resp, hv, hi, Bool.and_self, if_true, hk, true_and, beq_iff_eq]
      exact Iff.rfl
  data hs hready := by
    unfold Ram.resp at hready ⊢
    split at hready
    · rename_i hc
      have hcached : isCached s.creqNoSkip.addr = true := h.burst hn
      rw [if_pos hc, hcached, hk, if_pos rfl, hr.wordOf_beatAddr h39 hn]
    · cases hready

/-- What the memory of `SimTop` holds after a beat of the burst. -/
theorem Cache.RefillOk.wordNxt (hr : s.RefillOk k) (h : s.LinesCached) (h39 : ib ≤ 39) {m : Ram}
    (hk : m.beat = k) (hn : s.missState ≠ .idle) (a : ReqAddr ib) :
    m.wordNxt s.creqNoSkip cresp a.word = s.writtenAt cresp a (m.word a.word) := by
  have hcached : isCached s.creqNoSkip.addr = true := h.burst hn
  have hv : s.creqNoSkip.valid = true := by
    simpa [creqNoSkip] using hn
  have hword : wordOf (s.creqNoSkip.beatAddr m.beat) = s.burstWord.word := by
    rw [hk]
    exact hr.wordOf_beatAddr h39 hn
  simp only [Ram.wordNxt, hv, hcached, hword, Bool.true_and, Bool.and_true, writtenAt]
  by_cases hs : s.missState = .writeback
  · cases hready : cresp.ready with
    | false => simp
    | true =>
      have hw : s.creqNoSkip.isWrite = true := by
        simp [creqNoSkip, hs]
      have hstrobe : s.creqNoSkip.strobe = 0xff#8 := by
        simp [creqNoSkip, hs]
      by_cases ha : s.burstWord = a
      · subst ha
        simp only [hw, hs, hstrobe, mergeBytes_full, Bool.and_self, if_true, and_self,
          Function.update_self]
        rfl
      · have hne : a.word ≠ s.burstWord.word := fun heq => ha (ReqAddr.word_inj h39 heq).symm
        simp [hw, ha, Function.update_of_ne hne]
  · have hw : s.creqNoSkip.isWrite = false := by
      simpa [creqNoSkip] using hs
    simp [hw, hs]

/-! ## The two caches -/

theorem DCache.mayMiss (s : DCache) (dreq : DbusReq) (cresp : CbusResp) :
    Cache.MayMiss s dreq cresp (DCache.fsmToMiss s dreq cresp) := by
  intro h
  simp only [fsmToMiss, Bool.and_eq_true, Bool.not_eq_true'] at h
  exact ⟨h.1.1.1, h.2⟩

theorem DCache.fsmToMiss_cached {s : DCache} {dreq : DbusReq} {cresp : CbusResp}
    (h : DCache.fsmToMiss s dreq cresp = true) : isCached dreq.addr = true := by
  simp only [fsmToMiss, Bool.and_eq_true, Bool.not_eq_true', Bool.and_eq_false_iff,
    Bool.not_eq_false'] at h
  rcases h.1.1.2 with hc | hv
  · exact hc
  · rw [h.1.2] at hv
    cases hv

theorem ICache.mayMiss (s : ICache) (ireq : IbusReq) (cresp : CbusResp) :
    Cache.MayMiss s ireq.toDreq cresp (ICache.fsmToMiss s ireq cresp) := by
  intro h
  simp only [fsmToMiss, Bool.and_eq_true, Bool.not_eq_true'] at h
  exact ⟨h.1.1.1, h.2⟩

/-! ## Coherence -/

/-- The cache and the memory behind it together hold the values `val`, for the words
in `W`. -/
structure Cache.Coherent (s : Cache ib) (k : ℕ) (mem val : BitVec 61 → BitVec 64)
    (W : ReqAddr ib → Prop) : Prop where
  refill : s.RefillOk k
  lines : s.LinesCached
  words : ∀ a, W a → s.Holds k a (mem a.word) (val a.word)

theorem Cache.coherent_of_reset (s : Cache ib) (dreq : DbusReq) (cresp : CbusResp)
    (fsmToMiss : Bool) (mem : BitVec 61 → BitVec 64) (W : ReqAddr ib → Prop) :
    (s.step dreq cresp fsmToMiss true).Coherent 0 mem mem W where
  refill := refillOk_of_reset s dreq cresp fsmToMiss
  lines := linesCached_of_reset s dreq cresp fsmToMiss
  words a _ := holds_of_reset s dreq cresp fsmToMiss a _

/-- One cycle of a cache. -/
theorem Cache.Coherent.step {mem val mem' val' : BitVec 61 → BitVec 64} {W : ReqAddr ib → Prop}
    (h : s.Coherent k mem val W) (h7 : 7 ≤ ib) (h24 : ib ≤ 24)
    (hm : s.MayMiss dreq cresp fsmToMiss) (hc : fsmToMiss = true → isCached dreq.addr = true)
    (hserved : s.Served k mem cresp)
    (hmem : ∀ a, W a → mem' a.word = s.writtenAt cresp a (mem a.word))
    (hval : ∀ a, W a → val' a.word = s.storedAt dreq a (val a.word)) :
    (s.step dreq cresp fsmToMiss false).Coherent (s.beatNxt k cresp) mem' val' W where
  refill := h.refill.step hm hserved.beats
  lines := h.lines.step h7 h24 hm hc
  words a ha := by
    rw [hmem a ha, hval a ha]
    refine (h.words a ha).step h.refill hm hserved.beats fun hs hready hword => ?_
    rw [hserved.data hs hready, hword]

/-- What a hit reads appears on `hit_rdata`. -/
theorem Cache.Coherent.step_hitRdata {mem val : BitVec 61 → BitVec 64} {W : ReqAddr ib → Prop}
    (h : s.Coherent k mem val W) (hh : s.fsmToHit dreq = true)
    (hw : W (reqAddr ib dreq.addr)) (reset : Bool) :
    (s.step dreq cresp fsmToMiss reset).hitRdata = val (reqAddr ib dreq.addr).word :=
  (h.words _ hw).hit h.refill hh

end Lines

end RiscvCpu
