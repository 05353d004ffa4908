import RiscvCpu.Coherence.Directory
import RiscvCpu.SimTop
import RiscvCpu.Sync.Wrap

/-!
# Refills and write-backs

The miss registers of a cache follow a burst of sixteen beats, first the refill of
a line and then the write-back of the line it displaced.  `RefillOk` relates them
to the number of beats that are done.

Nothing is assumed about the requests.  A miss may start only when the request
does not hit and the miss registers are free (`MayMiss`), and the bus counts beats
(`Beats`).
-/

namespace RiscvCpu

section Refill

variable {ib : Nat} {s : Cache ib} {dreq : DbusReq} {cresp : CbusResp} {fsmToMiss : Bool} {k : ℕ}

/-! ## Words on the move -/

/-- Word `a` of way `w` belongs to the line being refilled and has not arrived. -/
def Cache.Awaits (s : Cache ib) (w : BitVec 3) (a : ReqAddr ib) : Prop :=
  s.missState = .load ∧ s.missAddr.idx = w ∧ s.missAddr.index = a.index ∧
    s.missDataLoaded a.offset = false

/-- Word `a` belongs to a displaced line that memory has not got back yet. -/
def Cache.Evicted (s : Cache ib) (a : ReqAddr ib) : Prop :=
  a.tag = s.wbTag ∧ a.index = s.missAddr.index ∧
    (s.missState = .load ∧ s.wbMeta.valid = true ∧ s.wbMeta.dirty = true ∨
      s.missState = .writeback)

/-! ## Assumptions on a cycle -/

/-- A miss starts only when the request does not hit and no burst is under way. -/
def Cache.MayMiss (s : Cache ib) (dreq : DbusReq) (cresp : CbusResp) (fsmToMiss : Bool) : Prop :=
  fsmToMiss = true → s.isHit dreq = false ∧ s.missReady cresp = true

/-- The bus marks the sixteenth beat of the burst as the last one. -/
def Cache.Beats (s : Cache ib) (k : ℕ) (cresp : CbusResp) : Prop :=
  s.missState ≠ .idle → (cresp.last = true ↔ cresp.ready = true ∧ k = 15)

/-- The beats of the burst that are done after a cycle. -/
def Cache.beatNxt (s : Cache ib) (k : ℕ) (cresp : CbusResp) : ℕ :=
  if s.missState = .idle then 0 else nextBeat k cresp

/-- The miss registers after `k` beats. -/
structure Cache.RefillOk (s : Cache ib) (k : ℕ) : Prop where
  directory : s.DirectoryOk
  idle : s.missState = .idle → k = 0
  beat : k < 16
  /-- The next word is `k` words ahead of the one that missed. -/
  offset : s.missState ≠ .idle → s.missAddr.offset = s.creqAddr.offset + BitVec.ofNat 4 k
  index : s.missState ≠ .idle → s.missAddr.index = s.creqAddr.index
  /-- The directory holds the line being refilled. -/
  line : s.missState = .load →
    (s.metadata s.missAddr.index s.missAddr.idx).valid = true ∧
      s.tagRam s.missAddr.index s.missAddr.idx = s.creqAddr.tag
  loaded : s.missState = .load →
    ∀ o, s.missDataLoaded o = true ↔ Sync.ahead s.creqAddr.offset o < k
  /-- A displaced line is not resident before it is written back. -/
  evicted : ∀ a, s.Evicted a → ∀ w, ¬s.Resident w a
  wbTag : s.missState = .writeback → s.creqAddr.tag = s.wbTag
  /-- The last word of the line enters the buffer before the first beat of the
  write-back is done. -/
  wbWen : s.missState = .writeback → s.wbWen = true →
    k = 0 ∧ Sync.ahead s.creqAddr.offset s.wbOffset = 15

/-! ## The registers after an edge -/

theorem Cache.MayMiss.not_hit (h : s.MayMiss dreq cresp fsmToMiss) (hm : fsmToMiss = true) :
    s.fsmToHit dreq = false := by
  rw [fsmToHit, (h hm).1]
  rfl

/-- A miss does not start while a line is refilled, nor before the last beat of a
write-back. -/
theorem Cache.MayMiss.ready (h : s.MayMiss dreq cresp fsmToMiss) (hm : fsmToMiss = true) :
    s.missState = .idle ∨ s.missState = .writeback ∧ cresp.last = true := by
  have hr := (h hm).2
  simpa only [missReady, Bool.or_eq_true, Bool.and_eq_true, beq_iff_eq] using hr

/-- An idle cache keeps its miss registers. -/
theorem Cache.step_of_idle (dreq : DbusReq) (cresp : CbusResp) (h : s.missState = .idle) :
    (s.step dreq cresp false false).missState = .idle := by
  change (s.missFsm cresp).missState = _
  rw [missFsm, h]
  exact h

/-- A cycle of a refill. -/
theorem Cache.step_of_load (dreq : DbusReq) (cresp : CbusResp) (h : s.missState = .load) :
    (s.step dreq cresp false false).missState =
      (if cresp.last then if s.wbMeta.valid && s.wbMeta.dirty then .writeback else .idle
        else .load) ∧
    (s.step dreq cresp false false).creqAddr =
      (if cresp.last then ⟨s.wbTag, s.creqAddr.index, s.creqAddr.offset⟩ else s.creqAddr) ∧
    (s.step dreq cresp false false).missAddr =
      (if cresp.ready then s.missAddr.next else s.missAddr) ∧
    (s.step dreq cresp false false).missDataLoaded =
      (if cresp.ready then Function.update s.missDataLoaded s.missAddr.offset true
        else s.missDataLoaded) ∧
    (s.step dreq cresp false false).wbMeta = s.wbMeta ∧
    (s.step dreq cresp false false).wbTag = s.wbTag ∧
    (s.step dreq cresp false false).wbWen = cresp.ready ∧
    (s.step dreq cresp false false).wbOffset = s.missAddr.offset := by
  simp [step, missFsm, h]

/-- A cycle of a write-back. -/
theorem Cache.step_of_writeback (dreq : DbusReq) (cresp : CbusResp)
    (h : s.missState = .writeback) :
    (s.step dreq cresp false false).missState =
      (if cresp.last then .idle else .writeback) ∧
    (s.step dreq cresp false false).creqAddr = s.creqAddr ∧
    (s.step dreq cresp false false).missAddr =
      (if cresp.ready then s.missAddr.next else s.missAddr) ∧
    (s.step dreq cresp false false).wbTag = s.wbTag ∧
    (s.step dreq cresp false false).wbWen = false := by
  simp [step, missFsm, h]

theorem Cache.step_writebuffer :
    (s.step dreq cresp fsmToMiss false).writebuffer =
      if s.wbWen then Function.update s.writebuffer s.wbOffset s.missRdata
      else s.writebuffer := by
  cases fsmToMiss with
  | true => rfl
  | false => rfl

/-! ## The directory after an edge -/

theorem Cache.step_valid (h : fsmToMiss = false) (i : BitVec ib) (w : BitVec 3) :
    ((s.step dreq cresp fsmToMiss false).metadata i w).valid = (s.metadata i w).valid := by
  subst h
  simp only [step, metadataNxt, Bool.false_eq_true, if_false]
  split
  · split
    · by_cases hi : i = (reqAddr ib dreq.addr).index
      · subst hi
        by_cases hw : w = s.idx dreq
        · subst hw
          simp
        · simp [Function.update_of_ne hw]
      · simp [Function.update_of_ne hi]
    · rfl
  · rfl

theorem Cache.step_tagRam : (s.step dreq cresp false false).tagRam = s.tagRam := by
  simp [step, tagRamNxt]

/-- Without a miss the directory holds the same lines. -/
theorem Cache.step_resident (h : fsmToMiss = false) (w : BitVec 3) (a : ReqAddr ib) :
    (s.step dreq cresp fsmToMiss false).Resident w a ↔ s.Resident w a := by
  subst h
  rw [Resident, Resident, step_valid rfl, step_tagRam]

/-- A miss puts the line of the request in the place of its victim. -/
theorem Cache.MayMiss.step_resident (h : s.MayMiss dreq cresp true) (w : BitVec 3)
    (a : ReqAddr ib) :
    (s.step dreq cresp true false).Resident w a ↔
      if a.index = (reqAddr ib dreq.addr).index ∧ w = s.missIdx dreq
      then a.tag = (reqAddr ib dreq.addr).tag
      else s.Resident w a := by
  have hh := h.not_hit rfl
  simp only [Resident, step, metadataNxt, tagRamNxt, hh, Bool.false_eq_true, if_false, if_true,
    Bool.not_false, Bool.and_self]
  by_cases hi : a.index = (reqAddr ib dreq.addr).index
  · by_cases hw : w = s.missIdx dreq
    · subst hw
      simp [hi, eq_comm]
    · simp [hi, hw]
  · simp [hi]

/-- What hits still does after an edge without a miss. -/
theorem Cache.step_isHit (dreq' : DbusReq) :
    (s.step dreq cresp false false).isHit dreq' = s.isHit dreq' := by
  rw [Bool.eq_iff_iff, isHit_iff, isHit_iff]
  exact exists_congr fun w => step_resident rfl w _

/-- The request of a miss hits from the next cycle on. -/
theorem Cache.MayMiss.step_isHit (h : s.MayMiss dreq cresp true) :
    (s.step dreq cresp true false).isHit dreq = true := by
  rw [isHit_iff]
  refine ⟨s.missIdx dreq, (h.step_resident _ _).mpr ?_⟩
  rw [if_pos ⟨rfl, rfl⟩]

/-! ## The invariant -/

theorem Cache.refillOk_of_reset (s : Cache ib) (dreq : DbusReq) (cresp : CbusResp)
    (fsmToMiss : Bool) : (s.step dreq cresp fsmToMiss true).RefillOk 0 where
  directory := by
    intro w w' a hw
    cases hw.1
  idle _ := rfl
  beat := by omega
  offset h := absurd rfl h
  index h := absurd rfl h
  line h := by cases h
  loaded h := by cases h
  evicted := by
    intro a _ w hw
    cases hw.1
  wbTag h := by cases h
  wbWen h := by cases h

/-- A miss adds a line that is not resident. -/
theorem Cache.DirectoryOk.start (h : s.DirectoryOk) (hm : s.MayMiss dreq cresp true) :
    (s.step dreq cresp true false).DirectoryOk := by
  have habsent := not_resident_of_miss (hm rfl).1
  intro w w' a hw hw'
  rw [hm.step_resident] at hw hw'
  split at hw <;> split at hw'
  · rename_i h1 h2
    exact h1.2.trans h2.2.symm
  · rename_i h1 _
    -- the way of the victim would hold a line that is resident elsewhere
    have ha : a.index = (reqAddr ib dreq.addr).index := h1.1
    have hr : s.Resident w' (reqAddr ib dreq.addr) := by
      rw [Resident, ha, hw] at hw'
      exact hw'
    exact absurd hr (habsent w')
  · rename_i _ h2
    have ha : a.index = (reqAddr ib dreq.addr).index := h2.1
    have hr : s.Resident w (reqAddr ib dreq.addr) := by
      rw [Resident, ha, hw'] at hw
      exact hw
    exact absurd hr (habsent w)
  · exact h w w' a hw hw'

/-- A miss starts a burst, whatever the miss registers held before. -/
theorem Cache.DirectoryOk.refillOk_start (h : s.DirectoryOk) (hm : s.MayMiss dreq cresp true) :
    (s.step dreq cresp true false).RefillOk 0 := by
  have habsent := not_resident_of_miss (hm rfl).1
  have hst : (s.step dreq cresp true false).missState = .load := rfl
  refine ⟨h.start hm, fun _ => rfl, by omega, fun _ => ?_, fun _ => rfl, fun _ => ?_, fun _ o => ?_,
    ?_, fun hw => absurd (hst.symm.trans hw) (by simp),
    fun hw => absurd (hst.symm.trans hw) (by simp)⟩
  · exact (BitVec.add_zero _).symm
  · have hr := (hm.step_resident (s.missIdx dreq) (reqAddr ib dreq.addr)).mpr
    rw [if_pos ⟨rfl, rfl⟩] at hr
    exact hr rfl
  · exact ⟨fun ho => absurd ho Bool.false_ne_true, fun hlt => absurd hlt (Nat.not_lt_zero _)⟩
  · -- the victim was resident in the way that is given away, and nowhere else
    intro a hev w hw
    obtain ⟨htag, hindex, hstate⟩ := hev
    have hvalid : (s.metadata (reqAddr ib dreq.addr).index (s.missIdx dreq)).valid = true := by
      rcases hstate with hl | hwb
      · exact hl.2.1
      · cases hwb
    have hindex' : a.index = (reqAddr ib dreq.addr).index := hindex
    have hold : s.Resident (s.missIdx dreq) a := by
      rw [Resident, hindex']
      exact ⟨hvalid, htag.symm⟩
    rw [hm.step_resident] at hw
    split at hw
    · have hr : s.Resident (s.missIdx dreq) (reqAddr ib dreq.addr) := by
        rw [Resident, hindex', hw] at hold
        exact hold
      exact habsent _ hr
    · rename_i hne
      exact hne ⟨hindex', h _ _ _ hw hold⟩

/-- A cycle of a burst brings no beat, a beat or the last beat. -/
theorem Cache.Beats.cases (h : s.Beats k cresp) (hn : s.missState ≠ .idle) (hk : k < 16) :
    (cresp.ready = false ∧ cresp.last = false ∧ s.beatNxt k cresp = k) ∨
    (cresp.ready = true ∧ cresp.last = false ∧ k < 15 ∧ s.beatNxt k cresp = k + 1) ∨
    (cresp.ready = true ∧ cresp.last = true ∧ k = 15 ∧ s.beatNxt k cresp = 0) := by
  have hl := h hn
  simp only [beatNxt, if_neg hn, nextBeat]
  cases hr : cresp.ready with
  | false =>
    have hlast : cresp.last = false := by
      by_contra hc
      have := (hl.mp (Bool.not_eq_false _ ▸ hc)).1
      rw [hr] at this
      cases this
    exact .inl ⟨rfl, hlast, rfl⟩
  | true =>
    cases hla : cresp.last with
    | true => exact .inr (.inr ⟨rfl, rfl, (hl.mp hla).2, rfl⟩)
    | false =>
      have hne : k ≠ 15 := by
        intro h15
        rw [hl.mpr ⟨hr, h15⟩] at hla
        cases hla
      exact .inr (.inl ⟨rfl, rfl, by omega, rfl⟩)

/-- A line that is displaced after the edge was displaced before it. -/
theorem Cache.evicted_of_step {a : ReqAddr ib}
    (hev : (s.step dreq cresp false false).Evicted a) : s.Evicted a := by
  obtain ⟨htag, hindex, hstate⟩ := hev
  cases hs : s.missState with
  | idle =>
    rw [step_of_idle _ _ hs] at hstate
    rcases hstate with ⟨h, _⟩ | h <;> cases h
  | load =>
    obtain ⟨hst, _, hma, _, hwm, hwt, _, _⟩ := step_of_load dreq cresp hs
    rw [hst, hwm] at hstate
    rw [hwt] at htag
    rw [hma] at hindex
    refine ⟨htag, ?_, .inl ⟨hs, ?_⟩⟩
    · cases hr : cresp.ready <;> rw [hr] at hindex <;> exact hindex
    · rcases hstate with ⟨_, hv⟩ | hw
      · exact hv
      · split at hw
        · split at hw
          · rename_i hv
            simpa using hv
          · cases hw
        · cases hw
  | writeback =>
    obtain ⟨hst, _, hma, hwt, _⟩ := step_of_writeback dreq cresp hs
    rw [hwt] at htag
    rw [hma] at hindex
    refine ⟨htag, ?_, .inr hs⟩
    cases hr : cresp.ready <;> rw [hr] at hindex <;> exact hindex

/-- The address of the burst counts its beats, over the last one too. -/
theorem Cache.RefillOk.missAddr_beat (h : s.RefillOk k) (hb : s.Beats k cresp)
    (hn : s.missState ≠ .idle) {m : CacheAddr ib}
    (hm : m = if cresp.ready then s.missAddr.next else s.missAddr) :
    m.offset = s.creqAddr.offset + BitVec.ofNat 4 (s.beatNxt k cresp) ∧
      m.index = s.creqAddr.index := by
  have hoff := h.offset hn
  have hind := h.index hn
  rcases hb.cases hn h.beat with ⟨hr, _, hk⟩ | ⟨hr, _, _, hk⟩ | ⟨hr, _, hk15, hk⟩
  · rw [hm, hr, hk]
    exact ⟨hoff, hind⟩
  · rw [hm, hr, hk, if_pos rfl]
    refine ⟨?_, hind⟩
    simp only [CacheAddr.next]
    rw [hoff, Sync.add_ofNat_succ]
  · rw [hm, hr, hk, if_pos rfl]
    refine ⟨?_, hind⟩
    simp only [CacheAddr.next]
    rw [hoff, hk15, Sync.add_ofNat_last s.creqAddr.offset (by decide)]
    exact (BitVec.add_zero _).symm

theorem Cache.Beats.beatNxt_lt (hb : s.Beats k cresp) (hn : s.missState ≠ .idle) (hk : k < 16) :
    s.beatNxt k cresp < 16 := by
  rcases hb.cases hn hk with ⟨_, _, h⟩ | ⟨_, _, _, h⟩ | ⟨_, _, _, h⟩ <;> omega

theorem Cache.DirectoryOk.follow (h : s.DirectoryOk) :
    (s.step dreq cresp false false).DirectoryOk := by
  intro w w' a hw hw'
  exact h w w' a ((step_resident rfl w a).mp hw) ((step_resident rfl w' a).mp hw')

theorem Cache.RefillOk.evicted_follow (h : s.RefillOk k) (a : ReqAddr ib)
    (ha : (s.step dreq cresp false false).Evicted a) (w : BitVec 3) :
    ¬(s.step dreq cresp false false).Resident w a := by
  intro hw
  exact h.evicted a (evicted_of_step ha) w ((step_resident rfl w a).mp hw)

theorem Cache.RefillOk.follow_load (h : s.RefillOk k) (hb : s.Beats k cresp)
    (hs : s.missState = .load) :
    (s.step dreq cresp false false).RefillOk (s.beatNxt k cresp) := by
  have hn := Cache.ne_idle_of_load hs
  obtain ⟨hst, hca, hma, hld, _, hwt, _, hwo⟩ := step_of_load dreq cresp hs
  obtain ⟨hoff', hind'⟩ := h.missAddr_beat hb hn hma
  have hoff := h.offset hn
  cases hl : cresp.last with
  | false =>
    rw [hl, if_neg Bool.false_ne_true] at hst hca
    rw [← hca] at hoff' hind'
    refine ⟨h.directory.follow, fun hi => absurd (hst.symm.trans hi) (by simp),
      hb.beatNxt_lt hn h.beat, fun _ => hoff', fun _ => hind', ?_, ?_, h.evicted_follow,
      fun hw => absurd (hst.symm.trans hw) (by simp),
      fun hw => absurd (hst.symm.trans hw) (by simp)⟩
    · -- the line of the burst stays where it is
      intro _
      rw [hind', hca, ← h.index hn, hma, step_valid rfl, step_tagRam]
      cases cresp.ready <;> exact h.line hs
    · intro _ o
      rcases hb.cases hn h.beat with ⟨hr, _, hk⟩ | ⟨hr, _, _, hk⟩ | ⟨_, hl', _⟩
      · rw [hr, if_neg Bool.false_ne_true] at hld
        rw [hld, hca, hk]
        exact h.loaded hs o
      · rw [hr, if_pos rfl] at hld
        rw [hld, hca, hk, Sync.ahead_lt_succ_iff h.beat, ← hoff, ← h.loaded hs]
        by_cases ho : o = s.missAddr.offset
        · simp [ho]
        · simp [ho]
      · rw [hl] at hl'
        cases hl'
  | true =>
    -- the line is complete
    obtain ⟨_, hk15⟩ := (hb hn).mp hl
    have hk : s.beatNxt k cresp = 0 := by
      simp only [beatNxt, if_neg hn, nextBeat, ((hb hn).mp hl).1, hl, if_true]
    rw [hl, if_pos rfl] at hst hca
    have hne : (s.step dreq cresp false false).missState ≠ .load := by
      rw [hst]
      split <;> simp
    refine ⟨h.directory.follow, fun _ => hk, hb.beatNxt_lt hn h.beat, ?_, ?_,
      fun hl' => absurd hl' hne, fun hl' => absurd hl' hne, h.evicted_follow, ?_, ?_⟩
    · rw [hca]
      exact fun _ => hoff'
    · rw [hca]
      exact fun _ => hind'
    · rw [hca, hwt]
      exact fun _ => rfl
    · rw [hk, hca, hwo, hoff, hk15]
      exact fun _ _ => ⟨rfl, (Sync.ahead_eq_iff (by omega)).mpr rfl⟩

theorem Cache.RefillOk.follow_writeback (h : s.RefillOk k) (hb : s.Beats k cresp)
    (hs : s.missState = .writeback) :
    (s.step dreq cresp false false).RefillOk (s.beatNxt k cresp) := by
  have hn := Cache.ne_idle_of_writeback hs
  obtain ⟨hst, hca, hma, hwt, hww⟩ := step_of_writeback dreq cresp hs
  obtain ⟨hoff', hind'⟩ := h.missAddr_beat hb hn hma
  rw [← hca] at hoff' hind'
  have hne : (s.step dreq cresp false false).missState ≠ .load := by
    rw [hst]
    split <;> simp
  refine ⟨h.directory.follow, ?_, hb.beatNxt_lt hn h.beat, fun _ => hoff', fun _ => hind',
    fun hl' => absurd hl' hne, fun hl' => absurd hl' hne, h.evicted_follow, ?_, ?_⟩
  · rcases hb.cases hn h.beat with ⟨_, hl, _⟩ | ⟨_, hl, _⟩ | ⟨_, _, _, hk⟩
    · rw [hst, hl]
      intro hi
      cases hi
    · rw [hst, hl]
      intro hi
      cases hi
    · exact fun _ => hk
  · rw [hca, hwt]
    exact fun _ => h.wbTag hs
  · rw [hww]
    intro _ hw
    cases hw

/-- The miss registers follow a burst. -/
theorem Cache.RefillOk.follow (h : s.RefillOk k) (hb : s.Beats k cresp) :
    (s.step dreq cresp false false).RefillOk (s.beatNxt k cresp) := by
  cases hs : s.missState with
  | idle =>
    have hst := step_of_idle dreq cresp hs
    have hk : s.beatNxt k cresp = 0 := by
      rw [beatNxt, if_pos hs]
    rw [hk]
    exact ⟨h.directory.follow, fun _ => rfl, by omega, fun hn => absurd hst hn,
      fun hn => absurd hst hn, fun hl => absurd (hst.symm.trans hl) (by simp),
      fun hl => absurd (hst.symm.trans hl) (by simp), h.evicted_follow,
      fun hl => absurd (hst.symm.trans hl) (by simp),
      fun hl => absurd (hst.symm.trans hl) (by simp)⟩
  | load => exact h.follow_load hb hs
  | writeback => exact h.follow_writeback hb hs

/-- A miss starts with no beat done. -/
theorem Cache.MayMiss.beatNxt_zero (hm : s.MayMiss dreq cresp true) (hb : s.Beats k cresp) :
    s.beatNxt k cresp = 0 := by
  rcases hm.ready rfl with hi | ⟨hw, hl⟩
  · rw [beatNxt, if_pos hi]
  · have hn := Cache.ne_idle_of_writeback hw
    simp only [beatNxt, if_neg hn, nextBeat, ((hb hn).mp hl).1, hl, if_true]

/-- The miss registers follow the bus, whatever is requested. -/
theorem Cache.RefillOk.step (h : s.RefillOk k) (hm : s.MayMiss dreq cresp fsmToMiss)
    (hb : s.Beats k cresp) :
    (s.step dreq cresp fsmToMiss false).RefillOk (s.beatNxt k cresp) := by
  cases hf : fsmToMiss with
  | false => exact h.follow hb
  | true =>
    subst hf
    rw [hm.beatNxt_zero hb]
    exact h.directory.refillOk_start hm

end Refill

end RiscvCpu
