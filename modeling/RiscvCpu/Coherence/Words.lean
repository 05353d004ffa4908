import RiscvCpu.Coherence.Refill

/-!
# Where a word lives

At any time each word of memory has one copy that counts: in a way of the data
RAM, in memory while its line is on the way in, in the displaced half of the line
being refilled, in the write buffer, or in memory.  `Cache.Holds` lists the places,
with the value in memory and the value the requests have given the word.

One cycle moves a word from place to place and keeps the value, but for the store
that hits it (`Cache.Holds.step`).
-/

namespace RiscvCpu

section Words

variable {ib : Nat} {s : Cache ib} {dreq : DbusReq} {cresp : CbusResp} {fsmToMiss : Bool} {k : ℕ}
  {a : ReqAddr ib} {m v : BitVec 64}

/-- The word of the write buffer, with the one on its way into it. -/
def Cache.bufAt (s : Cache ib) (o : BitVec 4) : BitVec 64 :=
  if s.wbWen = true ∧ s.wbOffset = o then s.missRdata else s.writebuffer o

/-- Word `o` of a displaced line: in the way the new line is loaded into until the beat for
it, and in the write buffer from then on. -/
def Cache.displacedAt (s : Cache ib) (o : BitVec 4) : BitVec 64 :=
  if s.missState = .load ∧ s.missDataLoaded o = false then
    s.dataRam ⟨s.missAddr.idx, s.missAddr.index, o⟩
  else s.bufAt o

theorem Cache.displacedAt_of_waiting {o : BitVec 4} (hs : s.missState = .load)
    (hload : s.missDataLoaded o = false) :
    s.displacedAt o = s.dataRam ⟨s.missAddr.idx, s.missAddr.index, o⟩ := by
  rw [displacedAt, if_pos ⟨hs, hload⟩]

theorem Cache.displacedAt_of_buffered {o : BitVec 4}
    (h : s.missState = .load → s.missDataLoaded o = true) : s.displacedAt o = s.bufAt o := by
  rw [displacedAt, if_neg]
  rintro ⟨hs, hload⟩
  rw [h hs] at hload
  cases hload

/-- The word a beat of the burst is about. -/
def Cache.burstWord (s : Cache ib) : ReqAddr ib :=
  ⟨s.creqAddr.tag, s.creqAddr.index, s.missAddr.offset⟩

/-- Word `a` has the value `m` in memory and the value `v` for the requests. -/
inductive Cache.Holds (s : Cache ib) (k : ℕ) (a : ReqAddr ib) (m v : BitVec 64) : Prop where
/-- In a way of the cache.  Memory agrees as long as the line is clean. -/
| resident (w : BitVec 3) :
  s.Resident w a →
  ¬s.Awaits w a →
  s.dataRam (a.slot w) = v →
  ((s.metadata a.index w).dirty = false → m = v) →
  Holds s k a m v
/-- On its way into the cache. -/
| awaited (w : BitVec 3) :
  s.Resident w a →
  s.Awaits w a →
  m = v →
  Holds s k a m v
/-- Displaced, in the way a new line is being loaded into. -/
| displaced :
  s.Evicted a →
  s.missState = .load →
  s.missDataLoaded a.offset = false →
  s.dataRam (a.slot s.missAddr.idx) = v →
  Holds s k a m v
/-- Displaced, in the write buffer. -/
| buffered :
  s.Evicted a →
  (s.missState = .load ∧ s.missDataLoaded a.offset = true ∨
    s.missState = .writeback ∧ k ≤ Sync.ahead s.creqAddr.offset a.offset) →
  s.bufAt a.offset = v →
  Holds s k a m v
/-- In memory alone. -/
| memory :
  (∀ w, ¬s.Resident w a) →
  (s.Evicted a → s.missState = .writeback ∧ Sync.ahead s.creqAddr.offset a.offset < k) →
  m = v →
  Holds s k a m v

/-- The value a request leaves in word `a`. -/
def Cache.storedAt (s : Cache ib) (dreq : DbusReq) (a : ReqAddr ib) (v : BitVec 64) :
    BitVec 64 :=
  if s.fsmToHit dreq = true ∧ reqAddr ib dreq.addr = a then mergeBytes v dreq.data dreq.strobe
  else v

/-- The value a beat leaves in word `a` of memory. -/
def Cache.writtenAt (s : Cache ib) (cresp : CbusResp) (a : ReqAddr ib) (m : BitVec 64) :
    BitVec 64 :=
  if s.missState = .writeback ∧ cresp.ready = true ∧ s.burstWord = a then
    s.writebuffer s.missAddr.offset
  else m

/-! ## Where a beat and a hit fall -/

theorem Cache.step_dataRam (x : CacheAddr ib) :
    (s.step dreq cresp fsmToMiss false).dataRam x =
      if s.missState = .load ∧ cresp.ready = true ∧ x = s.missAddr then cresp.data
      else if s.fsmToHit dreq = true ∧ x = s.cacheAddr dreq then
        mergeBytes (s.dataRam x) dreq.data dreq.strobe
      else s.dataRam x := by
  simp [step, dataRamNxt, and_assoc]

theorem Cache.step_dirty (i : BitVec ib) (w : BitVec 3) :
    ((s.step dreq cresp false false).metadata i w).dirty =
      ((s.metadata i w).dirty || decide (s.fsmToHit dreq = true ∧ dreq.strobe ≠ 0 ∧
        i = (reqAddr ib dreq.addr).index ∧ w = s.idx dreq)) := by
  simp only [step, metadataNxt, Bool.false_eq_true, if_false]
  cases hh : s.fsmToHit dreq with
  | false => simp
  | true =>
    by_cases hs : dreq.strobe = 0#8
    · simp [hs]
    · by_cases hi : i = (reqAddr ib dreq.addr).index
      · subst hi
        by_cases hw : w = s.idx dreq
        · subst hw
          simp [hs]
        · simp [hs, hw]
      · simp [hs, hi]

/-- The next word of a refill has not arrived. -/
theorem Cache.RefillOk.next_not_loaded (h : s.RefillOk k) (hs : s.missState = .load) :
    s.missDataLoaded s.missAddr.offset = false := by
  have hn := Cache.ne_idle_of_load hs
  by_contra hc
  have := (h.loaded hs _).mp (Bool.not_eq_false _ ▸ hc)
  rw [(Sync.ahead_eq_iff h.beat).mpr (h.offset hn)] at this
  exact absurd this (Nat.lt_irrefl k)

/-- Before the last beat of a refill only the next word is missing. -/
theorem Cache.RefillOk.last_word (h : s.RefillOk k) (hs : s.missState = .load) (hk : k = 15)
    {o : BitVec 4} (ho : s.missDataLoaded o = false) : o = s.missAddr.offset := by
  have hn := Cache.ne_idle_of_load hs
  have hlt := Sync.ahead_lt s.creqAddr.offset o
  have hge : ¬Sync.ahead s.creqAddr.offset o < k := by
    rw [← h.loaded hs, ho]
    exact Bool.false_ne_true
  rw [h.offset hn]
  exact (Sync.ahead_eq_iff h.beat).mp (by omega)

/-- A cycle of a refill without the beat for a word that has not arrived. -/
theorem Cache.RefillOk.beat_elsewhere (h : s.RefillOk k) (hb : s.Beats k cresp)
    (hs : s.missState = .load) {o : BitVec 4} (hload : s.missDataLoaded o = false)
    (hnow : ¬(cresp.ready = true ∧ o = s.missAddr.offset)) (dreq : DbusReq) :
    (s.step dreq cresp false false).missState = .load ∧
    (s.step dreq cresp false false).missAddr.idx = s.missAddr.idx ∧
    (s.step dreq cresp false false).missAddr.index = s.missAddr.index ∧
    (s.step dreq cresp false false).missDataLoaded o = false := by
  obtain ⟨hst, _, hma, hld, _⟩ := step_of_load dreq cresp hs
  have hlast : cresp.last = false := by
    rcases hb.cases (Cache.ne_idle_of_load hs) h.beat with ⟨_, hl, _⟩ | ⟨_, hl, _⟩ | ⟨hr, _, hk15, _⟩
    · exact hl
    · exact hl
    · exact absurd ⟨hr, h.last_word hs hk15 hload⟩ hnow
  refine ⟨?_, ?_, ?_, ?_⟩
  · rw [hst, hlast]
    rfl
  · rw [hma]
    split
    · rfl
    · rfl
  · rw [hma]
    split
    · rfl
    · rfl
  · rw [hld]
    split
    · rename_i hr
      rw [Function.update_of_ne fun ho => hnow ⟨hr, ho⟩]
      exact hload
    · exact hload

/-- A hit is never served from a word that has not arrived. -/
theorem Cache.RefillOk.hit_arrived (h : s.RefillOk k) (hh : s.fsmToHit dreq = true) :
    ¬s.Awaits (s.idx dreq) (reqAddr ib dreq.addr) := by
  rintro ⟨hs, hidx, hindex, hload⟩
  obtain ⟨hres, hok⟩ := h.directory.hit hh
  have htag : (reqAddr ib dreq.addr).tag = s.creqAddr.tag := by
    rw [← hres.2, ← (h.line hs).2, hindex, hidx]
  have hin : s.fsmInMiss dreq = true := by
    simp only [fsmInMiss, hs, htag, hindex, BEq.rfl, Bool.and_true]
    rfl
  rw [isMissDataLoaded, hin, hload] at hok
  cases hok

/-- A store changes only a word that is resident and has arrived. -/
theorem Cache.RefillOk.stored (h : s.RefillOk k)
    (hno : ∀ w, s.Resident w a → s.Awaits w a) : s.storedAt dreq a v = v := by
  unfold storedAt
  split
  · rename_i hc
    obtain ⟨hh, ha⟩ := hc
    have hres := (h.directory.hit hh).1
    have hok := h.hit_arrived hh
    rw [ha] at hres hok
    exact absurd (hno _ hres) hok
  · rfl

/-- A beat of a write-back writes a displaced word. -/
theorem Cache.RefillOk.burstWord_evicted (h : s.RefillOk k) (hs : s.missState = .writeback) :
    s.Evicted s.burstWord := by
  have hn := Cache.ne_idle_of_writeback hs
  exact ⟨h.wbTag hs, (h.index hn).symm, .inr hs⟩

theorem Cache.RefillOk.burstWord_ahead (h : s.RefillOk k) (hn : s.missState ≠ .idle) :
    Sync.ahead s.creqAddr.offset s.burstWord.offset = k :=
  (Sync.ahead_eq_iff h.beat).mpr (h.offset hn)

/-- Memory keeps every word that is not displaced. -/
theorem Cache.RefillOk.written (h : s.RefillOk k) (hne : ¬s.Evicted a) :
    s.writtenAt cresp a m = m := by
  unfold writtenAt
  split
  · rename_i hc
    exact absurd (hc.2.2 ▸ h.burstWord_evicted hc.1) hne
  · rfl

/-- No word on its way before an edge is one that has arrived. -/
theorem Cache.awaits_of_step {w : BitVec 3}
    (h : (s.step dreq cresp false false).Awaits w a) : s.Awaits w a := by
  obtain ⟨hst', hidx, hindex, hload⟩ := h
  cases hs : s.missState with
  | idle =>
    rw [step_of_idle _ _ hs] at hst'
    cases hst'
  | load =>
    obtain ⟨_, _, hma, hld, _⟩ := step_of_load dreq cresp hs
    rw [hma] at hidx hindex
    rw [hld] at hload
    cases hr : cresp.ready with
    | false =>
      rw [hr] at hidx hindex hload
      exact ⟨hs, hidx, hindex, hload⟩
    | true =>
      rw [hr] at hidx hindex hload
      refine ⟨hs, hidx, hindex, ?_⟩
      by_cases ho : a.offset = s.missAddr.offset
      · rw [if_pos rfl, ho, Function.update_self] at hload
        cases hload
      · rwa [if_pos rfl, Function.update_of_ne ho] at hload
  | writeback =>
    rw [(step_of_writeback _ _ hs).1] at hst'
    split at hst' <;> cases hst'

/-! ## The write buffer -/

/-- A buffered word stays in the buffer. -/
theorem Cache.RefillOk.step_bufAt (h : s.RefillOk k) {o : BitVec 4}
    (ho : s.missState = .load ∧ s.missDataLoaded o = true ∨ s.missState = .writeback) :
    (s.step dreq cresp false false).bufAt o = s.bufAt o := by
  have hno : ¬((s.step dreq cresp false false).wbWen = true ∧
      (s.step dreq cresp false false).wbOffset = o) := by
    rintro ⟨hw, hwo⟩
    rcases ho with ⟨hs, hl⟩ | hs
    · obtain ⟨_, _, _, _, _, _, _, hoff⟩ := step_of_load dreq cresp hs
      rw [hoff] at hwo
      rw [← hwo, h.next_not_loaded hs] at hl
      cases hl
    · rw [(step_of_writeback _ _ hs).2.2.2.2] at hw
      cases hw
  rw [bufAt, if_neg hno, step_writebuffer, bufAt]
  cases hw : s.wbWen with
  | false => simp
  | true =>
    by_cases hwo : s.wbOffset = o
    · simp [hwo]
    · simp [hwo, Function.update_of_ne (Ne.symm hwo)]

/-- The word a beat of the write-back sends is in the buffer, since the one on its way into
it is sent last. -/
theorem Cache.RefillOk.bufAt_next (h : s.RefillOk k) (hs : s.missState = .writeback) :
    s.bufAt s.missAddr.offset = s.writebuffer s.missAddr.offset := by
  have hn := Cache.ne_idle_of_writeback hs
  rw [bufAt, if_neg]
  rintro ⟨hw, hwo⟩
  obtain ⟨hk0, h15⟩ := h.wbWen hs hw
  rw [hwo, (Sync.ahead_eq_iff h.beat).mpr (h.offset hn), hk0] at h15
  cases h15

/-- The word that a beat of the refill overwrites enters the buffer. -/
theorem Cache.step_bufAt_next (hs : s.missState = .load) (hr : cresp.ready = true) :
    (s.step dreq cresp false false).bufAt s.missAddr.offset = s.dataRam s.missAddr := by
  obtain ⟨_, _, _, _, _, _, hww, hwo⟩ := step_of_load dreq cresp hs
  rw [bufAt, hww, hwo, if_pos ⟨hr, rfl⟩]
  rfl

/-- The refill leaves the words of the displaced line alone until their beats. -/
theorem Cache.RefillOk.step_dataRam_next (h : s.RefillOk k) (hs : s.missState = .load)
    {o : BitVec 4} (hload : s.missDataLoaded o = false)
    (hnow : ¬(cresp.ready = true ∧ o = s.missAddr.offset)) :
    (s.step dreq cresp false false).dataRam ⟨s.missAddr.idx, s.missAddr.index, o⟩ =
      s.dataRam ⟨s.missAddr.idx, s.missAddr.index, o⟩ := by
  rw [step_dataRam, if_neg, if_neg]
  · -- a hit in this place would be one on a word that has not arrived
    rintro ⟨hh, hslot⟩
    rw [cacheAddr_eq] at hslot
    have hoff : o = (reqAddr ib dreq.addr).offset := congrArg CacheAddr.offset hslot
    refine h.hit_arrived hh ⟨hs, congrArg CacheAddr.idx hslot, congrArg CacheAddr.index hslot, ?_⟩
    rw [← hoff]
    exact hload
  · rintro ⟨_, hr, hslot⟩
    exact hnow ⟨hr, congrArg CacheAddr.offset hslot⟩

/-- A burst carries the displaced line along. -/
theorem Cache.RefillOk.step_displacedAt (h : s.RefillOk k) (hb : s.Beats k cresp)
    (hn : s.missState ≠ .idle) (o : BitVec 4) (dreq : DbusReq) :
    (s.step dreq cresp false false).displacedAt o = s.displacedAt o := by
  cases hs : s.missState with
  | idle => exact absurd hs hn
  | load =>
    obtain ⟨_, _, _, hld, _⟩ := step_of_load dreq cresp hs
    cases hload : s.missDataLoaded o with
    | true =>
      rw [displacedAt_of_buffered fun _ => hload, displacedAt_of_buffered fun _ => ?_]
      · exact h.step_bufAt (.inl ⟨hs, hload⟩)
      · rw [hld]
        split
        · by_cases ho : o = s.missAddr.offset
          · rw [ho, Function.update_self]
          · rw [Function.update_of_ne ho]
            exact hload
        · exact hload
    | false =>
      rw [displacedAt_of_waiting hs hload]
      by_cases hnow : cresp.ready = true ∧ o = s.missAddr.offset
      · -- the beat overwrites the word, which enters the buffer
        obtain ⟨hr, rfl⟩ := hnow
        rw [displacedAt_of_buffered fun _ => ?_]
        · exact step_bufAt_next hs hr
        · rw [hld, if_pos hr, Function.update_self]
      · obtain ⟨hst, hidx, hindex, hload'⟩ := h.beat_elsewhere hb hs hload hnow dreq
        rw [displacedAt_of_waiting hst hload', hidx, hindex]
        exact h.step_dataRam_next hs hload hnow
  | writeback =>
    have hne : (s.step dreq cresp false false).missState ≠ .load := by
      rw [(step_of_writeback dreq cresp hs).1]
      split <;> simp
    rw [displacedAt_of_buffered fun hl => absurd hl hne,
      displacedAt_of_buffered fun hl => absurd (hl.symm.trans hs) (by simp)]
    exact h.step_bufAt (.inr hs)

/-- A displaced word is held where its line is carried. -/
theorem Cache.Evicted.holds (hev : s.Evicted a)
    (hwait : s.missState = .writeback → k ≤ Sync.ahead s.creqAddr.offset a.offset)
    (hv : s.displacedAt a.offset = v) : s.Holds k a m v := by
  rcases hev.2.2 with ⟨hs, _⟩ | hw
  · cases hload : s.missDataLoaded a.offset with
    | false =>
      rw [displacedAt_of_waiting hs hload, ← hev.2.1] at hv
      exact .displaced hev hs hload hv
    | true =>
      rw [displacedAt_of_buffered fun _ => hload] at hv
      exact .buffered hev (.inl ⟨hs, hload⟩) hv
  · rw [displacedAt_of_buffered fun hl => absurd (hl.symm.trans hw) (by simp)] at hv
    exact .buffered hev (.inr ⟨hw, hwait hw⟩) hv

/-! ## A miss starts -/

/-- Nothing is on its way in when a miss starts. -/
theorem Cache.MayMiss.not_load (h : s.MayMiss dreq cresp true) : s.missState ≠ .load := by
  intro hs
  rcases h.ready rfl with hi | ⟨hw, _⟩
  · exact absurd (hi.symm.trans hs) (by simp)
  · exact absurd (hw.symm.trans hs) (by simp)

/-- Nothing is stored by a request that misses. -/
theorem Cache.MayMiss.stored (h : s.MayMiss dreq cresp true) : s.storedAt dreq a v = v := by
  unfold storedAt
  rw [h.not_hit rfl, if_neg]
  exact fun hc => Bool.false_ne_true hc.1

/-- The data RAM rests in the cycle of a miss. -/
theorem Cache.MayMiss.step_dataRam (h : s.MayMiss dreq cresp true) (x : CacheAddr ib) :
    (s.step dreq cresp true false).dataRam x = s.dataRam x := by
  rw [Cache.step_dataRam, if_neg fun hc => h.not_load hc.1, if_neg]
  intro hc
  rw [h.not_hit rfl] at hc
  cases hc.1

/-- The displaced line of a new miss is the one its way held. -/
theorem Cache.resident_of_evicted_start (hev : (s.step dreq cresp true false).Evicted a) :
    s.Resident (s.missIdx dreq) a ∧ (s.metadata a.index (s.missIdx dreq)).dirty = true := by
  obtain ⟨htag, hindex, hstate⟩ := hev
  have hi : a.index = (reqAddr ib dreq.addr).index := hindex
  rcases hstate with ⟨_, hv, hd⟩ | hw
  · rw [Resident, hi]
    exact ⟨⟨hv, htag.symm⟩, hd⟩
  · cases hw

/-- A word in memory alone stays there or is on its way in after a miss. -/
theorem Cache.MayMiss.step_memory (h : s.MayMiss dreq cresp true) (hk : ∀ w, ¬s.Resident w a)
    (hm : m = v) : (s.step dreq cresp true false).Holds 0 a m v := by
  by_cases hline : a.index = (reqAddr ib dreq.addr).index ∧ a.tag = (reqAddr ib dreq.addr).tag
  · refine .awaited (s.missIdx dreq) ?_ ⟨rfl, rfl, hline.1.symm, rfl⟩ hm
    rw [h.step_resident, if_pos ⟨hline.1, rfl⟩]
    exact hline.2
  · refine .memory (fun w hw => ?_) (fun hev => ?_) hm
    · rw [h.step_resident] at hw
      split at hw
      · rename_i hc
        exact hline ⟨hc.1, hw⟩
      · exact hk w hw
    · exact absurd (resident_of_evicted_start hev).1 (hk _)

theorem Cache.MayMiss.step_resident_word (h : s.MayMiss dreq cresp true) (hr : s.RefillOk k)
    {w : BitVec 3} (hw : s.Resident w a) (hv : s.dataRam (a.slot w) = v)
    (hclean : (s.metadata a.index w).dirty = false → m = v) :
    (s.step dreq cresp true false).Holds 0 a m v := by
  by_cases hvictim : a.index = (reqAddr ib dreq.addr).index ∧ w = s.missIdx dreq
  · cases hd : (s.metadata a.index w).dirty with
    | true =>
      -- a dirty line is displaced
      obtain ⟨hi, rfl⟩ := hvictim
      refine .displaced ⟨?_, hi, .inl ⟨rfl, ?_, ?_⟩⟩ rfl rfl ?_
      · rw [← hw.2, hi]
        rfl
      · have hvalid := hw.1
        rw [hi] at hvalid
        exact hvalid
      · rw [hi] at hd
        exact hd
      · exact (h.step_dataRam _).trans hv
    | false =>
      -- a clean line is dropped
      refine .memory (fun w' hw' => ?_) (fun hev => ?_) (hclean hd)
      · rw [h.step_resident] at hw'
        split at hw'
        · have hreq : s.Resident w (reqAddr ib dreq.addr) := by
            rw [Resident, hvictim.1, hw'] at hw
            exact hw
          exact not_resident_of_miss (h rfl).1 w hreq
        · rename_i hne
          exact hne ⟨hvictim.1, (hr.directory _ _ _ hw' hw).trans hvictim.2⟩
      · have := (resident_of_evicted_start hev).2
        rw [← hvictim.2, hd] at this
        cases this
  · refine .resident w ?_ ?_ ((h.step_dataRam _).trans hv) ?_
    · rw [h.step_resident, if_neg hvictim]
      exact hw
    · rintro ⟨_, hidx, hindex, _⟩
      exact hvictim ⟨hindex.symm, hidx.symm⟩
    · intro hd
      apply hclean
      simp only [step, metadataNxt, h.not_hit rfl, Bool.false_eq_true, if_false, if_true] at hd
      by_cases hi : a.index = (reqAddr ib dreq.addr).index
      · have hne : w ≠ s.missIdx dreq := fun hw' => hvictim ⟨hi, hw'⟩
        rwa [hi, Function.update_self, Function.update_of_ne hne, ← hi] at hd
      · rwa [Function.update_of_ne hi] at hd

/-! ## A cycle without a miss -/

theorem Cache.RefillOk.follow_resident (h : s.RefillOk k) {w : BitVec 3} (hw : s.Resident w a)
    (harr : ¬s.Awaits w a) (hv : s.dataRam (a.slot w) = v)
    (hclean : (s.metadata a.index w).dirty = false → m = v) :
    (s.step dreq cresp false false).Holds (s.beatNxt k cresp) a m (s.storedAt dreq a v) := by
  refine .resident w ((step_resident rfl w a).mpr hw) (fun hc => harr (awaits_of_step hc)) ?_ ?_
  · rw [step_dataRam]
    split
    · -- a beat falls on a word that has not arrived
      rename_i hc
      obtain ⟨hs, _, hslot⟩ := hc
      have hoff : a.offset = s.missAddr.offset := congrArg CacheAddr.offset hslot
      refine absurd ⟨hs, ?_, ?_, ?_⟩ harr
      · exact (congrArg CacheAddr.idx hslot).symm
      · exact (congrArg CacheAddr.index hslot).symm
      · rw [hoff]
        exact h.next_not_loaded hs
    · split
      · rename_i hc
        obtain ⟨hh, hslot⟩ := hc
        rw [cacheAddr_eq] at hslot
        have hidx := congrArg CacheAddr.idx hslot
        have hindex := congrArg CacheAddr.index hslot
        simp only [ReqAddr.slot] at hidx hindex
        have hres := (h.directory.hit hh).1
        have htag : a.tag = (reqAddr ib dreq.addr).tag := by
          rw [← hw.2, ← hres.2, hidx, hindex]
        have ha := (ReqAddr.slot_inj htag hslot).1
        rw [storedAt, if_pos ⟨hh, ha.symm⟩, hv]
      · rename_i hc
        rw [storedAt, if_neg, hv]
        rintro ⟨hh, ha⟩
        have hres := (h.directory.hit hh).1
        rw [ha] at hres
        refine hc ⟨hh, ?_⟩
        rw [cacheAddr_eq, ha, h.directory _ _ _ hw hres]
  · intro hd
    rw [step_dirty, Bool.or_eq_false_iff, decide_eq_false_iff_not] at hd
    rw [hclean hd.1, storedAt]
    split
    · rename_i hc
      obtain ⟨hh, ha⟩ := hc
      by_cases hs : dreq.strobe = 0
      · rw [hs, mergeBytes_none]
      · have hres := (h.directory.hit hh).1
        rw [ha] at hres
        exact absurd ⟨hh, hs, by rw [ha], h.directory _ _ _ hw hres⟩ hd.2
    · rfl

theorem Cache.RefillOk.follow_awaited (h : s.RefillOk k) (hb : s.Beats k cresp) {w : BitVec 3}
    (hw : s.Resident w a) (haw : s.Awaits w a) (hm : m = v)
    (hdata : cresp.ready = true → s.burstWord = a → cresp.data = m) :
    (s.step dreq cresp false false).Holds (s.beatNxt k cresp) a m v := by
  obtain ⟨hs, hidx, hindex, hload⟩ := haw
  have hn := Cache.ne_idle_of_load hs
  obtain ⟨hst, _, hma, hld, _⟩ := step_of_load dreq cresp hs
  by_cases hnow : cresp.ready = true ∧ a.offset = s.missAddr.offset
  · -- the word arrives
    have hslot : a.slot w = s.missAddr := by
      rw [ReqAddr.slot, ← hidx, ← hindex, hnow.2]
    have hword : s.burstWord = a := by
      have htag : s.creqAddr.tag = a.tag := by
        rw [← (h.line hs).2, hindex, hidx, hw.2]
      rw [burstWord, htag, ← h.index hn, hindex, ← hnow.2]
    refine .resident w ((step_resident rfl w a).mpr hw) (fun hc => ?_) ?_ (fun _ => hm)
    · have := hc.2.2.2
      rw [hld, if_pos hnow.1, hnow.2, Function.update_self] at this
      cases this
    · rw [step_dataRam, if_pos ⟨hs, hnow.1, hslot⟩, hdata hnow.1 hword, hm]
  · obtain ⟨hst, hidx', hindex', hload'⟩ := h.beat_elsewhere hb hs hload hnow dreq
    exact .awaited w ((step_resident rfl w a).mpr hw)
      ⟨hst, hidx'.trans hidx, hindex'.trans hindex, hload'⟩ hm

/-- A displaced line stays displaced until the write-back ends. -/
theorem Cache.Evicted.step_of_load (hev : s.Evicted a) (dreq : DbusReq) (cresp : CbusResp)
    (hs : s.missState = .load) :
    (s.step dreq cresp false false).Evicted a := by
  obtain ⟨hst, _, hma, _, hwm, hwt, _, _⟩ := Cache.step_of_load dreq cresp hs
  obtain ⟨htag, hindex, hstate⟩ := hev
  have hdirty : s.wbMeta.valid = true ∧ s.wbMeta.dirty = true := by
    rcases hstate with h | h
    · exact h.2
    · rw [hs] at h
      cases h
  refine ⟨htag.trans hwt.symm, ?_, ?_⟩
  · rw [hma]
    split
    · exact hindex
    · exact hindex
  · rw [hst, hwm, hdirty.1, hdirty.2]
    cases cresp.last with
    | true => exact .inr rfl
    | false => exact .inl ⟨rfl, rfl, rfl⟩

/-- A cycle of a refill keeps a displaced word. -/
theorem Cache.RefillOk.follow_displaced (h : s.RefillOk k) (hb : s.Beats k cresp)
    (hev : s.Evicted a) (hs : s.missState = .load) (hv : s.displacedAt a.offset = v) :
    (s.step dreq cresp false false).Holds (s.beatNxt k cresp) a m v := by
  have hn := Cache.ne_idle_of_load hs
  have hev' := hev.step_of_load dreq cresp hs
  have hv' := (h.step_displacedAt hb hn a.offset dreq).trans hv
  refine hev'.holds (fun hw => ?_) hv'
  -- the refill is complete and no beat of the write-back is done
  rw [(step_of_load dreq cresp hs).1] at hw
  rcases hb.cases hn h.beat with ⟨_, hl, _⟩ | ⟨_, hl, _⟩ | ⟨_, _, _, hk⟩
  · rw [hl] at hw
    cases hw
  · rw [hl] at hw
    cases hw
  · rw [hk]
    exact Nat.zero_le _

/-- The beat of a write-back carries the value of its word. -/
theorem Cache.RefillOk.written_next (h : s.RefillOk k) (hs : s.missState = .writeback)
    (hev : s.Evicted a) (hr : cresp.ready = true)
    (ho : Sync.ahead s.creqAddr.offset a.offset = k) :
    s.writtenAt cresp a m = s.bufAt a.offset := by
  have hn := Cache.ne_idle_of_writeback hs
  have hoff : a.offset = s.missAddr.offset := by
    rw [h.offset hn]
    exact (Sync.ahead_eq_iff h.beat).mp ho
  have hword : s.burstWord = a := by
    rw [burstWord, h.wbTag hs, ← h.index hn, ← hoff, ← hev.1, ← hev.2.1]
  rw [writtenAt, if_pos ⟨hs, hr, hword⟩, hoff, h.bufAt_next hs]

theorem Cache.Evicted.step_of_writeback (hev : s.Evicted a) (dreq : DbusReq)
    (hs : s.missState = .writeback) (hl : cresp.last = false) :
    (s.step dreq cresp false false).Evicted a ∧
      (s.step dreq cresp false false).missState = .writeback := by
  obtain ⟨hst, _, hma, hwt, _⟩ := Cache.step_of_writeback dreq cresp hs
  have hst' : (s.step dreq cresp false false).missState = .writeback := by
    rw [hst, hl]
    rfl
  refine ⟨⟨hev.1.trans hwt.symm, ?_, .inr hst'⟩, hst'⟩
  rw [hma]
  split
  · exact hev.2.1
  · exact hev.2.1

theorem Cache.RefillOk.follow_buffered_writeback (h : s.RefillOk k) (hb : s.Beats k cresp)
    (hev : s.Evicted a) (hs : s.missState = .writeback)
    (hwait : k ≤ Sync.ahead s.creqAddr.offset a.offset) (hv : s.bufAt a.offset = v) :
    (s.step dreq cresp false false).Holds (s.beatNxt k cresp) a (s.writtenAt cresp a m) v := by
  have hn := Cache.ne_idle_of_writeback hs
  have hca := (step_of_writeback dreq cresp hs).2.1
  have hres : ∀ w, ¬(s.step dreq cresp false false).Resident w a := fun w hw =>
    h.evicted a hev w ((step_resident rfl w a).mp hw)
  have hlt := Sync.ahead_lt s.creqAddr.offset a.offset
  rcases hb.cases hn h.beat with ⟨_, hl, hk⟩ | ⟨hr, hl, hlt15, hk⟩ | ⟨hr, hl, hk15, hk⟩
  · obtain ⟨hev', hst'⟩ := hev.step_of_writeback dreq hs hl
    refine .buffered hev' (.inr ⟨hst', ?_⟩) ((h.step_bufAt (.inr hs)).trans hv)
    rw [hk, hca]
    exact hwait
  · obtain ⟨hev', hst'⟩ := hev.step_of_writeback dreq hs hl
    rcases Nat.lt_or_ge k (Sync.ahead s.creqAddr.offset a.offset) with hgt | hle
    · refine .buffered hev' (.inr ⟨hst', ?_⟩) ((h.step_bufAt (.inr hs)).trans hv)
      rw [hk, hca]
      exact hgt
    · have ho : Sync.ahead s.creqAddr.offset a.offset = k := by omega
      refine .memory hres (fun _ => ⟨hst', ?_⟩) ((h.written_next hs hev hr ho).trans hv)
      rw [hk, hca, ho]
      exact Nat.lt_succ_self k
  · have ho : Sync.ahead s.creqAddr.offset a.offset = k := by omega
    refine .memory hres (fun hev' => ?_) ((h.written_next hs hev hr ho).trans hv)
    have hst' := (step_of_writeback dreq cresp hs).1
    rw [hl, if_pos rfl] at hst'
    rcases hev'.2.2 with ⟨hl', _⟩ | hw'
    · rw [hst'] at hl'
      cases hl'
    · rw [hst'] at hw'
      cases hw'

theorem Cache.RefillOk.follow_memory (h : s.RefillOk k) (hb : s.Beats k cresp)
    (hno : ∀ w, ¬s.Resident w a)
    (hdone : s.Evicted a → s.missState = .writeback ∧ Sync.ahead s.creqAddr.offset a.offset < k)
    (hm : m = v) :
    (s.step dreq cresp false false).Holds (s.beatNxt k cresp) a m v := by
  refine .memory (fun w hw => hno w ((step_resident rfl w a).mp hw)) (fun hev' => ?_) hm
  obtain ⟨hs, hlt⟩ := hdone (evicted_of_step hev')
  have hn := Cache.ne_idle_of_writeback hs
  obtain ⟨hst, hca, _⟩ := step_of_writeback dreq cresp hs
  have hst' : (s.step dreq cresp false false).missState = .writeback := by
    rcases hev'.2.2 with ⟨hl', _⟩ | hw'
    · rw [hst] at hl'
      split at hl' <;> cases hl'
    · exact hw'
  refine ⟨hst', ?_⟩
  rw [hca]
  rcases hb.cases hn h.beat with ⟨_, _, hk⟩ | ⟨_, _, _, hk⟩ | ⟨_, hl, _, _⟩
  · omega
  · omega
  · rw [hst, hl] at hst'
    cases hst'

/-! ## One cycle -/

/-- A beat finishes a write-back in the cycle a new miss starts. -/
theorem Cache.MayMiss.written_all (h : s.MayMiss dreq cresp true) (hr : s.RefillOk k)
    (hb : s.Beats k cresp) (hs : s.missState = .writeback) (hev : s.Evicted a)
    (hwait : k ≤ Sync.ahead s.creqAddr.offset a.offset) (hv : s.bufAt a.offset = v) :
    s.writtenAt cresp a m = v := by
  have hn := Cache.ne_idle_of_writeback hs
  have hlast : cresp.last = true := by
    rcases h.ready rfl with hi | ⟨_, hl⟩
    · exact absurd hi hn
    · exact hl
  obtain ⟨hready, hk15⟩ := (hb hn).mp hlast
  have hlt := Sync.ahead_lt s.creqAddr.offset a.offset
  have ho : Sync.ahead s.creqAddr.offset a.offset = k := by omega
  exact (hr.written_next hs hev hready ho).trans hv

/-- A word in memory alone is not written, since its beat is done. -/
theorem Cache.RefillOk.written_done (h : s.RefillOk k)
    (hdone : s.Evicted a → s.missState = .writeback ∧ Sync.ahead s.creqAddr.offset a.offset < k) :
    s.writtenAt cresp a m = m := by
  unfold writtenAt
  split
  · rename_i hc
    obtain ⟨hs, _, rfl⟩ := hc
    have hlt := (hdone (h.burstWord_evicted hs)).2
    rw [h.burstWord_ahead (Cache.ne_idle_of_writeback hs)] at hlt
    exact absurd hlt (Nat.lt_irrefl k)
  · rfl

/-- A miss starts a new burst. -/
theorem Cache.MayMiss.step_holds (hm : s.MayMiss dreq cresp true) (h : s.Holds k a m v)
    (hr : s.RefillOk k) (hb : s.Beats k cresp) :
    (s.step dreq cresp true false).Holds 0 a (s.writtenAt cresp a m) v := by
  cases h with
  | resident w hw harr hv hclean =>
    rw [hr.written fun hev => hr.evicted a hev w hw]
    exact hm.step_resident_word hr hw hv hclean
  | awaited w _ haw => exact absurd haw.1 hm.not_load
  | displaced _ hs => exact absurd hs hm.not_load
  | buffered hev hs hv =>
    rcases hs with ⟨hs, _⟩ | ⟨hs, hwait⟩
    · exact absurd hs hm.not_load
    · exact hm.step_memory (hr.evicted a hev) (hm.written_all hr hb hs hev hwait hv)
  | memory hno hdone hmv =>
    rw [hr.written_done hdone]
    exact hm.step_memory hno hmv

/-- A cycle without a miss moves the burst on. -/
theorem Cache.RefillOk.follow_holds (hr : s.RefillOk k) (h : s.Holds k a m v)
    (hb : s.Beats k cresp)
    (hdata : s.missState = .load → cresp.ready = true → s.burstWord = a → cresp.data = m) :
    (s.step dreq cresp false false).Holds (s.beatNxt k cresp) a (s.writtenAt cresp a m)
      (s.storedAt dreq a v) := by
  cases h with
  | resident w hw harr hv hclean =>
    rw [hr.written fun hev => hr.evicted a hev w hw]
    exact hr.follow_resident hw harr hv hclean
  | awaited w hw haw hmv =>
    rw [hr.written fun hev => hr.evicted a hev w hw,
      hr.stored fun w' hw' => (hr.directory _ _ _ hw hw') ▸ haw]
    exact hr.follow_awaited hb hw haw hmv (hdata haw.1)
  | displaced hev hs hload hv =>
    rw [hr.stored fun w hw => absurd hw (hr.evicted a hev w)]
    refine hr.follow_displaced hb hev hs ?_
    rw [displacedAt_of_waiting hs hload, ← hev.2.1]
    exact hv
  | buffered hev hs hv =>
    rw [hr.stored fun w hw => absurd hw (hr.evicted a hev w)]
    rcases hs with ⟨hs, hload⟩ | ⟨hs, hwait⟩
    · refine hr.follow_displaced hb hev hs ?_
      rw [displacedAt_of_buffered fun _ => hload]
      exact hv
    · exact hr.follow_buffered_writeback hb hev hs hwait hv
  | memory hno hdone hmv =>
    rw [hr.stored fun w hw => absurd hw (hno w), hr.written_done hdone]
    exact hr.follow_memory hb hno hdone hmv

/-- One cycle keeps every word in one of its places: the value in memory changes by
the beat of a write-back, the value for the requests by the store that hits. -/
theorem Cache.Holds.step (h : s.Holds k a m v) (hr : s.RefillOk k)
    (hm : s.MayMiss dreq cresp fsmToMiss) (hb : s.Beats k cresp)
    (hdata : s.missState = .load → cresp.ready = true → s.burstWord = a → cresp.data = m) :
    (s.step dreq cresp fsmToMiss false).Holds (s.beatNxt k cresp) a (s.writtenAt cresp a m)
      (s.storedAt dreq a v) := by
  cases hf : fsmToMiss with
  | true =>
    subst hf
    rw [hm.beatNxt_zero hb, hm.stored]
    exact hm.step_holds h hr hb
  | false => exact hr.follow_holds h hb hdata

/-- A beat leaves in memory what was there, or the value. -/
theorem Cache.Holds.written (h : s.Holds k a m v) (hr : s.RefillOk k) (cresp : CbusResp) :
    s.writtenAt cresp a m = m ∨ s.writtenAt cresp a m = v := by
  by_cases hc : s.missState = .writeback ∧ cresp.ready = true ∧ s.burstWord = a
  · obtain ⟨hs, hready, rfl⟩ := hc
    have hev := hr.burstWord_evicted hs
    refine .inr ?_
    rw [writtenAt, if_pos ⟨hs, hready, rfl⟩]
    cases h with
    | resident w hw => exact absurd hw (hr.evicted _ hev w)
    | awaited w hw => exact absurd hw (hr.evicted _ hev w)
    | displaced _ hl => exact absurd (hs.symm.trans hl) (by simp)
    | buffered _ _ hv => exact (hr.bufAt_next hs).symm.trans hv
    | memory _ hdone =>
      have hlt := (hdone hev).2
      rw [hr.burstWord_ahead (Cache.ne_idle_of_writeback hs)] at hlt
      exact absurd hlt (Nat.lt_irrefl k)
  · exact .inl (if_neg hc)

/-- A hit reads the value of its word. -/
theorem Cache.Holds.hit (h : s.Holds k (reqAddr ib dreq.addr) m v) (hr : s.RefillOk k)
    (hh : s.fsmToHit dreq = true) : s.dataRam (s.cacheAddr dreq) = v := by
  have hres := (hr.directory.hit hh).1
  have harr := hr.hit_arrived hh
  rw [cacheAddr_eq]
  cases h with
  | resident w hw _ hv _ => rw [hr.directory _ _ _ hres hw, hv]
  | awaited w hw haw => exact absurd (hr.directory _ _ _ hw hres ▸ haw) harr
  | displaced hev => exact absurd hres (hr.evicted _ hev _)
  | buffered hev => exact absurd hres (hr.evicted _ hev _)
  | memory hno => exact absurd hres (hno _)

/-- After a reset every word lives in memory. -/
theorem Cache.holds_of_reset (s : Cache ib) (dreq : DbusReq) (cresp : CbusResp)
    (fsmToMiss : Bool) (a : ReqAddr ib) (m : BitVec 64) :
    (s.step dreq cresp fsmToMiss true).Holds 0 a m m := by
  refine .memory (fun w hw => ?_) (fun hev => ?_) rfl
  · cases hw.1
  · rcases hev.2.2 with ⟨h, _⟩ | h <;> cases h

end Words

end RiscvCpu
