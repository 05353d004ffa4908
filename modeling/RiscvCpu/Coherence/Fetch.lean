import RiscvCpu.Coherence.Bus

/-!
# The word at the pc

The instruction cache and the memory behind it together hold the program, and the
program is never written.  A hit puts the word at the pc on `hit_rdata`, and the pc
waits for it.  A word that decode cannot take is latched, and the pc waits again
until decode takes it.  A redirect changes the pc and asks for the word anew.

`SimTop.FetchOk` is the invariant, for a set `P` of pcs whose words are those of
`prog` all the time.
-/

namespace RiscvCpu

/-- The half of a 64-bit word at an address. -/
def halfAt (v : BitVec 64) (pc : BitVec 64) : BitVec 32 :=
  if pc.getLsbD 2 then v.extractLsb' 32 32 else v.extractLsb' 0 32

/-- The 32-bit word at an address, its two low bits cleared. -/
def instrWord (mem : BitVec 61 → BitVec 64) (pc : BitVec 64) : BitVec 32 :=
  halfAt (mem (wordOf pc)) pc

/-- The words of the pcs in `P`. -/
def InProgram (P : BitVec 64 → Prop) (a : ReqAddr 7) : Prop := ∃ pc, P pc ∧ reqAddr 7 pc = a

/-- The fetch path holds words of the program alone. -/
structure SimTop.FetchOk (s : SimTop) (P : BitVec 64 → Prop) (prog : BitVec 61 → BitVec 64) :
    Prop where
  coherent : Cache.Coherent s.top.icache (s.grantBeat 1) s.ram.word prog (InProgram P)
  /-- The word a hit has read is asked for. -/
  arrived : s.top.icache.drespDataOk = true →
    s.top.core.fetch.icacheReqO = true ∧ P s.top.core.fetch.pc ∧
      s.top.icache.hitRdata = prog (wordOf s.top.core.fetch.pc)
  /-- A word that is not asked for has been latched. -/
  latched : s.top.core.fetch.icacheReqO = false →
    P s.top.core.fetch.pc ∧ s.top.core.fetch.rawInstr = instrWord prog s.top.core.fetch.pc

section Fetch

variable {s : SimTop} {i : SimTopIn} {P : BitVec 64 → Prop} {prog : BitVec 61 → BitVec 64}

/-! ## The word that is waited for -/

/-- The pc waits for a word that a hit has read. -/
theorem SimTop.step_waits (hr : i.reset = false) (hd : (s.step i).top.icache.drespDataOk = true) :
    Cache.fsmToHit s.top.icache (s.top.core.ireq i.pins).toDreq = true ∧
      (s.step i).top.core.fetch.icacheReqO = true ∧
      (s.step i).top.core.fetch.pc = s.top.core.fetch.pc := by
  obtain ⟨hhit, hidle⟩ := VTop.waits_of_hit (i := s.topIn i) hr hd
  have hwait : s.top.core.iDataOk (s.top.coreIn (s.topIn i)) = false := hidle
  have hv : (s.top.core.ireq i.pins).valid = true := ICache.valid_of_fsmToHit hhit
  have hasked : s.top.core.fetch.icacheReqO = true ∧ s.top.core.csrFlush i.pins = false := by
    simpa [Core.ireq, Fetch.ireq, Core.csrFlush] using hv
  have hreset : s.top.core.pipeReset (s.top.coreIn (s.topIn i)) = false := by
    rw [Core.pipeReset, Bool.or_eq_false_iff]
    exact ⟨hr, hasked.2⟩
  refine ⟨hhit, ?_, ?_⟩
  · change (s.top.core.step _).fetch.icacheReqO = true
    rw [Core.step_icacheReqO hreset, hwait]
    exact hasked.1
  · change (s.top.core.step _).fetch.pc = _
    rw [Core.step_pc hreset, Core.frontStall, hwait]
    simp

/-- The pc waits for decode to take a word that is there, and the word is latched. -/
theorem SimTop.step_latches (hr : i.reset = false)
    (hreq : (s.step i).top.core.fetch.icacheReqO = false) :
    s.top.core.csrFlush i.pins = false ∧
      s.top.core.iDataOk (s.top.coreIn (s.topIn i)) = true ∧
      (s.step i).top.core.fetch.pc = s.top.core.fetch.pc ∧
      (s.step i).top.core.fetch.rawInstr =
        s.top.core.fetch.dataFRawInstr (s.top.iresp (s.topIn i)) := by
  obtain ⟨hreset, hok, hstall⟩ := Core.of_step_icacheReqO hr hreq
  refine ⟨Core.csrFlush_of_pipeReset hreset, hok, ?_, ?_⟩
  · change (s.top.core.step _).fetch.pc = _
    rw [Core.step_pc hreset, hstall, if_pos rfl]
  · change (if i.reset then 0 else _) = _
    rw [hr, if_neg Bool.false_ne_true]
    rfl

/-- After a reset the instruction cache has no burst, and the first word is asked for. -/
theorem SimTop.step_fetch_reset (s : SimTop) (hr : i.reset = true) :
    (s.step i).grantBeat 1 = 0 ∧ (s.step i).top.core.fetch.icacheReqO = true ∧
      (s.step i).top.icache = ICache.step s.top.icache true (s.top.core.ireq i.pins)
        (s.top.icresp (s.oresp i)) := by
  refine ⟨s.step_grantBeat_reset hr 1, ?_, ?_⟩
  · change (if (i.reset || _) = true then true else _) = true
    rw [hr, Bool.true_or, if_pos rfl]
  · rw [← hr]
    rfl

/-! ## One cycle -/

/-- What the environment promises about a cycle: the pc that is asked for is in `P`,
`P` lies in the range of the cache, and the words of `P` are those of `prog`. -/
structure SimTop.ReadsProgram (s : SimTop) (i : SimTopIn) (P : BitVec 64 → Prop)
    (prog : BitVec 61 → BitVec 64) : Prop where
  asked : (s.top.core.ireq i.pins).valid = true → P s.top.core.fetch.pc
  range : ∀ pc, P pc → 0x80000000 ≤ pc.toNat ∧ pc.toNat < 0x100000000
  readOnly : ∀ pc, P pc → s.ram.word (wordOf pc) = prog (wordOf pc)

theorem isCached_of_range {addr : BitVec 64} (h : 0x80000000 ≤ addr.toNat)
    (h' : addr.toNat < 0x100000000) : isCached addr = true := by
  rw [isCached, BitVec.getLsbD, Nat.testBit, Nat.shiftRight_eq_div_pow]
  have hdiv : addr.toNat / 2 ^ 31 = 1 := by omega
  rw [hdiv]
  rfl

theorem SimTop.ReadsProgram.isCached (h : s.ReadsProgram i P prog) :
    (s.top.core.ireq i.pins).IsCached := fun hv =>
  isCached_of_range (h.range _ (h.asked hv)).1 (h.range _ (h.asked hv)).2

theorem SimTop.ReadsProgram.word (h : s.ReadsProgram i P prog) {a : ReqAddr 7}
    (ha : InProgram P a) : s.ram.word a.word = prog a.word := by
  obtain ⟨pc, hpc, rfl⟩ := ha
  rw [word_reqAddr (by omega) (h.range pc hpc).2]
  exact h.readOnly pc hpc

/-- A live answer is the word at the pc. -/
theorem SimTop.FetchOk.iresp (h : s.FetchOk P prog) (hp : s.ReadsProgram i P prog)
    (hok : (s.top.iresp (s.topIn i)).dataOk = true) :
    P s.top.core.fetch.pc ∧
      (s.top.iresp (s.topIn i)).data = instrWord prog s.top.core.fetch.pc := by
  have hd : s.top.icache.drespDataOk = true := ICache.iresp_dataOk hp.isCached hok
  obtain ⟨_, hpc, hdata⟩ := h.arrived hd
  refine ⟨hpc, ?_⟩
  change (ICache.iresp s.top.icache (s.top.core.ireq i.pins) _).data = _
  rw [ICache.iresp_data hp.isCached, hdata]
  rfl

/-- Whenever fetch has a word for decode, it is the word at the pc. -/
theorem SimTop.FetchOk.dataFRawInstr (h : s.FetchOk P prog) (hp : s.ReadsProgram i P prog)
    (hf : s.top.core.csrFlush i.pins = false)
    (hok : s.top.core.iDataOk (s.top.coreIn (s.topIn i)) = true) :
    P s.top.core.fetch.pc ∧ s.top.core.fetch.dataFRawInstr (s.top.iresp (s.topIn i)) =
      instrWord prog s.top.core.fetch.pc := by
  cases hd : (s.top.iresp (s.topIn i)).dataOk with
  | true =>
    rw [Fetch.dataFRawInstr, if_pos hd]
    exact h.iresp hp hd
  | false =>
    rw [Fetch.dataFRawInstr, hd, if_neg Bool.false_ne_true]
    exact h.latched (Core.not_asked hf hok hd)

/-- The cache keeps the program. -/
theorem SimTop.FetchOk.step_coherent (h : s.FetchOk P prog) (hg : s.top.GrantOk s.ram.beat)
    (hf : s.top.FetchBurst) (hr : i.reset = false) (hp : s.ReadsProgram i P prog)
    (hkeep : ∀ pc, P pc → (s.step i).ram.word (wordOf pc) = prog (wordOf pc)) :
    Cache.Coherent (s.step i).top.icache ((s.step i).grantBeat 1) (s.step i).ram.word
      prog (InProgram P) := by
  have hword : ∀ a, InProgram P a → (s.step i).ram.word a.word = s.ram.word a.word := by
    intro a ha
    rw [hp.word ha]
    obtain ⟨pc, hpc, rfl⟩ := ha
    rw [word_reqAddr (by omega) (hp.range pc hpc).2]
    exact hkeep pc hpc
  rw [step_grantBeat_icache hg (answered hg i (hf.not_withdraws i.pins)) hr]
  change Cache.Coherent (ICache.step _ i.reset _ _) _ _ _ _
  rw [hr]
  refine h.coherent.step (by omega) (by omega) (ICache.mayMiss _ _ _) (fun hm => ?_)
    (SimTop.drives_icache.served h.coherent.refill h.coherent.lines (by omega))
    (fun a ha => SimTop.drives_icache.writtenAt h.coherent.refill h.coherent.lines (by omega) hr
      fun _ => hword a ha)
    (fun a _ => ?_)
  · simp only [ICache.fsmToMiss, Bool.and_eq_true] at hm
    exact hp.isCached hm.1.2
  · -- a fetch stores nothing
    rw [Cache.storedAt]
    split
    · exact (mergeBytes_none _ _).symm
    · rfl

/-- A fetch that hits waits for its word. -/
theorem SimTop.FetchOk.step_arrived (h : s.FetchOk P prog) (hr : i.reset = false)
    (hp : s.ReadsProgram i P prog) (hd : (s.step i).top.icache.drespDataOk = true) :
    (s.step i).top.core.fetch.icacheReqO = true ∧ P (s.step i).top.core.fetch.pc ∧
      (s.step i).top.icache.hitRdata = prog (wordOf (s.step i).top.core.fetch.pc) := by
  obtain ⟨hhit, hreq, hpc⟩ := step_waits hr hd
  have hP := hp.asked (ICache.valid_of_fsmToHit hhit)
  rw [hpc]
  exact ⟨hreq, hP, (h.coherent.step_hitRdata hhit ⟨_, hP, rfl⟩ _).trans
    (congrArg prog (word_reqAddr (by omega) (hp.range _ hP).2))⟩

/-- A word that decode does not take is latched, and the pc stays. -/
theorem SimTop.FetchOk.step_latched (h : s.FetchOk P prog) (hr : i.reset = false)
    (hp : s.ReadsProgram i P prog) (hreq : (s.step i).top.core.fetch.icacheReqO = false) :
    P (s.step i).top.core.fetch.pc ∧
      (s.step i).top.core.fetch.rawInstr = instrWord prog (s.step i).top.core.fetch.pc := by
  obtain ⟨hf, hok, hpc, hraw⟩ := step_latches hr hreq
  rw [hpc, hraw]
  exact h.dataFRawInstr hp hf hok

/-- One cycle of the fetch path. -/
theorem SimTop.FetchOk.step (h : s.FetchOk P prog) (hg : s.top.GrantOk s.ram.beat)
    (hf : s.top.FetchBurst) (hr : i.reset = false) (hp : s.ReadsProgram i P prog)
    (hkeep : ∀ pc, P pc → (s.step i).ram.word (wordOf pc) = prog (wordOf pc)) :
    (s.step i).FetchOk P prog where
  coherent := h.step_coherent hg hf hr hp hkeep
  arrived := h.step_arrived hr hp
  latched := h.step_latched hr hp

/-- After a reset nothing has arrived, and the first word is asked for. -/
theorem SimTop.fetchOk_of_reset (s : SimTop) (hr : i.reset = true)
    (hrange : ∀ pc, P pc → 0x80000000 ≤ pc.toNat ∧ pc.toNat < 0x100000000)
    (hro : ∀ pc, P pc → (s.step i).ram.word (wordOf pc) = prog (wordOf pc)) :
    (s.step i).FetchOk P prog := by
  obtain ⟨hk, hasked, hcache⟩ := s.step_fetch_reset hr
  refine ⟨?_, fun hd => ?_, fun hreq => ?_⟩
  · rw [hk, hcache]
    refine ⟨Cache.refillOk_of_reset _ _ _ _, Cache.linesCached_of_reset _ _ _ _, fun a ha => ?_⟩
    obtain ⟨pc, hpc, rfl⟩ := ha
    rw [word_reqAddr (by omega) (hrange pc hpc).2, hro pc hpc]
    exact Cache.holds_of_reset _ _ _ _ _ _
  · rw [hcache] at hd
    cases hd
  · exact absurd (hasked.symm.trans hreq) (by simp)

end Fetch

/-! ## Runs -/

section Run

variable {s : ℕ → SimTop} {i : ℕ → SimTopIn}

/-- The pc asked for in cycle `u`, if any, is in `[2^31, 2^32)`. -/
def SimTop.FetchInRange (s : ℕ → SimTop) (i : ℕ → SimTopIn) (u : ℕ) : Prop :=
  ((s u).top.core.ireq (i u).pins).valid = true →
    0x80000000 ≤ (s u).top.core.fetch.pc.toNat ∧ (s u).top.core.fetch.pc.toNat < 0x100000000

/-- In cycles `v` and `t` memory holds the same word at the pc asked for in cycle `u`. -/
def SimTop.FetchReadOnly (s : ℕ → SimTop) (i : ℕ → SimTopIn) (t u v : ℕ) : Prop :=
  ((s u).top.core.ireq (i u).pins).valid = true →
    (s v).ram.word (wordOf (s u).top.core.fetch.pc) =
      (s t).ram.word (wordOf (s u).top.core.fetch.pc)

instance (u : ℕ) : Decidable (SimTop.FetchInRange s i u) := inferInstanceAs (Decidable (_ → _))

instance (t u v : ℕ) : Decidable (SimTop.FetchReadOnly s i t u v) :=
  inferInstanceAs (Decidable (_ → _))

/-- The invariant of a run that reads its program from read-only memory. -/
theorem SimTop.IsRun.fetchOk (h : SimTop.IsRun s i) {P : BitVec 64 → Prop}
    {prog : BitVec 61 → BitVec 64} (t : ℕ) (hp : ∀ u ≤ t, (s u).ReadsProgram (i u) P prog) :
    (s t).FetchOk P prog := by
  induction t with
  | zero =>
    have hp0 := hp 0 (Nat.le_refl 0)
    obtain ⟨x, j, hj, hs⟩ := h.start
    rw [hs] at hp0 ⊢
    exact x.fetchOk_of_reset hj hp0.range hp0.readOnly
  | succ t ih =>
    have hr : (i t).reset = false := Bool.eq_false_iff.mpr (h.noReset t)
    obtain ⟨hg, hf⟩ := h.grantOk_of_cached t fun u hu => (hp u (by omega)).isCached
    have hkeep := (hp (t + 1) (Nat.le_refl _)).readOnly
    rw [h.next t] at hkeep ⊢
    exact (ih fun u hu => hp u (by omega)).step hg hf hr (hp t (by omega)) hkeep

/-- Whenever `fd` takes a word, it is the word of memory at its pc. -/
theorem SimTop.IsRun.captures_word_at_pc (h : SimTop.IsRun s i) (t : ℕ)
    (hrange : ∀ u ≤ t, FetchInRange s i u) (hro : ∀ u ≤ t, ∀ v ≤ t, FetchReadOnly s i t u v)
    (hc : (s t).top.core.Captures ((s t).top.coreIn ((s t).topIn (i t)))) :
    (s (t + 1)).top.core.fd.rawInstr =
      instrWord (s t).ram.word (s (t + 1)).top.core.fd.pcO := by
  -- `P` holds the pcs asked for up to cycle `t`
  have hp : ∀ v ≤ t, (s v).ReadsProgram (i v)
      (fun pc => ∃ u ≤ t, ((s u).top.core.ireq (i u).pins).valid = true ∧
        (s u).top.core.fetch.pc = pc) (s t).ram.word := by
    intro v hv
    refine ⟨fun hask => ⟨v, hv, hask, rfl⟩, ?_, ?_⟩
    · rintro pc ⟨u, hu, hask, rfl⟩
      exact hrange u hu hask
    · rintro pc ⟨u, hu, hask, rfl⟩
      exact hro u hu v hv hask
  obtain ⟨hok, hfd⟩ := hc.front
  have hflush := Core.csrFlush_of_pipeReset hc.1
  have hnext : (s (t + 1)).top.core.fd =
      (s t).top.core.dataF ((s t).top.coreIn ((s t).topIn (i t))) := by
    rw [h.next t]
    exact hfd
  rw [hnext]
  exact ((h.fetchOk t hp).dataFRawInstr (hp t (Nat.le_refl t)) hflush hok).2

end Run

/-! ## An example run -/

/-- `addi x1, x0, 5` and `addi x1, x1, 1`. -/
def twoAdds : List (BitVec 32) := [0x00500093#32, 0x00108093#32]

theorem twoAdds_word_at_pc :
    (SimTop.boot twoAdds .low 7).top.core.fd.rawInstr =
      instrWord (SimTop.boot twoAdds .low 6).ram.word (SimTop.boot twoAdds .low 7).top.core.fd.pcO :=
  (SimTop.boot_isRun twoAdds .low).captures_word_at_pc 6 (by decide +kernel) (by decide +kernel)
    (by decide +kernel)

end RiscvCpu
