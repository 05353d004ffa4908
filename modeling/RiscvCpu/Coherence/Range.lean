import RiscvCpu.Coherence.Memory

/-!
# Lines in a range

A cache that is asked for addresses of one range deals in lines of that range alone: in
those it holds, in the one it loads, and in the one it writes back.  `Cache.LinesCached` is
the case of the addresses with bit 31 set.
-/

namespace RiscvCpu

section Lines

variable {ib : Nat} {s : Cache ib} {dreq : DbusReq} {cresp : CbusResp} {fsmToMiss : Bool}
  {P : BitVec 64 → Prop} {k : ℕ}

/-- The range is one of whole lines. -/
def WholeLines (ib : Nat) (P : BitVec 64 → Prop) : Prop :=
  ∀ a b : ReqAddr ib, a.tag = b.tag → a.index = b.index → P a.addr → P b.addr

/-- The lines of the cache are in the range. -/
structure Cache.LinesIn (s : Cache ib) (P : BitVec 64 → Prop) : Prop where
  resident : ∀ w a, s.Resident w a → P a.addr
  burst : s.missState ≠ .idle → P s.creqAddr.addr
  evicted : ∀ a, s.Evicted a → P a.addr

theorem Cache.linesIn_of_reset (s : Cache ib) (dreq : DbusReq) (cresp : CbusResp)
    (fsmToMiss : Bool) (P : BitVec 64 → Prop) : (s.step dreq cresp fsmToMiss true).LinesIn P := by
  constructor
  · intro w a hw
    cases hw.1
  · intro hne
    exact absurd rfl hne
  · intro a hev
    rcases hev.2.2 with ⟨h, _⟩ | h
    · cases h
    · cases h

/-- A refill that is done goes on with the displaced line. -/
theorem Cache.LinesIn.burst_step (h : s.LinesIn P) (hP : WholeLines ib P) (hk : s.RefillOk k)
    (hn : (s.step dreq cresp false false).missState ≠ .idle) :
    P (s.step dreq cresp false false).creqAddr.addr := by
  cases hs : s.missState with
  | idle => exact absurd (step_of_idle _ _ hs) hn
  | load =>
    obtain ⟨hst, hca, _⟩ := step_of_load dreq cresp hs
    rw [hst] at hn
    rw [hca]
    cases hl : cresp.last with
    | false => exact h.burst (ne_idle_of_load hs)
    | true =>
      rw [hl, if_pos rfl] at hn
      split at hn
      · rename_i hd
        simp only [Bool.and_eq_true] at hd
        have hev : s.Evicted ⟨s.wbTag, s.missAddr.index, 0⟩ := ⟨rfl, rfl, .inl ⟨hs, hd⟩⟩
        rw [if_pos rfl]
        exact hP ⟨s.wbTag, s.missAddr.index, 0⟩ _ rfl (hk.index (ne_idle_of_load hs))
          (h.evicted _ hev)
      · exact absurd rfl hn
  | writeback =>
    rw [(step_of_writeback _ _ hs).2.1]
    exact h.burst (ne_idle_of_writeback hs)

/-- A request in the range keeps the lines in the range. -/
theorem Cache.LinesIn.step (h : s.LinesIn P) (hP : WholeLines ib P) (hk : s.RefillOk k)
    (hm : s.MayMiss dreq cresp fsmToMiss)
    (hreq : fsmToMiss = true → P (reqAddr ib dreq.addr).addr) :
    (s.step dreq cresp fsmToMiss false).LinesIn P := by
  cases hf : fsmToMiss with
  | true =>
    subst hf
    constructor
    · intro w a hw
      rw [hm.step_resident] at hw
      split at hw
      · rename_i hc
        exact hP _ _ hw.symm hc.1.symm (hreq rfl)
      · exact h.resident w a hw
    · intro _
      exact hreq rfl
    · intro a hev
      exact h.resident _ a (resident_of_evicted_start hev).1
  | false =>
    constructor
    · intro w a hw
      exact h.resident w a ((step_resident rfl w a).mp hw)
    · intro hn
      exact h.burst_step hP hk hn
    · intro a hev
      exact h.evicted a (evicted_of_step hev)

end Lines

end RiscvCpu
