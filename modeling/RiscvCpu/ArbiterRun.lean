import RiscvCpu.Arbiter
import RiscvCpu.Sync.Run

/-!
# Runs of the arbiter

A transaction starts with a grant, the edge on which an idle arbiter becomes
busy, and lasts until the first `last` the arbiter passes on.  Over any run the
arbiter keeps transactions whole: the granted input alone sees the responses,
all of them, and its request is the one sent downstream.  A requester that keeps
its burst has it kept downstream; the data of a write moves on with the beats.
-/

namespace RiscvCpu

/-! ## Requests -/

/-- The two requests ask for the same burst. -/
structure CbusReq.SameBurst (a b : CbusReq) : Prop where
  isWrite : a.isWrite = b.isWrite
  size : a.size = b.size
  addr : a.addr = b.addr
  len : a.len = b.len
  burst : a.burst = b.burst

theorem CbusReq.SameBurst.refl (a : CbusReq) : a.SameBurst a := ⟨rfl, rfl, rfl, rfl, rfl⟩

theorem CbusReq.SameBurst.symm {a b : CbusReq} (h : a.SameBurst b) : b.SameBurst a :=
  ⟨h.isWrite.symm, h.size.symm, h.addr.symm, h.len.symm, h.burst.symm⟩

theorem CbusReq.SameBurst.trans {a b c : CbusReq} (h : a.SameBurst b) (h' : b.SameBurst c) :
    a.SameBurst c :=
  ⟨h.isWrite.trans h'.isWrite, h.size.trans h'.size, h.addr.trans h'.addr, h.len.trans h'.len,
    h.burst.trans h'.burst⟩

/-! ## Selection -/

section Select

variable {maxIndex : Nat} (ireqs : Fin (maxIndex + 1) → CbusReq)

/-- The selected input has no valid input below it. -/
theorem select_lowest {i : Fin (maxIndex + 1)} (hi : i < select ireqs) :
    (ireqs i).valid = false := by
  unfold select at hi
  cases hf : (List.finRange (maxIndex + 1)).find? fun i => (ireqs i).valid with
  | none =>
    rw [hf] at hi
    exact absurd hi (Nat.not_lt_zero i.val)
  | some j =>
    rw [hf] at hi
    obtain ⟨_, n, hn, hj, hbefore⟩ := List.find?_eq_some_iff_getElem.mp hf
    simp only [Option.getD_some] at hi
    simp only [List.getElem_finRange, Fin.ext_iff] at hj
    have hlt : i.val < n := by
      have := Fin.lt_def.mp hi
      simp only [Fin.val_cast] at hj
      omega
    have := hbefore i.val hlt
    simpa using this

end Select

/-! ## Runs -/

/-- The inputs of `CBusArbiter`. -/
structure CBusArbiterIn (maxIndex : Nat) where
  reset : Bool
  ireqs : Fin (maxIndex + 1) → CbusReq
  oresp : CbusResp

/-- `s` is a run of `CBusArbiter` from reset. -/
def CBusArbiter.IsRun {maxIndex : Nat} (s : ℕ → CBusArbiter maxIndex)
    (i : ℕ → CBusArbiterIn maxIndex) : Prop :=
  Sync.FromReset (fun x j => x.step j.ireqs j.oresp j.reset) (fun j => j.reset = true) s i

section Run

variable {maxIndex : Nat} {s : ℕ → CBusArbiter maxIndex} {i : ℕ → CBusArbiterIn maxIndex}

/-- Input `j` is granted at the end of cycle `g`. -/
def CBusArbiter.Grants (s : ℕ → CBusArbiter maxIndex) (g : ℕ) (j : Fin (maxIndex + 1)) : Prop :=
  (s g).busy = false ∧ (s (g + 1)).busy = true ∧ (s (g + 1)).index = j

/-- Cycle `t` belongs to the transaction of input `j` granted in cycle `g`: no
`last` was passed on before it. -/
def CBusArbiter.Serves (s : ℕ → CBusArbiter maxIndex) (i : ℕ → CBusArbiterIn maxIndex) (g : ℕ)
    (j : Fin (maxIndex + 1)) (t : ℕ) : Prop :=
  Grants s g j ∧ g < t ∧ ∀ u, g < u → u < t → (i u).oresp.last = false

/-- A requester keeps its request as long as it is granted: it stays valid and asks for the
same burst. -/
def CBusArbiter.Keeps (s : ℕ → CBusArbiter maxIndex) (i : ℕ → CBusArbiterIn maxIndex) : Prop :=
  ∀ t, (s (t + 1)).busy = true →
    ((i (t + 1)).ireqs (s (t + 1)).index).valid = true ∧
      ((i t).ireqs (s (t + 1)).index).SameBurst ((i (t + 1)).ireqs (s (t + 1)).index)

/-- The ready beats among the responses of cycles `a` to `b`, `b` excluded. -/
def readyBeats (resp : ℕ → CbusResp) (a b : ℕ) : List CbusResp :=
  (Sync.window resp a b).filter fun r => r.ready

/-- A single ready beat, in the last cycle. -/
theorem readyBeats_single {resp : ℕ → CbusResp} {a b : ℕ} (hab : a ≤ b)
    (hno : ∀ u, a ≤ u → u < b → (resp u).ready = false) (hb : (resp b).ready = true) :
    readyBeats resp a (b + 1) = [resp b] := by
  have hnil : (Sync.window resp a b).filter (fun r => r.ready) = [] := by
    refine List.filter_eq_nil_iff.mpr fun r hr => ?_
    obtain ⟨u, hu, rfl⟩ := List.mem_map.mp hr
    obtain ⟨h1, h2⟩ := List.mem_range'_1.mp hu
    rw [hno u h1 (by omega)]
    exact Bool.false_ne_true
  rw [readyBeats, Sync.window_succ hab, List.filter_append, hnil, List.nil_append,
    List.filter_singleton, hb]
  rfl

theorem CBusArbiter.IsRun.reset_idle (h : IsRun s i) : (s 0).busy = false := by
  obtain ⟨x, j, hj, hs⟩ := h.start
  rw [hs, step, if_pos hj]

/-- A busy arbiter waits for `last`. -/
theorem CBusArbiter.IsRun.step_busy (h : IsRun s i) {t : ℕ} (hb : (s t).busy = true) :
    s (t + 1) = if (i t).oresp.last then { s t with busy := false, savedReq := 0 } else s t := by
  have hr : (i t).reset = false := Bool.eq_false_iff.mpr (h.noReset t)
  have hn := h.next t
  simpa only [step, hr, hb, Bool.false_eq_true, if_false, if_true] using hn

/-- An idle arbiter takes the selected request. -/
theorem CBusArbiter.IsRun.step_idle (h : IsRun s i) {t : ℕ} (hb : (s t).busy = false) :
    s (t + 1) = ⟨((i t).ireqs (select (i t).ireqs)).valid, select (i t).ireqs,
      (i t).ireqs (select (i t).ireqs)⟩ := by
  have hr : (i t).reset = false := Bool.eq_false_iff.mpr (h.noReset t)
  have hn := h.next t
  simpa only [step, hr, hb, Bool.false_eq_true, if_false] using hn

/-- A grant goes to the lowest valid input. -/
theorem CBusArbiter.IsRun.grants_lowest (h : IsRun s i) {g : ℕ} {j : Fin (maxIndex + 1)}
    (hg : Grants s g j) :
    ((i g).ireqs j).valid = true ∧ ∀ k < j, ((i g).ireqs k).valid = false := by
  obtain ⟨hidle, hbusy, hindex⟩ := hg
  rw [h.step_idle hidle] at hbusy hindex
  simp only at hbusy hindex
  subst hindex
  exact ⟨hbusy, fun k hk => select_lowest _ hk⟩

/-- Through its whole transaction the arbiter is busy with the granted input and
remembers the request of the grant. -/
theorem CBusArbiter.IsRun.serves_state (h : IsRun s i) {g t : ℕ} {j : Fin (maxIndex + 1)}
    (hs : Serves s i g j t) : s t = ⟨true, j, (i g).ireqs j⟩ := by
  obtain ⟨⟨hidle, hbusy, hindex⟩, hgt, hlast⟩ := hs
  induction t with
  | zero => omega
  | succ t ih =>
    rcases Nat.lt_or_ge g t with hlt | hge
    · have hst := ih hlt fun u hu hut => hlast u hu (by omega)
      rw [h.step_busy (by rw [hst]), hlast t hlt (by omega), hst]
      rfl
    · obtain rfl : g = t := by omega
      rw [h.step_idle hidle] at hbusy hindex ⊢
      simp only at hbusy hindex
      rw [hbusy, hindex]

/-- A requester that keeps its request is valid through the whole transaction, with the burst it
was granted for. -/
theorem CBusArbiter.IsRun.serves_keeps (h : IsRun s i) (hk : Keeps s i) {g t : ℕ}
    {j : Fin (maxIndex + 1)} (hs : Serves s i g j t) :
    ((i t).ireqs j).valid = true ∧ ((i g).ireqs j).SameBurst ((i t).ireqs j) := by
  have hst := h.serves_state hs
  obtain ⟨hg, hgt, hlast⟩ := hs
  induction t with
  | zero => omega
  | succ t ih =>
    have hkt := hk t
    rw [hst] at hkt
    obtain ⟨hv, hsame⟩ := hkt rfl
    refine ⟨hv, ?_⟩
    rcases Nat.lt_or_ge g t with hlt | hge
    · have hlast' : ∀ u, g < u → u < t → (i u).oresp.last = false :=
        fun u hu hut => hlast u hu (by omega)
      exact (ih (h.serves_state ⟨hg, hlt, hlast'⟩) hlt hlast').2.trans hsame
    · obtain rfl : g = t := by omega
      exact hsame

/-- Only the granted input of a busy arbiter sees a response. -/
theorem CBusArbiter.iresps_ne_zero {x : CBusArbiter maxIndex} {oresp : CbusResp}
    {j : Fin (maxIndex + 1)} (h : x.iresps oresp j ≠ 0) : x.busy = true ∧ x.index = j := by
  unfold iresps at h
  split at h
  · rename_i hc
    simpa using hc
  · exact absurd rfl h

theorem CBusArbiter.iresps_granted {x : CBusArbiter maxIndex} (oresp : CbusResp)
    (hb : x.busy = true) : x.iresps oresp x.index = oresp := by
  simp [iresps, hb]

/-- A busy arbiter is in some transaction of its index. -/
theorem CBusArbiter.IsRun.busy_serves (h : IsRun s i) {t : ℕ} (hb : (s t).busy = true) :
    ∃ g, Serves s i g (s t).index t := by
  have h0 : ¬(s 0).busy = true := by
    rw [h.reset_idle]
    exact Bool.false_ne_true
  obtain ⟨g, hgt, hidle, hall⟩ :=
    Sync.exists_rise (P := fun u => (s u).busy = true) h0 hb
  -- the index and `last` are followed from the grant up to `t`
  have hlast : ∀ u, g < u → u < t → (i u).oresp.last = false := by
    intro u hu hut
    have hb1 := hall (u + 1) (by omega) (by omega)
    rw [h.step_busy (hall u hu (by omega))] at hb1
    cases hl : (i u).oresp.last with
    | false => rfl
    | true =>
      rw [hl, if_pos rfl] at hb1
      exact absurd hb1 Bool.false_ne_true
  have hindex : ∀ n, g + 1 + n ≤ t → (s (g + 1 + n)).index = (s (g + 1)).index := by
    intro n hn
    induction n with
    | zero => rfl
    | succ n ih =>
      have hstep := h.step_busy (hall (g + 1 + n) (by omega) (by omega))
      rw [hlast (g + 1 + n) (by omega) (by omega), if_neg Bool.false_ne_true] at hstep
      rw [← ih (by omega), ← Nat.add_assoc, hstep]
  refine ⟨g, ⟨Bool.eq_false_iff.mpr hidle, hall (g + 1) (by omega) (by omega), ?_⟩, hgt, hlast⟩
  have := hindex (t - (g + 1)) (by omega)
  rw [show g + 1 + (t - (g + 1)) = t by omega] at this
  exact this.symm

/-- The arbiter keeps transactions whole.  At most one input sees a response.  A
grant goes to the lowest valid input.  Through a transaction the index stands, the
request of the granted input is the one downstream, and this input sees exactly the
ready beats downstream.  No input sees a response outside its own transactions.  If
requesters keep their requests, so does the one downstream. -/
theorem CBusArbiter.IsRun.transactions_whole (h : IsRun s i) :
    (∀ t j k, (s t).iresps (i t).oresp j ≠ 0 → (s t).iresps (i t).oresp k ≠ 0 → j = k) ∧
    (∀ g j, Grants s g j →
      ((i g).ireqs j).valid = true ∧ ∀ k < j, ((i g).ireqs k).valid = false) ∧
    (∀ g j t, Serves s i g j t →
      (s t).busy = true ∧ (s t).index = j ∧ (s t).oreq (i t).ireqs = (i t).ireqs j ∧
      readyBeats (fun u => (s u).iresps (i u).oresp j) (g + 1) (t + 1) =
        readyBeats (fun u => (i u).oresp) (g + 1) (t + 1)) ∧
    (∀ t j, (s t).iresps (i t).oresp j ≠ 0 → ∃ g, Serves s i g j t) ∧
    (Keeps s i → ∀ g j t, Serves s i g j t →
      ((s t).oreq (i t).ireqs).valid = true ∧
        ((i g).ireqs j).SameBurst ((s t).oreq (i t).ireqs)) := by
  have hreq : ∀ g j t, Serves s i g j t → (s t).oreq (i t).ireqs = (i t).ireqs j := by
    intro g j t hs
    rw [h.serves_state hs]
    rfl
  refine ⟨fun t j k hj hk => ?_, fun g j hg => h.grants_lowest hg, fun g j t hs => ?_,
    fun t j hj => ?_, fun hk g j t hs => ?_⟩
  · exact (iresps_ne_zero hj).2.symm.trans (iresps_ne_zero hk).2
  · have hst := h.serves_state hs
    refine ⟨by rw [hst], by rw [hst], hreq g j t hs, ?_⟩
    refine congrArg _ (Sync.window_congr fun u hu hut => ?_)
    have hsu : Serves s i g j u :=
      ⟨hs.1, by omega, fun v hv hvu => hs.2.2 v hv (by omega)⟩
    rw [h.serves_state hsu]
    exact iresps_granted _ rfl
  · obtain ⟨hb, hindex⟩ := iresps_ne_zero hj
    exact hindex ▸ h.busy_serves hb
  · rw [hreq g j t hs]
    exact h.serves_keeps hk hs

end Run

/-! ## An example run -/

/-- Both inputs of an arbiter for two ask all the time, with new data in every cycle, and
every second response is the last of its transaction. -/
def contention (t : ℕ) : CBusArbiterIn 1 where
  reset := false
  ireqs j :=
    { (0 : CbusReq) with
      valid := true
      isWrite := true
      addr := if j = 0 then 0x80000000#64 else 0
      data := BitVec.ofNat 64 t }
  oresp := ⟨true, t % 2 == 0, BitVec.ofNat 64 t⟩

/-- The run of an arbiter under `contention`. -/
def contentionRun : ℕ → CBusArbiter 1 :=
  Sync.runFrom (fun x j => x.step j.ireqs j.oresp j.reset) ⟨false, 0, 0⟩ contention

theorem contentionRun_isRun : CBusArbiter.IsRun contentionRun contention where
  start := ⟨⟨false, 0, 0⟩, ⟨true, fun _ => 0, 0⟩, rfl, rfl⟩
  noReset _ := Bool.false_ne_true
  next _ := rfl

theorem contention_transaction_whole :
    readyBeats (fun u => (contentionRun u).iresps (contention u).oresp 0) 1 3 =
        readyBeats (fun u => (contention u).oresp) 1 3 ∧
      ((contention 0).ireqs 0).SameBurst ((contentionRun 2).oreq (contention 2).ireqs) := by
  have hserves : CBusArbiter.Serves contentionRun contention 0 0 2 := by
    refine ⟨⟨by decide, by decide, by decide⟩, by decide, fun u h0 h2 => ?_⟩
    obtain rfl : u = 1 := by omega
    rfl
  have hkeeps : CBusArbiter.Keeps contentionRun contention := by
    intro t _
    exact ⟨rfl, rfl, rfl, rfl, rfl, rfl⟩
  obtain ⟨_, _, hwhole, _, hsame⟩ := contentionRun_isRun.transactions_whole
  exact ⟨(hwhole 0 0 2 hserves).2.2.2, (hsame hkeeps 0 0 2 hserves).2⟩

end RiscvCpu
