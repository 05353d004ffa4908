import RiscvCpu.Records

/-!
# Loads and stores are issued

The memory stage on its own, with instruction and data ports that answer as they
like.  Every load or store that leaves `em` was presented on the data port and
accepted there, and no record in `em` is dropped, as long as no second load or
store stands in `em` while the state machine is in `MEMORY01`.  In that state the
request of `dataM1` is driven and `em` is not held, so the second one is moved on
without having been presented.
-/

namespace RiscvCpu

/-! ## What is asked of the memory stage -/

section Issue

variable (s : ℕ → Core) (i : ℕ → CoreIn)

/-- The record in `em` leaves in this cycle, and not because of a flush. -/
def Core.Leaves (c : Core) (j : CoreIn) : Prop := c.pipeReset j = false ∧ c.stallDataOk j = false

/-- The record in `em` is held in this cycle. -/
def Core.Holds (c : Core) (j : CoreIn) : Prop := c.pipeReset j = false ∧ c.stallDataOk j = true

/-- The request of a record is driven on the data port and accepted. -/
def Core.Presents (c : Core) (j : CoreIn) (e : ExecuteData) : Prop :=
  c.dreq j.pins = e.dataMtmp.dreq true ∧ j.dresp.addrOk = true

/-- The record in `em` in cycle `t` has been presented in some cycle it spent there. -/
def Core.Issued (t : ℕ) : Prop :=
  ∃ u ≤ t, (∀ v, u ≤ v → v < t → (s v).Holds (i v)) ∧ (s u).Presents (i u) (s t).em

/-- The record in `em` in cycle `t` is found in `dataM1` in the next. -/
def Core.PassedOn (t : ℕ) : Prop :=
  ∃ x, (s (t + 1)).memory.dataM1 = { (s t).em.dataMtmp with memrData := x }

/-- A load or store stands in `em` while `dataM1` is driven after an accepted
request. -/
def Core.Adjacent (c : Core) (j : CoreIn) : Prop :=
  c.pipeReset j = false ∧ c.memory.state = .memory01 ∧ c.em.instr.ctl.isMem = true

end Issue

instance (c : Core) (j : CoreIn) : Decidable (c.Leaves j) := inferInstanceAs (Decidable (_ ∧ _))

instance (c : Core) (j : CoreIn) (e : ExecuteData) : Decidable (c.Presents j e) :=
  inferInstanceAs (Decidable (_ ∧ _))

instance (c : Core) (j : CoreIn) : Decidable (c.Adjacent j) := inferInstanceAs (Decidable (_ ∧ _))

/-! ## The invariant -/

/-- The states that wait for the request in `em` have one there. -/
def Core.Waiting (c : Core) : Prop :=
  c.memory.state = .memory10 ∨ c.memory.state = .memory11 → c.em.instr.ctl.isMem = true

section Step

variable {c : Core} {i : CoreIn}

theorem Core.waiting_of_pipeReset (hr : c.pipeReset i = true) : (c.step i).Waiting := by
  intro h
  rw [(step_pipeReset hr).2.2.2.1] at h
  rcases h with h | h <;> cases h

/-- A load or store in execute moves on to `em` when `em` is free. -/
theorem Core.Decoded.step_em_isMem (hd : c.Decoded) (hr : c.pipeReset i = false)
    (hs : c.stallDataOk i = false) (hm : c.dataE.instr.ctl.isMem = true) :
    (c.step i).em.instr.ctl.isMem = true := by
  rw [step_em hr, hs, hd.not_multicycleDoing hm]
  exact hm

theorem Core.Waiting.step (h : c.Waiting) (hd : c.Decoded) (hadj : ¬c.Adjacent i) :
    (c.step i).Waiting := by
  cases hr : c.pipeReset i with
  | true => exact waiting_of_pipeReset hr
  | false =>
    intro hst'
    have hstall := stallDataOk_eq hr
    rw [step_memory hr] at hst'
    cases hst : c.memory.state with
    | idle =>
      rw [Memory.step_idle hst] at hst'
      rw [Memory.stallDataOk_idle hst] at hstall
      cases hm : c.em.instr.ctl.isMem with
      | false =>
        rw [hm] at hst'
        rcases hst' with h' | h' <;> cases h'
      | true =>
        cases ha : i.dresp.addrOk with
        | true =>
          rw [hm, ha] at hst'
          rcases hst' with h' | h' <;> cases h'
        | false =>
          rw [hm, ha] at hstall
          rw [step_em hr, hstall]
          exact hm
    | memory01 =>
      have hm : c.em.instr.ctl.isMem = false := by
        by_contra hne
        exact hadj ⟨hr, hst, Bool.not_eq_false _ ▸ hne⟩
      rw [Memory.step_memory01 hst, hm] at hst'
      rcases hst' with h' | h' <;> cases h'
    | memory10 =>
      have hm := h (.inl hst)
      rw [Memory.step_memory10 hst hm] at hst'
      rw [Memory.stallDataOk_memory10 hst] at hstall
      cases ha : i.dresp.addrOk with
      | false =>
        rw [ha] at hstall
        rw [step_em hr, hstall]
        exact hm
      | true =>
        rw [ha] at hstall hst'
        cases hm2 : c.dataE.instr.ctl.isMem with
        | true => exact hd.step_em_isMem hr hstall hm2
        | false =>
          rw [hm2] at hst'
          cases hb : c.em.aluout.getLsbD 31 <;> rw [hb] at hst' <;>
            rcases hst' with h' | h' <;> cases h'
    | memory11 =>
      rw [Memory.stallDataOk_memory11 hst] at hstall
      rw [step_em hr, hstall]
      exact h (.inr hst)

/-- A load or store that leaves `em` is presented and accepted in the cycle it
leaves. -/
theorem Core.Leaves.presents (hl : c.Leaves i) (hadj : ¬c.Adjacent i)
    (hm : c.em.instr.ctl.isMem = true) : c.Presents i c.em := by
  obtain ⟨hr, hs⟩ := hl
  rw [stallDataOk_eq hr] at hs
  have hw := csrFlush_of_pipeReset hr
  cases hst : c.memory.state with
  | idle =>
    rw [Memory.stallDataOk_idle hst, hm, Bool.true_and, Bool.not_eq_false'] at hs
    refine ⟨?_, hs⟩
    rw [Core.dreq, Memory.dreq, Memory.drivesM1, hst, hw, hm]
    rfl
  | memory01 => exact absurd ⟨hr, hst, hm⟩ hadj
  | memory10 =>
    rw [Memory.stallDataOk_memory10 hst, Bool.not_eq_false'] at hs
    refine ⟨?_, hs⟩
    rw [Core.dreq, Memory.dreq, Memory.drivesM1, hst, hw, hm]
    rfl
  | memory11 =>
    rw [Memory.stallDataOk_memory11 hst] at hs
    cases hs

/-- A record that leaves `em` is loaded into `dataM1`. -/
theorem Core.Waiting.step_dataM1 (h : c.Waiting) (hl : c.Leaves i) :
    ∃ x, (c.step i).memory.dataM1 = { c.em.dataMtmp with memrData := x } := by
  obtain ⟨hr, hs⟩ := hl
  rw [stallDataOk_eq hr] at hs
  rw [step_memory hr]
  cases hst : c.memory.state with
  | idle =>
    rw [Memory.stallDataOk_idle hst] at hs
    rw [Memory.step_idle hst]
    cases hm : c.em.instr.ctl.isMem with
    | false => exact ⟨0, rfl⟩
    | true =>
      rw [hm, Bool.true_and, Bool.not_eq_false'] at hs
      rw [hs]
      exact ⟨0, rfl⟩
  | memory01 =>
    rw [Memory.step_memory01 hst]
    split
    · exact ⟨0, rfl⟩
    · exact ⟨0, rfl⟩
  | memory10 =>
    rw [Memory.stallDataOk_memory10 hst, Bool.not_eq_false'] at hs
    rw [Memory.step_memory10 hst (h (.inl hst)), hs, if_pos rfl]
    split
    · exact ⟨0, rfl⟩
    · exact ⟨i.dresp.data, rfl⟩
  | memory11 =>
    rw [Memory.stallDataOk_memory11 hst] at hs
    cases hs

end Step

/-! ## Runs -/

section Run

variable {s : ℕ → Core} {i : ℕ → CoreIn}

theorem Core.IsRun.waiting (h : Core.IsRun s i) (t : ℕ)
    (hadj : ∀ u < t, ¬(s u).Adjacent (i u)) : (s t).Waiting := by
  induction t with
  | zero =>
    obtain ⟨x, j, hj, hs⟩ := h.start
    rw [hs]
    exact waiting_of_pipeReset (pipeReset_of_reset hj)
  | succ t ih =>
    rw [h.next t]
    exact (ih fun u hu => hadj u (by omega)).step (h.decoded t) (hadj t (by omega))

/-- In a run that never has a load or store in `em` in the state `MEMORY01`, every
load or store that leaves `em` has been presented and accepted, and every record
that leaves `em` is passed on. -/
theorem Core.IsRun.every_access_issued (h : Core.IsRun s i) (t : ℕ)
    (hadj : ∀ u ≤ t, ¬(s u).Adjacent (i u)) (hl : (s t).Leaves (i t)) :
    ((s t).em.instr.ctl.isMem = true → Core.Issued s i t) ∧ Core.PassedOn s t := by
  have hw := h.waiting t fun u hu => hadj u (by omega)
  refine ⟨fun hm => ⟨t, Nat.le_refl t, fun v h1 h2 => ?_, ?_⟩, ?_⟩
  · omega
  · exact hl.presents (hadj t (Nat.le_refl t)) hm
  · unfold Core.PassedOn
    rw [h.next t]
    exact hw.step_dataM1 hl

end Run

/-! ## Ports that answer in every cycle -/

/-- The inputs `mycpu_top_nodelay` gives a core: both ports answer in every cycle. -/
def Core.nodelayIn (program : List (BitVec 32)) (c : Core) : CoreIn where
  reset := false
  iresp :=
    let word := programWord program (wordOf (c.ireq .low).addr)
    ⟨true, true,
      if (c.ireq .low).addr.getLsbD 2 then word.extractLsb' 32 32 else word.extractLsb' 0 32⟩
  dresp := ⟨true, true, programWord program (wordOf (c.dreq .low).addr)⟩
  pins := .low

/-- The run of a program on such ports. -/
def Core.nodelay (program : List (BitVec 32)) : ℕ → Core
  | 0 => Core.clear.step { Core.nodelayIn program .clear with reset := true }
  | t + 1 => (Core.nodelay program t).step ((Core.nodelay program t).nodelayIn program)

theorem Core.nodelay_isRun (program : List (BitVec 32)) :
    Core.IsRun (nodelay program) fun t => (nodelay program t).nodelayIn program where
  start := ⟨_, _, rfl, rfl⟩
  noReset _ := Bool.false_ne_true
  next _ := rfl

/-- `auipc x2, 0`, then loads from the address in `x2` and the word behind it. -/
def adjacentLoads : List (BitVec 32) := [0x00000117#32, 0x00012083#32, 0x00812183#32]

/-- The second load leaves `em` without having been presented, and the instruction
behind it is dropped. -/
theorem adjacentLoads_lost :
    Core.IsRun (Core.nodelay adjacentLoads)
      (fun t => (Core.nodelay adjacentLoads t).nodelayIn adjacentLoads) ∧
    (Core.nodelay adjacentLoads 5).Leaves
      ((Core.nodelay adjacentLoads 5).nodelayIn adjacentLoads) ∧
    (Core.nodelay adjacentLoads 5).em.instr.ctl.memrEn = true ∧
    ¬Core.Issued (Core.nodelay adjacentLoads)
      (fun t => (Core.nodelay adjacentLoads t).nodelayIn adjacentLoads) 5 ∧
    (Core.nodelay adjacentLoads 6).Leaves
      ((Core.nodelay adjacentLoads 6).nodelayIn adjacentLoads) ∧
    ¬Core.PassedOn (Core.nodelay adjacentLoads) 6 := by
  have hnever : ∀ u ≤ 5, ¬(Core.nodelay adjacentLoads u).Presents
      ((Core.nodelay adjacentLoads u).nodelayIn adjacentLoads)
      (Core.nodelay adjacentLoads 5).em := by
    decide +kernel
  have hdropped : (Core.nodelay adjacentLoads 7).memory.dataM1.instr.op ≠
      (Core.nodelay adjacentLoads 6).em.instr.op := by
    decide +kernel
  refine ⟨Core.nodelay_isRun adjacentLoads, by decide +kernel, by decide +kernel, ?_,
    by decide +kernel, ?_⟩
  · rintro ⟨u, hu, _, hp⟩
    exact hnever u hu hp
  · rintro ⟨x, hx⟩
    exact hdropped (by rw [hx]; rfl)

/-- `auipc x2, 0` and one load. -/
def oneLoad : List (BitVec 32) := [0x00000117#32, 0x00012083#32]

theorem oneLoad_issued :
    Core.Issued (Core.nodelay oneLoad) (fun t => (Core.nodelay oneLoad t).nodelayIn oneLoad) 4 :=
  ((Core.nodelay_isRun oneLoad).every_access_issued 4 (by decide +kernel)
    (by decide +kernel)).1 (by decide +kernel)

end RiscvCpu
