import RiscvCpu.Devices
import RiscvCpu.Hart.Refinement

/-!
# What devices see of the hart

In a run of a program with CSR instructions, `ecall`, `mret` and interrupts devices see the
accesses of the instructions the hart executes, in order, and of at most two more.

An interrupted instruction is one of them.  The hart makes its access, saves its pc in `mepc`,
and makes the access again when the handler returns there.
-/

namespace RiscvCpu

/-! ## One cycle -/

theorem Core.Tracks.de_of_bubble {c : Core} {x : ℕ → Isa.State} {op : ℕ → Op}
    {dev : ℕ → BitVec 64} {g : Places} (h : c.Tracks x op g) (hx : Isa.Stretch x op dev)
    (h0 : c.em.pcAndInstr = 0) : g.de = g.em := by
  by_cases ha : Isa.Ahead op g.em
  · rcases h.em.spans ha with ⟨_, hde⟩ | ⟨his, _⟩
    · exact hde
    · exact absurd h0 (his.ne_zero (hx.encodes _ ha))
  · exact h.em.behind ha

section Cycle

variable {s : SimTop} {i : SimTopIn} {x : ℕ → Isa.State} {op : ℕ → Op} {dev : ℕ → BitVec 64}
  {C : BitVec 64 → BitVec 32 → Prop} {g : Places}

/-- The access a single beat shows is that of the instruction in `em`. -/
theorem SimTop.Hosts.deviceAccess_beat (h : s.Hosts x op dev C g) (hx : Isa.Stretch x op dev)
    (hp : s.Proceeds i) (hdev : s.ReadsDevice i → (s.oresp i).data = dev (x g.em).reads)
    (hbeat : s.top.SingleBeat (s.topIn i)) :
    s.top.core.em.pcAndInstr ≠ 0 ∧
      s.deviceAccess i = (x g.em).deviceAccess (op g.em) dev := by
  obtain ⟨hne, acc, ha⟩ := h.core.access hx hp.orderly hp.noFlush (hp.accessGranted hbeat).isMem
  have hahead := h.core.ahead_em hx hp.orderly hp.noFlush hne
  have hinstr : s.top.core.em.instr = ((op g.em).control (x g.em).instr).instr := by
    rw [hp.orderly.decoded.em.instr]
    exact ((h.core.em_is hx hp.orderly hp.noFlush hne).1.decodes (hx.encodes _ hahead)
      (hx.inBounds _ hahead)).2.1
  refine ⟨hne, hp.deviceAccess_em h.code.clean hbeat ha
    (h.core.em_access hx hp.orderly hp.noFlush hne ha).1 hinstr
    ((hx.inBounds _ hahead).access _ ha) ?_ ?_ hdev⟩
  · rintro msize u rfl
    exact h.core.load_strobe hx hp.orderly hp.noFlush hne ha
  · rintro msize rfl
    exact h.core.store_lanes hx hp.orderly hp.noFlush hne ha

/-- Devices see no access in the cycle of a redirect. -/
theorem SimTop.Hosts.deviceAccess_flush (h : s.Hosts x op dev C g)
    (hw : ¬s.top.Withdraws i.pins) (hf : s.top.core.csrFlush i.pins = true) :
    s.deviceAccess i = none := by
  rw [SimTop.deviceAccess, if_neg]
  intro hacc
  exact not_singleBeat h.grant hw hf ((singleBeat_iff h.grant hw h.code.clean).mpr hacc)

/-- What devices see in a cycle is the access of the instruction that leaves `em`. -/
theorem SimTop.Hosts.deviceAccess_step (h : s.Hosts x op dev C g) (hx : Isa.Stretch x op dev)
    (hp : s.Proceeds i) (hdev : s.ReadsDevice i → (s.oresp i).data = dev (x g.em).reads) :
    let g' := g.next op s.top.core (s.top.coreIn (s.topIn i))
    g'.em = g.em ∧ s.deviceAccess i = none ∨
      g'.em = g.em + 1 ∧ s.deviceAccess i = (x g.em).deviceAccess (op g.em) dev := by
  intro g'
  have hiff := hp.grant.leaves_iff_beat (i := s.topIn i) hp.not_withdraws hp.spaced hp.noReset
  rw [Places.next_em]
  by_cases hbeat : s.top.SingleBeat (s.topIn i)
  · obtain ⟨hne, hacc⟩ := h.deviceAccess_beat hx hp hdev hbeat
    refine .inr ⟨?_, hacc⟩
    rw [(hiff.mpr hbeat).1.2, if_neg Bool.false_ne_true]
    exact (h.core.em_is hx hp.orderly hp.noFlush hne).2
  · have hnone : s.deviceAccess i = none := by
      rw [SimTop.deviceAccess, if_neg fun hacc =>
        hbeat ((singleBeat_iff hp.grant hp.not_withdraws h.code.clean).mpr hacc)]
    cases hst : s.top.core.stallDataOk (s.top.coreIn (s.topIn i)) with
    | true => exact .inl ⟨rfl, hnone⟩
    | false =>
      by_cases hne : s.top.core.em.pcAndInstr = 0
      · exact .inl ⟨h.core.tracks.de_of_bubble hx hne, hnone⟩
      · refine .inr ⟨(h.core.em_is hx hp.orderly hp.noFlush hne).2, hnone.trans ?_⟩
        -- an access to a device would have been a beat
        have hm := h.core.em_isMem hx hp.orderly hp.noFlush hne
        rw [Isa.State.deviceAccess]
        cases ha : Isa.access (op g.em) with
        | none => rfl
        | some acc =>
          have hcached : isCached ((x g.em).addr (op g.em)) = true := by
            by_contra hun
            rw [← (h.core.em_access hx hp.orderly hp.noFlush hne ha).1] at hun
            exact hbeat (hiff.mp ⟨⟨hp.pipeReset, hst⟩, by rw [hm, ha]; rfl,
              Bool.not_eq_true _ ▸ hun⟩)
          cases acc <;> simp [hcached]

end Cycle

/-! ## Runs -/

section Run

variable {ops : BitVec 32 → Op} {dev : ℕ → BitVec 64} {s : ℕ → SimTop} {i : ℕ → SimTopIn}

/-- The access to a device of the instruction before which the program stands. -/
def Isa.State.nextAccess (ops : BitVec 32 → Op) (dev : ℕ → BitVec 64) (y : Isa.State) :
    Option DeviceAccess :=
  y.deviceAccess (ops y.instr) dev

/-- The accesses of the next `n` instructions without redirects. -/
def Isa.State.accesses (ops : BitVec 32 → Op) (dev : ℕ → BitVec 64) (y : Isa.State) (n : ℕ) :
    List DeviceAccess :=
  (List.range n).filterMap fun k => (y.path ops dev k).nextAccess ops dev

/-- The accesses to devices of the instructions the hart has executed before cycle `t`. -/
def SimTop.hartTrace (s : ℕ → SimTop) (i : ℕ → SimTopIn) (ops : BitVec 32 → Op)
    (dev : ℕ → BitVec 64) (t : ℕ) : List DeviceAccess :=
  (List.range t).filterMap fun u =>
    if retires s u then (hart s i ops dev u).prog.nextAccess ops dev else none

theorem filterMap_range_succ {α : Type*} (f : ℕ → Option α) (n : ℕ) :
    (List.range (n + 1)).filterMap f = (List.range n).filterMap f ++ (f n).toList := by
  rw [List.range_succ, List.filterMap_append]
  congr 1

theorem Isa.State.accesses_add (y : Isa.State) (m n : ℕ) :
    y.accesses ops dev (m + n) =
      y.accesses ops dev m ++ (y.path ops dev m).accesses ops dev n := by
  rw [accesses, List.range_add, List.filterMap_append, List.filterMap_map, accesses, accesses]
  congr 1
  refine List.filterMap_congr fun k _ => ?_
  rw [Function.comp_apply, Isa.State.path_add]

/-- The instruction in write-back is the next of the hart. -/
theorem SimTop.InStep.accesses_dataM1 {s : SimTop} {h : ℕ → Isa.Hart} {t u : ℕ} {g : Places}
    (hin : s.InStep h ops dev t u g) (hs : Isa.Sound ops dev h) (h0 : (h u).prog.regs 0 = 0) :
    (h u).prog.accesses ops dev g.dataM1 = (h u).prog.accesses ops dev g.mw ++
      (if (s.top.core.mw.pcAndInstr != 0) = true then (h t).prog.nextAccess ops dev
        else none).toList := by
  rcases hin.hosts.core.tracks.mw with ⟨hb, hg⟩ | ⟨his, hg⟩
  · rw [if_neg (by rw [hb]; decide), hg]
    exact (List.append_nil _).symm
  · have hne := his.ne_zero ((hs.stretch h0).encodes _ hin.hosts.core.tracks.ahead)
    rw [if_pos (bne_iff_ne.mpr hne), hg, ← hin.prog]
    exact filterMap_range_succ _ _

/-- What devices have seen are the accesses of the hart up to the beginning of the stretch and
those of the stretch up to the record in `em`.  The hart has executed the ones up to
write-back. -/
theorem SimTop.IsRun.deviceTrace_stretch (h : SimTop.IsRun s i)
    (hs : Isa.Sound ops dev (hart s i ops dev)) (t : ℕ)
    (hw : ∀ u < t, ¬(s u).top.Withdraws (i u).pins)
    (hp : ∀ u < t, (s u).top.core.Precise (i u).pins) (hdev : DevicesReturn s i dev t) :
    deviceTrace s i t = hartTrace s i ops dev (stretch s i ops dev t).1 ++
        (begun s i ops dev t).accesses ops dev (stretch s i ops dev t).2.em ∧
      hartTrace s i ops dev t = hartTrace s i ops dev (stretch s i ops dev t).1 ++
        (begun s i ops dev t).accesses ops dev (stretch s i ops dev t).2.mw := by
  induction t with
  | zero => exact ⟨rfl, rfl⟩
  | succ t ih =>
    obtain ⟨htrace, hhart⟩ := ih (fun v hv => hw v (by omega)) (fun v hv => hp v (by omega))
      fun v hv => hdev v (by omega)
    obtain ⟨hin, hsp, hreads⟩ := h.inStep hs t (fun v hv => hw v (by omega))
      (fun v hv => hp v (by omega)) fun v hv => hdev v (by omega)
    have h0 := begun_regs_zero s i ops dev t
    have hx := hs.stretch h0
    have hwt := hw t (Nat.lt_succ_self t)
    -- the instruction in write-back, and the access of the cycle
    have hm1 : (begun s i ops dev t).accesses ops dev (stretch s i ops dev t).2.dataM1 =
        (begun s i ops dev t).accesses ops dev (stretch s i ops dev t).2.mw ++
          (if retires s t then (hart s i ops dev t).prog.nextAccess ops dev else none).toList :=
      hin.accesses_dataM1 hs h0
    have hhart' : hartTrace s i ops dev (t + 1) =
        hartTrace s i ops dev (stretch s i ops dev t).1 ++
          (begun s i ops dev t).accesses ops dev (stretch s i ops dev t).2.dataM1 := by
      rw [hartTrace, filterMap_range_succ, ← hartTrace, hhart, hm1, List.append_assoc]
    have htrace' : deviceTrace s i (t + 1) =
        hartTrace s i ops dev (stretch s i ops dev t).1 ++
          ((begun s i ops dev t).accesses ops dev (stretch s i ops dev t).2.em ++
            ((s t).deviceAccess (i t)).toList) := by
      rw [deviceTrace, filterMap_range_succ, ← deviceTrace, htrace, List.append_assoc]
    cases hf : (s t).top.core.csrFlush (i t).pins with
    | true =>
      obtain ⟨_, hdata, hem⟩ := hin.hosts.core.flush hx (h.orderly t)
        (hp t (Nat.lt_succ_self t)) hf
      have hsame : deviceTrace s i (t + 1) = hartTrace s i ops dev (t + 1) := by
        rw [htrace', hhart', hin.hosts.deviceAccess_flush hwt hf, hem, hdata]
        exact congrArg _ (List.append_nil _)
      rw [hsame, stretch_flush hf]
      exact ⟨(List.append_nil _).symm, (List.append_nil _).symm⟩
    | false =>
      have hpr : (s t).Proceeds (i t) :=
        ⟨h.orderly t, hin.hosts.grant, hsp, Bool.eq_false_iff.mpr (h.noReset t), hf⟩
      rw [begun, stretch_proceeds hf]
      refine ⟨?_, hhart'⟩
      have hnow : (s t).ReadsDevice (i t) → _ := fun hread =>
        (hdev t (Nat.lt_succ_self t) hread).trans (congrArg dev hreads)
      rw [htrace']
      refine congrArg _ ?_
      rcases hin.hosts.deviceAccess_step hx hpr hnow with ⟨hem, hacc⟩ | ⟨hem, hacc⟩
      · rw [hacc, hem]
        exact List.append_nil _
      · rw [hacc, hem]
        exact (filterMap_range_succ _ _).symm

/-- Devices see the accesses of the hart.  In every cycle they have seen, one for one and with
their data, the accesses of the instructions the hart has executed, and then those of at most
two more, whatever traps and interrupts have been taken. -/
theorem SimTop.IsRun.hart_devices (h : SimTop.IsRun s i)
    (hs : Isa.Sound ops dev (hart s i ops dev)) (t : ℕ)
    (hw : ∀ u < t, ¬(s u).top.Withdraws (i u).pins)
    (hp : ∀ u < t, (s u).top.core.Precise (i u).pins) (hdev : DevicesReturn s i dev t) :
    ∃ n ≤ 2, deviceTrace s i t =
      hartTrace s i ops dev t ++ (hart s i ops dev t).prog.accesses ops dev n := by
  obtain ⟨htrace, hhart⟩ := h.deviceTrace_stretch hs t hw hp hdev
  obtain ⟨hin, _⟩ := h.inStep hs t hw hp hdev
  obtain ⟨n, hn, hem⟩ := hin.hosts.core.tracks.em_le
  refine ⟨n, hn, ?_⟩
  rw [htrace, hem, Isa.State.accesses_add, ← List.append_assoc, ← hhart, begun, hin.prog]

end Run

/-! ## An example run -/

/-- The `sb` of `trapLoop` is interrupted twice, and devices see it twice. -/
theorem trapLoop_hart_devices :
    (∃ n ≤ 2, SimTop.deviceTrace (SimTop.boot trapLoop .timer) (fun _ => .fast .timer) 75 =
      SimTop.hartTrace (SimTop.boot trapLoop .timer) (fun _ => .fast .timer) trapLoopOps
          (fun _ => 0) 75 ++
        (trapLoopHart 75).prog.accesses trapLoopOps (fun _ => 0) n) ∧
    SimTop.deviceTrace (SimTop.boot trapLoop .timer) (fun _ => .fast .timer) 75 =
      [⟨false, .msize4, 8, 0, 0⟩, ⟨true, .msize1, 8, 1, 0x1c⟩, ⟨true, .msize1, 8, 1, 0x1c⟩] := by
  refine ⟨?_, by decide +kernel⟩
  rw [trapLoopHart]
  exact (SimTop.boot_isRun trapLoop .timer).hart_devices trapLoopHart_sound 75
    (fun u hu => (trapLoop_precise u hu).1) (fun u hu => (trapLoop_precise u hu).2)
    trapLoop_devicesReturn

end RiscvCpu
