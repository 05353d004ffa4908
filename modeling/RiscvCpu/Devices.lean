import RiscvCpu.Refinement

/-!
# What devices see

The addresses with bit 31 clear belong to devices, for which every access counts: a read
may take a character from a queue, and a write may send one.  In a run of a program the
accesses that devices see are those of the program, each of them once, in program order
and with the data of the program.  No access is made for an instruction that is not
executed in the end, and none is made early: devices are at most two instructions ahead
of the reports of write-back.
-/

namespace RiscvCpu

/-- An access to a device. -/
structure DeviceAccess where
  isWrite : Bool
  size : Msize
  addr : BitVec 64
  /-- Which bytes are written, all clear for a read. -/
  strobe : BitVec 8
  /-- The data written, or the word returned. -/
  data : BitVec 64
deriving DecidableEq, Repr

/-- What devices see in a cycle: a beat at an address of theirs.  Reads of the instruction
cache are left out. -/
def SimTop.deviceAccess (s : SimTop) (i : SimTopIn) : Option DeviceAccess :=
  let req := s.oreq i
  let resp := s.oresp i
  if resp.ready && !isCached req.addr && (req.isWrite || s.top.mux.index == (0 : Fin 2)) then
    some ⟨req.isWrite, req.size, req.addr, req.strobe,
      if req.isWrite then req.data else resp.data⟩
  else none

/-- The access to a device an instruction makes.  A store puts the low bytes of its value in
the lanes of its address. -/
def Isa.State.deviceAccess (x : Isa.State) (op : Op) (dev : ℕ → BitVec 64) :
    Option DeviceAccess :=
  let addr := x.addr op
  let off := addr.extractLsb' 0 3
  match Isa.access op with
  | some (.load msize _) =>
    if isCached addr then none else some ⟨false, msize, addr, 0, dev x.reads⟩
  | some (.store msize) =>
    if isCached addr then none
    else
      some ⟨true, msize, addr, msize.strobe off,
        (x.rs2.extractLsb' 0 (8 * msize.bytes)).setWidth 64 <<< (8 * off.toNat)⟩
  | none => none

/-! ## One cycle -/

section Cycle

variable {word : BitVec 61 → BitVec 64} {x : ℕ → Isa.State} {op : ℕ → Op} {dev : ℕ → BitVec 64}
  {s : SimTop} {i : SimTopIn} {g : Places}

theorem SimTop.busy_of_ready (h : (s.oresp i).ready = true) : s.top.mux.busy = true := by
  rw [oresp, Ram.resp] at h
  split at h
  · rename_i hc
    simp only [Bool.and_eq_true, oreq, VTop.oreq, CBusArbiter.oreq] at hc
    by_contra hb
    rw [if_neg hb] at hc
    cases hc.1
  · cases h

/-- Devices see the single beats of the data side. -/
theorem SimTop.singleBeat_iff (hg : s.top.GrantOk s.ram.beat) (hw : ¬s.top.Withdraws i.pins)
    (hclean : ICache.Clean s.top.icache) :
    s.top.SingleBeat (s.topIn i) ↔
      ((s.oresp i).ready && !isCached (s.oreq i).addr &&
        ((s.oreq i).isWrite || s.top.mux.index == (0 : Fin 2))) = true := by
  rw [Bool.and_eq_true, Bool.and_eq_true, Bool.not_eq_true', Bool.or_eq_true, beq_iff_eq]
  constructor
  · intro hbeat
    have hgr := hg.accessGranted_of_beat hw hbeat
    obtain ⟨hb, hj, _, hready⟩ := hbeat
    refine ⟨⟨hready, ?_⟩, .inr hj⟩
    rw [oreq, hgr.oreq hb hj]
    exact hgr.uncached
  · rintro ⟨⟨hready, hun⟩, hside⟩
    have hb := busy_of_ready hready
    have hj : s.top.mux.index = (0 : Fin 2) := by
      rcases s.top.index_cases with hj | hj
      · exact hj
      · -- the instruction cache writes nothing
        refine hside.resolve_left fun hwrite => ?_
        rw [oreq, VTop.oreq, CBusArbiter.oreq, if_pos hb, hj] at hwrite
        exact Bool.false_ne_true
          ((hclean.creq_isWrite (s.top.core.ireq i.pins)).symm.trans hwrite)
    refine ⟨hb, hj, ?_, hready⟩
    rcases hg.data hb hj with hburst | hgr
    · have hcached : isCached (s.oreq i).addr = true := by
        rw [oreq, VTop.oreq, CBusArbiter.oreq, if_pos hb, hj]
        change isCached (Cache.creq s.top.dcache (s.top.core.dreq i.pins)).addr = true
        rw [Cache.creq_of_miss hburst.busy]
        exact hg.lines.burst hburst.busy
      exact absurd (hun.symm.trans hcached) Bool.false_ne_true
    · change (s.top.oreq i.pins).len = mlen1
      rw [hgr.oreq hb hj]
      rfl

/-- The access a single beat shows is that of the instruction in `em`, if `em` has its address
and its data. -/
theorem SimTop.Proceeds.deviceAccess_em (hp : s.Proceeds i) (hclean : ICache.Clean s.top.icache)
    (hbeat : s.top.SingleBeat (s.topIn i)) {y : Isa.State} {o : Op} {acc : Isa.Access}
    (ha : Isa.access o = some acc) (haddr : s.top.core.em.aluout = y.addr o)
    (hinstr : s.top.core.em.instr = (o.control y.instr).instr)
    (hal : acc.msize.Aligned ((y.addr o).extractLsb' 0 3))
    (hload : ∀ msize u, acc = .load msize u → (s.top.core.em.dataMtmp.dreq true).strobe = 0)
    (hstore : ∀ msize, acc = .store msize →
      let lanes := writedata ((y.addr o).extractLsb' 0 3) y.rs2 msize
      (s.top.core.em.dataMtmp.dreq true).data = lanes.wd ∧
        (s.top.core.em.dataMtmp.dreq true).strobe = lanes.strobe)
    (hdev : s.ReadsDevice i → (s.oresp i).data = dev y.reads) :
    s.deviceAccess i = y.deviceAccess o dev := by
  have hg := hp.accessGranted hbeat
  have hun : isCached (y.addr o) = false := haddr ▸ hg.uncached
  have hreq : s.oreq i = (s.top.core.em.dataMtmp.dreq true).creqSkip :=
    hg.oreq hbeat.1 hbeat.2.1 i.pins
  have hwrite := hp.oreq_isWrite hbeat
  have hfields : (s.oreq i).size = acc.msize ∧ (s.oreq i).addr = y.addr o := by
    rw [hreq]
    refine ⟨?_, haddr⟩
    change s.top.core.em.instr.ctl.msize = acc.msize
    rw [hinstr]
    cases acc with
    | load msize u => rw [Op.control_load ha]; rfl
    | store msize => rw [Op.control_store ha]; rfl
  rw [SimTop.deviceAccess, if_pos ((singleBeat_iff hp.grant hp.not_withdraws hclean).mp hbeat),
    Isa.State.deviceAccess, ha]
  cases acc with
  | load msize u =>
    have hstrobe : (s.oreq i).strobe = 0 := by
      rw [hreq]
      exact hload msize u rfl
    have hread : (s.oreq i).isWrite = false := by
      rw [hwrite, hload msize u rfl]
      rfl
    simp only [hun, Bool.false_eq_true, if_false]
    rw [hread, if_neg Bool.false_ne_true, hfields.1, hfields.2, hstrobe, hdev ⟨hbeat, hread⟩]
    rfl
  | store msize =>
    have hal : msize.Aligned _ := hal
    obtain ⟨hdata, hstrobe⟩ := hstore msize rfl
    rw [writedata_aligned hal] at hdata hstrobe
    have hw : (s.oreq i).isWrite = true := by
      rw [hwrite, hstrobe]
      simpa using hal.strobe_ne_zero
    have hdata' : (s.oreq i).data = _ := (congrArg CbusReq.data hreq).trans hdata
    have hstrobe' : (s.oreq i).strobe = _ := (congrArg CbusReq.strobe hreq).trans hstrobe
    simp only [hun, Bool.false_eq_true, if_false]
    rw [hw, if_pos rfl, hfields.1, hfields.2, hdata', hstrobe']
    rfl

theorem SimTop.Proceeds.deviceAccess_beat (hp : s.Proceeds i)
    (hclean : ICache.Clean s.top.icache) (hc : s.top.core.Runs x op dev g)
    (hx : Isa.Executes word x op dev)
    (hdev : s.ReadsDevice i → (s.oresp i).data = dev (x g.em).reads)
    (hbeat : s.top.SingleBeat (s.topIn i)) :
    s.top.core.em.pcAndInstr ≠ 0 ∧
      s.deviceAccess i = (x g.em).deviceAccess (op g.em) dev := by
  obtain ⟨hne, acc, ha⟩ := hc.access hx hp.orderly (hp.accessGranted hbeat).isMem
  have hinstr : s.top.core.em.instr = ((op g.em).control (x g.em).instr).instr := by
    rw [hp.orderly.decoded.em.instr]
    exact ((hc.follows.em.is hne).1.instr (hx.encodes _) (hx.fits _)).2
  refine ⟨hne, hp.deviceAccess_em hclean hbeat ha (hc.em_access hx hp.orderly hne ha).1 hinstr
    ((hx.fits g.em).access _ ha) ?_ ?_ hdev⟩
  · rintro msize u rfl
    exact hc.load_strobe hx hp.orderly hne ha
  · rintro msize rfl
    exact hc.store_lanes hx hp.orderly hne ha

/-- What devices see in a cycle is the access of the instruction that leaves `em`. -/
theorem SimTop.Proceeds.deviceAccess_step (hp : s.Proceeds i)
    (hclean : ICache.Clean s.top.icache) (hc : s.top.core.Runs x op dev g)
    (hx : Isa.Executes word x op dev)
    (hdev : s.ReadsDevice i → (s.oresp i).data = dev (x g.em).reads) :
    (g.step s.top.core (s.top.coreIn (s.topIn i))).em = g.em ∧ s.deviceAccess i = none ∨
      (g.step s.top.core (s.top.coreIn (s.topIn i))).em = g.em + 1 ∧
        s.deviceAccess i = (x g.em).deviceAccess (op g.em) dev := by
  have hiff := hp.grant.leaves_iff_beat (i := s.topIn i) hp.not_withdraws hp.spaced hp.noReset
  rw [Places.step_em]
  by_cases hbeat : s.top.SingleBeat (s.topIn i)
  · obtain ⟨hne, hacc⟩ := hp.deviceAccess_beat hclean hc hx hdev hbeat
    refine .inr ⟨?_, hacc⟩
    rw [(hiff.mpr hbeat).1.2, if_neg Bool.false_ne_true]
    exact (hc.follows.em.is hne).2
  · have hnone : s.deviceAccess i = none := by
      rw [SimTop.deviceAccess,
        if_neg fun h => hbeat ((singleBeat_iff hp.grant hp.not_withdraws hclean).mpr h)]
    cases hst : s.top.core.stallDataOk (s.top.coreIn (s.topIn i)) with
    | true => exact .inl ⟨rfl, hnone⟩
    | false =>
      rcases hc.follows.em with ⟨_, hde⟩ | ⟨his, hde⟩
      · exact .inl ⟨hde, hnone⟩
      · refine .inr ⟨hde, hnone.trans ?_⟩
        -- an access to a device would have been a beat
        have hne := his.ne_zero (hx.encodes _)
        have hm := hc.em_isMem hx hp.orderly hne
        rw [Isa.State.deviceAccess]
        cases ha : Isa.access (op g.em) with
        | none => rfl
        | some acc =>
          have hcached : isCached ((x g.em).addr (op g.em)) = true := by
            by_contra hun
            rw [← (hc.em_access hx hp.orderly hne ha).1] at hun
            exact hbeat (hiff.mp ⟨⟨hp.pipeReset, hst⟩, by rw [hm, ha]; rfl,
              Bool.not_eq_true _ ▸ hun⟩)
          cases acc <;> simp [hcached]

end Cycle

/-! ## Runs -/

section Run

variable {s : ℕ → SimTop} {i : ℕ → SimTopIn} {x : ℕ → Isa.State} {op : ℕ → Op}
  {dev : ℕ → BitVec 64}

/-- The accesses that devices have seen before cycle `t`, in order. -/
def SimTop.deviceTrace (s : ℕ → SimTop) (i : ℕ → SimTopIn) (t : ℕ) : List DeviceAccess :=
  (List.range t).filterMap fun u => (s u).deviceAccess (i u)

theorem SimTop.IsRun.deviceTrace_eq (h : SimTop.IsRun s i)
    (hx : Isa.Executes (s 0).ram.word x op dev) (t : ℕ) (hdev : DevicesReturn s i dev t) :
    deviceTrace s i t =
      (List.range (places s i t).em).filterMap fun n => (x n).deviceAccess (op n) dev := by
  induction t with
  | zero => rfl
  | succ t ih =>
    have hdev' : DevicesReturn s i dev t := fun u hu => hdev u (by omega)
    obtain ⟨hsim, hp, _, hreads⟩ := h.simulates hx t hdev'
    have hnow : (s t).ReadsDevice (i t) →
        ((s t).oresp (i t)).data = dev (x (places s i t).em).reads := fun hread => by
      rw [← hreads]
      exact hdev t (Nat.lt_succ_self t) hread
    have ih' := ih hdev'
    rw [deviceTrace] at ih'
    rw [deviceTrace, List.range_succ, List.filterMap_append, ih', places]
    rcases hp.deviceAccess_step hsim.code.clean hsim.core hx hnow with ⟨hem, hacc⟩ | ⟨hem, hacc⟩
    · rw [hem, List.filterMap_cons, hacc]
      exact List.append_nil _
    · rw [hem, List.range_succ, List.filterMap_append, List.filterMap_cons, hacc]
      rfl

/-- The record in `em` is at most two instructions ahead of write-back. -/
theorem Core.Follows.em_le {c : Core} {g : Places} (h : c.Follows x g) :
    g.mw ≤ g.em ∧ g.em ≤ g.mw + 2 := by
  rcases h.mw with ⟨_, h1⟩ | ⟨_, h1⟩ <;> rcases h.dataM1 with ⟨_, h2⟩ | ⟨_, h2⟩ <;> omega

/-- Devices see the accesses of the program in program order.  In a run from a memory that
holds a program, under any pins and any latency of memory, the beats at addresses of devices
are, one for one and with their data, the accesses to devices of the first `n` instructions
of the program, where `n` is at most two ahead of the instructions reported. -/
theorem SimTop.IsRun.devices_in_order (h : SimTop.IsRun s i)
    (hx : Isa.Executes (s 0).ram.word x op dev) (t : ℕ) (hdev : DevicesReturn s i dev t) :
    ∃ n, deviceTrace s i t = ((List.range n).filterMap fun k => (x k).deviceAccess (op k) dev) ∧
      (commitsBefore s t).length ≤ n ∧ n ≤ (commitsBefore s t).length + 2 := by
  have hlen : (commitsBefore s t).length = (places s i t).mw := by
    rw [h.commitsBefore_eq hx t hdev, List.length_map, List.length_range]
  have hem := (h.simulates hx t hdev).1.core.follows.em_le
  rw [hlen]
  exact ⟨(places s i t).em, h.deviceTrace_eq hx t hdev, hem.1, hem.2⟩

end Run

/-! ## An example run -/

/-- `addi x1, x0, 65`, `sb x1, 8(x0)`, and a jump to itself. -/
def putcThenLoop : List (BitVec 32) := [0x04100093#32, 0x00100423#32, 0x0000006f#32]

/-- The operations of `putcThenLoop` in the order they are executed. -/
def putcThenLoopOp : ℕ → Op
  | 0 => .addi
  | 1 => .sb
  | _ + 2 => .jal

/-- The states of `putcThenLoop`. -/
def putcThenLoopState : ℕ → Isa.State
  | 0 => .initial (programWord putcThenLoop)
  | n + 1 => (putcThenLoopState n).exec (putcThenLoopOp n) fun _ => 0

theorem putcThenLoop_loops : Isa.Loops putcThenLoopState putcThenLoopOp (fun _ => 0) 2 :=
  ⟨fun _ => rfl, fun _ => rfl, by decide +kernel⟩

theorem putcThenLoop_executes :
    Isa.Executes (SimTop.boot putcThenLoop .low 0).ram.word putcThenLoopState putcThenLoopOp
      fun _ => 0 :=
  putcThenLoop_loops.executes rfl (by decide +kernel) (by decide +kernel)

/-- The character has been written once, in the lane of its address. -/
theorem putcThenLoop_devices_in_order :
    (∃ n, SimTop.deviceTrace (SimTop.boot putcThenLoop .low) (fun _ => .fast .low) 40 =
        ((List.range n).filterMap fun k =>
          (putcThenLoopState k).deviceAccess (putcThenLoopOp k) fun _ => 0) ∧
      (SimTop.commitsBefore (SimTop.boot putcThenLoop .low) 40).length ≤ n ∧
      n ≤ (SimTop.commitsBefore (SimTop.boot putcThenLoop .low) 40).length + 2) ∧
    SimTop.deviceTrace (SimTop.boot putcThenLoop .low) (fun _ => .fast .low) 40 =
      [⟨true, .msize1, 8, 1, 65⟩] :=
  ⟨(SimTop.boot_isRun putcThenLoop .low).devices_in_order putcThenLoop_executes 40
    (by decide +kernel), by decide +kernel⟩

end RiscvCpu
