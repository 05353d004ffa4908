import RiscvCpu.Coherence.Range
import RiscvCpu.Deadlock
import RiscvCpu.Devices
import RiscvCpu.Simulator

/-!
# Programs on the simulator

A program that stays in the array of `RAMHelper2`, and stores to its devices alone, is
executed by the simulator.  The caches deal in lines of the array then, so each request of the
top module is one the helper can serve, and what is proved of the abstract system holds.
-/

namespace RiscvCpu

/-- The instruction stays in the array, and so does what may be fetched behind it.  It stores
to known devices alone. -/
structure Isa.State.FitsRam (x : Isa.State) (op : Op) : Prop where
  pc : InRam x.pc
  /-- Where the prediction may send fetch. -/
  target : ∀ bpb : Bpb, InRam (bpb.bpResult x.instr x.pc).targetPc
  data : ∀ a, Isa.access op = some a → isCached (x.addr op) = true → InRam (x.addr op)
  load : ∀ msize u, Isa.access op = some (.load msize u) → isCached (x.addr op) = false →
    (x.addr op).toNat < 0x80000000
  store : ∀ msize, Isa.access op = some (.store msize) → isCached (x.addr op) = false →
    x.addr op ∈ writeRegisters

/-! ## Lines of the array -/

theorem inRam_wholeLines {ib : ℕ} (h : ib ≤ 39) : WholeLines ib InRam := by
  intro a b ht hi hin
  obtain ⟨hlo, hhi⟩ := hin
  have hao := a.offset.isLt
  have hbo := b.offset.isLt
  rw [ReqAddr.toNat_addr h, ht, hi] at hlo hhi
  rw [InRam, ReqAddr.toNat_addr h]
  generalize b.tag.toNat * 2 ^ ib + b.index.toNat = line at *
  omega

theorem InRam.reqAddr {ib : ℕ} (h7 : 7 ≤ ib) (h39 : ib ≤ 39) {addr : BitVec 64}
    (h : InRam addr) : InRam (reqAddr ib addr).addr := by
  obtain ⟨hlo, hhi⟩ := h
  have hrange : addr.toNat < 2 ^ (25 + ib) := by
    have hle : 2 ^ 32 ≤ 2 ^ (25 + ib) := Nat.pow_le_pow_right (by omega) (by omega)
    omega
  have hword := congrArg BitVec.toNat (word_reqAddr h39 hrange)
  rw [ReqAddr.word, toNat_wordOf, toNat_wordOf] at hword
  rw [InRam]
  omega

/-- The caches deal in lines of the array. -/
structure SimTop.InArray (s : SimTop) : Prop where
  icache : Cache.LinesIn s.top.icache InRam
  dcache : Cache.LinesIn s.top.dcache InRam
  /-- So does a request that is driven once more. -/
  again : s.top.core.memory.drivesM1 = true → InRam s.top.core.memory.dataM1.aluout

section Cycle

variable {word : BitVec 61 → BitVec 64} {x : ℕ → Isa.State} {op : ℕ → Op} {dev : ℕ → BitVec 64}
  {s : SimTop} {i : SimTopIn} {g : Places}

/-- Fetch is in the array. -/
theorem Core.Heads.inRam {c : Core} (h : c.Heads x g) (hfit : ∀ n, (x n).FitsRam (op n)) :
    InRam c.fetch.pc := by
  rcases h.pc_or_target with hpc | ⟨n, bpb, hpc⟩
  · rw [hpc]
    exact (hfit g.fetch).pc
  · rw [hpc]
    exact (hfit n).target bpb

/-- A cached access in `em` is to the array. -/
theorem Core.Runs.em_inRam {c : Core} {j : CoreIn} (h : c.Runs x op dev g)
    (hx : Isa.Executes word x op dev) (ho : c.Orderly j) (hfit : ∀ n, (x n).FitsRam (op n))
    (hm : c.em.instr.ctl.isMem = true) (hc : isCached c.em.aluout = true) :
    InRam c.em.aluout := by
  obtain ⟨hne, acc, ha⟩ := h.access hx ho hm
  have haddr := (h.em_access hx ho hne ha).1
  rw [haddr] at hc ⊢
  exact (hfit g.em).data acc ha hc

theorem SimTop.inArray_of_reset (s : SimTop) (hr : i.reset = true) : (s.step i).InArray := by
  constructor
  · change Cache.LinesIn (ICache.step _ i.reset _ _) _
    rw [hr]
    exact Cache.linesIn_of_reset _ _ _ _ _
  · change Cache.LinesIn (DCache.step _ i.reset _ _) _
    rw [hr]
    exact Cache.linesIn_of_reset _ _ _ _ _
  · intro hd
    have hmem : (s.step i).top.core.memory = ⟨.idle, 0⟩ :=
      (Core.step_pipeReset (Core.pipeReset_of_reset hr)).2.2.2.1
    rw [hmem] at hd
    cases hd

/-- One cycle of the caches. -/
theorem SimTop.InArray.step (h : s.InArray) (hsim : s.Simulates x op dev g)
    (hx : Isa.Executes word x op dev) (hp : s.Proceeds i) (hfit : ∀ n, (x n).FitsRam (op n)) :
    (s.step i).InArray := by
  constructor
  · change Cache.LinesIn (ICache.step _ i.reset _ _) _
    rw [hp.noReset]
    refine h.icache.step (inRam_wholeLines (by omega)) hsim.code.refill (ICache.mayMiss _ _ _) ?_
    intro _
    exact (hsim.core.follows.heads.inRam hfit).reqAddr (by omega) (by omega)
  · change Cache.LinesIn (DCache.step _ i.reset _ _) _
    rw [hp.noReset]
    refine h.dcache.step (inRam_wholeLines (by omega)) hsim.data.coherent.refill
      (DCache.mayMiss _ _ _) ?_
    intro hmiss
    have hc := DCache.fsmToMiss_cached hmiss
    have hv : (s.top.core.dreq i.pins).valid = true := by
      simp only [DCache.fsmToMiss, Bool.and_eq_true] at hmiss
      exact hmiss.1.2
    refine InRam.reqAddr (by omega) (by omega) ?_
    rw [Core.dreq, Memory.dreq] at hc hv ⊢
    cases hd : s.top.core.memory.drivesM1 with
    | true =>
      rw [if_pos rfl]
      exact h.again hd
    | false =>
      rw [hd, if_neg Bool.false_ne_true] at hc hv
      rw [if_neg Bool.false_ne_true]
      simp only [MemoryData.dreq, Bool.and_eq_true] at hv
      exact hsim.core.em_inRam hx hp.orderly hfit hv.1 hc
  · intro hd
    obtain ⟨_, hm, hm1⟩ := hp.spaced.step_drivesM1 hp.pipeReset hd
    have hcached : isCached (s.step i).top.core.memory.dataM1.aluout = true :=
      hp.grant.step_driven hd
    have hm1 : (s.step i).top.core.memory.dataM1 = s.top.core.em.dataMtmp := hm1
    rw [hm1] at hcached ⊢
    exact hsim.core.em_inRam hx hp.orderly hfit hm hcached

/-- The request on the bus is one the helper can serve. -/
theorem SimTop.InArray.inRange (h : s.InArray) (hsim : s.Simulates x op dev g)
    (hx : Isa.Executes word x op dev) (hp : s.Proceeds i) (hfit : ∀ n, (x n).FitsRam (op n))
    (hv : (s.oreq i).valid = true) : (s.oreq i).InRange := by
  have hb : s.top.mux.busy = true := by
    by_contra hb
    rw [oreq, VTop.oreq, CBusArbiter.oreq, if_neg hb] at hv
    cases hv
  have hreq : s.oreq i = s.top.ireqs i.pins s.top.mux.index := by
    rw [oreq, VTop.oreq, CBusArbiter.oreq, if_pos hb]
  rw [hreq]
  rcases s.top.index_cases with hj | hj
  · rw [hj]
    rcases hp.grant.data hb hj with hburst | hacc
    · refine .inl ?_
      change InRam (Cache.creq s.top.dcache (s.top.core.dreq i.pins)).addr
      rw [Cache.creq_of_miss hburst.busy]
      exact h.dcache.burst hburst.busy
    · have heq : s.top.ireqs i.pins (0 : Fin 2) =
          (s.top.core.em.dataMtmp.dreq true).creqSkip := by
        have := hacc.oreq hb hj i.pins
        rwa [VTop.oreq, CBusArbiter.oreq, if_pos hb, hj] at this
      rw [heq]
      obtain ⟨hne, acc, ha⟩ := hsim.core.access hx hp.orderly hacc.isMem
      have haddr := (hsim.core.em_access hx hp.orderly hne ha).1
      have hun : isCached ((x g.em).addr (op g.em)) = false := by
        rw [← haddr]
        exact hacc.uncached
      refine .inr ⟨hacc.uncached, rfl, ?_⟩
      change if ((s.top.core.em.dataMtmp.dreq true).strobe != 0) = true
        then s.top.core.em.aluout ∈ writeRegisters else s.top.core.em.aluout.toNat < 0x80000000
      rw [haddr]
      cases acc with
      | load msize u =>
        rw [hsim.core.load_strobe hx hp.orderly hne ha]
        exact (hfit g.em).load msize u ha hun
      | store msize =>
        have hmem := (hfit g.em).store msize ha hun
        have hlow : ∀ a ∈ writeRegisters, a.toNat < 0x80000000 := by
          simp [writeRegisters]
        split
        · exact hmem
        · exact hlow _ hmem
  · rw [hj]
    have hin := hsim.core.follows.heads.inRam hfit
    rcases hp.grant.fetch hb hj with hburst | hacc
    · refine .inl ?_
      change InRam (Cache.creq s.top.icache (s.top.core.ireq i.pins).toDreq).addr
      rw [Cache.creq_of_miss hburst.busy]
      exact h.icache.burst hburst.busy
    · exact absurd (hacc.uncached.symm.trans hin.isCached) Bool.false_ne_true

end Cycle

/-! ## Devices -/

/-- The helper answers the read of a device. -/
def Simulator.ReadsDevice (s : Simulator) : Prop :=
  s.ram.state = .read ∧ isCached s.oreq.addr = false

instance Simulator.decidableReadsDevice (s : Simulator) : Decidable s.ReadsDevice :=
  inferInstanceAs (Decidable (_ ∧ _))

/-- How many reads of devices have been answered before cycle `t`. -/
def Simulator.deviceReads (s : ℕ → Simulator) (t : ℕ) : ℕ :=
  Nat.count (fun u => (s u).ReadsDevice) t

/-- The devices answer with the words of `dev`, in order. -/
def Simulator.DevicesReturn (s : ℕ → Simulator) (i : ℕ → SimulatorIn) (dev : ℕ → BitVec 64) :
    Prop :=
  ∀ t, (s t).ReadsDevice → ((s t).oresp (i t)).data = dev (deviceReads s t)

section Device

variable {s : Simulator} {i : SimulatorIn} {rest : BitVec 61 → BitVec 64}

/-- A beat of a device is a single one, and there is no other one at its address. -/
theorem Simulator.Ok.singleBeat_iff (h : s.Ok) (hp : (s.abs rest).Proceeds (s.absIn i))
    (hpc : InRam s.top.core.fetch.pc) :
    s.top.SingleBeat ((s.abs rest).topIn (s.absIn i)) ↔
      (s.ram.state = .read ∨ s.ram.state = .write) ∧ isCached s.oreq.addr = false := by
  obtain ⟨x, hx, _⟩ := h.abs_oresp i rest
  have hready : ((s.abs rest).topIn (s.absIn i)).oresp.ready = (s.oresp i).ready := by
    change ((s.abs rest).oresp (s.absIn i)).ready = _
    rw [hx]
  constructor
  · intro hbeat
    have hacc : s.top.AccessGranted s.top.mux.savedReq := hp.accessGranted hbeat
    obtain ⟨hb, hj, _, hr⟩ := hbeat
    rw [hready] at hr
    constructor
    · rcases s.ram.state_cases with hs | hs
      · rw [Simulator.oresp, RamHelper2.oresp_of_wait hs] at hr
        cases hr
      · exact hs
    · change isCached (s.top.oreq s.ram.pins).addr = false
      rw [hacc.oreq hb hj]
      exact hacc.uncached
  · rintro ⟨hs, hun⟩
    obtain ⟨hb, hv, _⟩ := h.serves.request h.asks (RamHelper2.ne_none hs)
    have hlen : s.oreq.len = mlen1 := by
      rcases h.range hv with hin | ⟨_, hl, _⟩
      · exact absurd (hun.symm.trans hin.isCached) Bool.false_ne_true
      · exact hl
    refine ⟨hb, ?_, hlen, hready.trans (RamHelper2.oresp_of_burst hs _).1⟩
    rcases s.top.index_cases with hj | hj
    · exact hj
    · -- the instruction cache is granted a line
      rcases h.grant.fetch hb hj with hburst | hacc
      · have hsaved : s.top.mux.savedReq.len = mlen1 := (h.asks hb).2.len.trans hlen
        rw [hburst.burst.len] at hsaved
        exact absurd hsaved (by decide : ¬mlen16 = mlen1)
      · exact absurd (hacc.uncached.symm.trans hpc.isCached) Bool.false_ne_true

theorem Simulator.Ok.isWrite (h : s.Ok) (hs : s.ram.state = .read ∨ s.ram.state = .write) :
    s.ram.state = .write ↔ s.oreq.isWrite = true := by
  obtain ⟨_, _, hsame⟩ := h.serves.request h.asks (RamHelper2.ne_none hs)
  rw [(h.serves.burst hs).isWrite, hsame.isWrite]
  rfl

/-- Reads of devices are those of the abstract system. -/
theorem Simulator.Ok.readsDevice_iff (h : s.Ok) (hp : (s.abs rest).Proceeds (s.absIn i))
    (hpc : InRam s.top.core.fetch.pc) :
    (s.abs rest).ReadsDevice (s.absIn i) ↔ s.ReadsDevice := by
  rw [SimTop.ReadsDevice, Simulator.ReadsDevice]
  change s.top.SingleBeat _ ∧ s.oreq.isWrite = false ↔ _
  rw [h.singleBeat_iff hp hpc]
  constructor
  · rintro ⟨⟨hs, hun⟩, hw⟩
    refine ⟨hs.resolve_right fun hwrite => ?_, hun⟩
    rw [(h.isWrite hs).mp hwrite] at hw
    cases hw
  · rintro ⟨hs, hun⟩
    refine ⟨⟨.inl hs, hun⟩, ?_⟩
    by_contra hw
    have hwrite := (h.isWrite (.inl hs)).mpr (Bool.not_eq_false _ ▸ hw)
    rw [hs] at hwrite
    cases hwrite

/-- A read returns the data of the helper. -/
theorem Simulator.Ok.abs_data (h : s.Ok) (hs : s.ram.state = .read) :
    ((s.abs rest).oresp (s.absIn i)).data = (s.oresp i).data := by
  obtain ⟨x, hx, hdata⟩ := h.abs_oresp i rest
  rw [hx]
  by_contra hne
  have hw := (hdata hne).1
  rw [hs] at hw
  cases hw

end Device

/-! ## Runs -/

section Run

variable {s : ℕ → Simulator} {i : ℕ → SimulatorIn} {rest : BitVec 61 → BitVec 64}
  {x : ℕ → Isa.State} {op : ℕ → Op} {dev : ℕ → BitVec 64}

/-- The caches of a program in the array deal in lines of the array. -/
theorem SimTop.IsRun.inArray {a : ℕ → SimTop} {j : ℕ → SimTopIn} (h : SimTop.IsRun a j)
    (hx : Isa.Executes (a 0).ram.word x op dev) (hfit : ∀ n, (x n).FitsRam (op n)) (t : ℕ)
    (hdev : DevicesReturn a j dev t) : (a t).InArray := by
  induction t with
  | zero =>
    obtain ⟨y, k, hk, hs⟩ := h.start
    rw [hs]
    exact y.inArray_of_reset hk
  | succ t ih =>
    have hdev' : DevicesReturn a j dev t := fun u hu => hdev u (by omega)
    obtain ⟨hsim, hp, _⟩ := h.simulates hx t hdev'
    rw [h.next t]
    exact (ih hdev').step hsim hx hp hfit

/-- Where a run of the abstract system has been in the images of the states so far, the
simulator is in order, and the devices have answered alike. -/
theorem Simulator.IsRun.ok_of_abs (h : Simulator.IsRun s i)
    (hx : Isa.Executes (ramWord (s 0).ram.ram rest) x op dev)
    (hfit : ∀ n, (x n).FitsRam (op n)) (hdev : DevicesReturn s i dev) {a : ℕ → SimTop}
    (ha : SimTop.IsRun a fun t => (s t).absIn (i t)) (t : ℕ)
    (heq : ∀ u ≤ t, a u = (s u).abs rest) :
    (s t).Ok ∧ SimTop.DevicesReturn a (fun t => (s t).absIn (i t)) dev t ∧
      SimTop.deviceReads a (fun t => (s t).absIn (i t)) t = deviceReads s t := by
  have hx' : Isa.Executes (a 0).ram.word x op dev := by
    rw [heq 0 (Nat.zero_le t)]
    exact hx
  have hok : ∀ u ≤ t, SimTop.DevicesReturn a (fun t => (s t).absIn (i t)) dev u →
      ¬(s u).top.Withdraws (s u).ram.pins ∧ ((s u).oreq.valid = true → (s u).oreq.InRange) := by
    intro u hu hd
    obtain ⟨hsim, hp, _⟩ := ha.simulates hx' u hd
    have hin := ha.inArray hx' hfit u hd
    rw [heq u hu] at hsim hp hin
    have hw : ¬((s u).abs rest).top.Withdraws ((s u).absIn (i u)).pins := hp.not_withdraws
    have hreq : ((s u).abs rest).oreq ((s u).absIn (i u)) = (s u).oreq := rfl
    have hrange := hin.inRange hsim hx' hp hfit
    rw [hreq] at hrange
    exact ⟨hw, hrange⟩
  induction t with
  | zero =>
    have hnone : SimTop.DevicesReturn a (fun t => (s t).absIn (i t)) dev 0 :=
      fun u hu => absurd hu (Nat.not_lt_zero u)
    refine ⟨h.ok 0 (fun u hu => ?_) fun u hu => ?_, hnone, rfl⟩
    · obtain rfl := Nat.le_zero.mp hu
      exact (hok 0 (Nat.le_refl 0) hnone).1
    · obtain rfl := Nat.le_zero.mp hu
      exact (hok 0 (Nat.le_refl 0) hnone).2
  | succ t ih =>
    obtain ⟨hokt, hdevt, hreads⟩ := ih (fun u hu => heq u (by omega)) fun u hu =>
      hok u (by omega)
    obtain ⟨hsim, hp, _⟩ := ha.simulates hx' t hdevt
    rw [heq t (Nat.le_succ t)] at hsim hp
    have hpc : InRam (s t).top.core.fetch.pc := hsim.core.follows.heads.inRam hfit
    have hiff : (a t).ReadsDevice ((s t).absIn (i t)) ↔ (s t).ReadsDevice := by
      rw [heq t (Nat.le_succ t)]
      exact hokt.readsDevice_iff hp hpc
    have hnext : SimTop.DevicesReturn a (fun t => (s t).absIn (i t)) dev (t + 1) := by
      intro u hu hread
      rcases Nat.lt_succ_iff_lt_or_eq.mp hu with hlt | rfl
      · exact hdevt u hlt hread
      · rw [hreads, ← hdev u (hiff.mp hread), heq u (Nat.le_succ u)]
        exact hokt.abs_data (hiff.mp hread).1
    refine ⟨h.ok (t + 1) (fun u hu => ?_) fun u hu => ?_, hnext, ?_⟩
    · exact (hok u hu fun v hv => hnext v (by omega)).1
    · exact (hok u hu fun v hv => hnext v (by omega)).2
    · rw [SimTop.deviceReads, Nat.count_succ, deviceReads, Nat.count_succ]
      change SimTop.deviceReads a (fun t => (s t).absIn (i t)) t + _ = deviceReads s t + _
      rw [hreads]
      simp only [hiff]

/-- In a run of a program each cycle of the simulator is one of the abstract system. -/
theorem Simulator.IsRun.program (h : Simulator.IsRun s i)
    (hx : Isa.Executes (ramWord (s 0).ram.ram rest) x op dev)
    (hfit : ∀ n, (x n).FitsRam (op n)) (hdev : DevicesReturn s i dev) :
    SimTop.IsRun (fun t => (s t).abs rest) (fun t => (s t).absIn (i t)) ∧
      ∀ t, (s t).Ok ∧
        SimTop.DevicesReturn (fun t => (s t).abs rest) (fun t => (s t).absIn (i t)) dev t := by
  have hrun : SimTop.IsRun (fun t => (s t).abs rest) fun t => (s t).absIn (i t) := by
    refine h.fromReset.refines (fun y => y.abs rest) Simulator.absIn (h.abs_start rest)
      (fun _ _ hj => hj) ?_
    intro a ha t heq
    rw [h.next t, heq t (Nat.le_refl t)]
    exact (h.ok_of_abs hx hfit hdev ha t heq).1.step_abs (h.noReset t) rest
  refine ⟨hrun, fun t => ?_⟩
  obtain ⟨hok, hd, _⟩ := h.ok_of_abs hx hfit hdev hrun t fun _ _ => rfl
  exact ⟨hok, hd⟩

/-- The reports of write-back before cycle `t`. -/
def Simulator.commitsBefore (s : ℕ → Simulator) (t : ℕ) : List Isa.Commit :=
  (List.range t).filterMap fun u => (s u).top.core.difftestInstrCommit

/-- The simulator executes programs.  In a run with a program in the array that fits it, for
every choice of the delays, the reports of write-back are the first commits of the program in
each cycle, they come to be the first `n` of them for every `n`, and the simulation does not
end with an error. -/
theorem Simulator.IsRun.runs_program (h : Simulator.IsRun s i)
    (hx : Isa.Executes (ramWord (s 0).ram.ram rest) x op dev)
    (hfit : ∀ n, (x n).FitsRam (op n)) (hdev : DevicesReturn s i dev) :
    (∀ t, (s t).finish = false) ∧
      (∀ t, ∃ n, commitsBefore s t = (List.range n).map fun k => (x k).commit (op k) dev) ∧
      ∀ n, ∃ t, commitsBefore s t = (List.range n).map fun k => (x k).commit (op k) dev := by
  obtain ⟨hrun, hall⟩ := h.program hx hfit hdev
  refine ⟨fun t => (hall t).1.finish, fun t => ?_, fun n => ?_⟩
  · exact ⟨_, hrun.commitsBefore_eq hx t (hall t).2⟩
  · obtain ⟨t, rfl⟩ := hrun.exists_places_mw hx (fun t => (hall t).2) h.frequently_ready n
    exact ⟨t, hrun.commitsBefore_eq hx t (hall t).2⟩

end Run

/-! ## The console -/

/-- The character an instruction prints: the low byte of a store to the console. -/
def Isa.State.prints (x : Isa.State) (op : Op) : Option (BitVec 8) :=
  match Isa.access op with
  | some (.store _) =>
    if x.addr op = 0x40600004#64 then some (x.rs2.extractLsb' 0 8) else none
  | _ => none

/-- The character an access prints. -/
def DeviceAccess.prints (a : DeviceAccess) : Option (BitVec 8) :=
  if a.isWrite && a.addr == 0x40600004#64 && a.strobe.getLsbD 4 then
    some (a.data.extractLsb' 32 8)
  else none

/-- The characters the helper has printed before cycle `t`. -/
def Simulator.printed (s : ℕ → Simulator) (t : ℕ) : List (BitVec 8) :=
  (List.range t).filterMap fun u => (s u).ram.fwrite (s u).oreq

/-- An aligned store to the console puts its low byte in lane four. -/
theorem Msize.Aligned.strobe_console {msize : Msize} (h : msize.Aligned 4#3) :
    (msize.strobe 4#3).getLsbD 4 = true := by
  revert h
  cases msize <;> decide

theorem extract_console {msize : Msize} (v : BitVec 64) :
    (((v.extractLsb' 0 (8 * msize.bytes)).setWidth 64) <<< 32).extractLsb' 32 8 =
      v.extractLsb' 0 8 := by
  refine BitVec.eq_of_getLsbD_eq fun k hk => ?_
  have hbytes : 1 ≤ msize.bytes := by
    cases msize <;> decide
  have h1 : 32 + k < 64 := by omega
  have h2 : k < 8 * msize.bytes := by omega
  have h3 : k < 64 := by omega
  simp [hk, h1, h2, h3]

/-- The access of an instruction prints what the instruction does. -/
theorem Isa.State.deviceAccess_prints {x : Isa.State} {op : Op} (hfit : x.Fits op)
    (dev : ℕ → BitVec 64) : (x.deviceAccess op dev).bind DeviceAccess.prints = x.prints op := by
  rw [Isa.State.deviceAccess, Isa.State.prints]
  cases ha : Isa.access op with
  | none => rfl
  | some acc =>
    cases acc with
    | load msize u =>
      dsimp only
      split
      · rfl
      · rfl
    | store msize =>
      dsimp only
      by_cases haddr : x.addr op = 0x40600004#64
      · have hun : isCached (x.addr op) = false := by
          rw [haddr]
          decide
        have hal := hfit.access _ ha
        have hoff : (x.addr op).extractLsb' 0 3 = 4#3 := by
          rw [haddr]
          decide
        rw [hoff] at hal
        have hstrobe : (msize.strobe 4#3).getLsbD 4 = true := hal.strobe_console
        have hchar : (((x.rs2.extractLsb' 0 (8 * msize.bytes)).setWidth 64) <<< 32).extractLsb'
            32 8 = x.rs2.extractLsb' 0 8 := extract_console x.rs2
        rw [if_neg (by simp [hun]), if_pos haddr, hoff, Option.bind_some]
        simp [DeviceAccess.prints, haddr, hstrobe, hchar]
      · rw [if_neg haddr]
        split
        · rfl
        · simp [DeviceAccess.prints, haddr]

section Console

/-- What the helper prints in a cycle. -/
theorem Simulator.Ok.fwrite {s : Simulator} (h : s.Ok) (i : SimulatorIn)
    (rest : BitVec 61 → BitVec 64) :
    s.ram.fwrite s.oreq = ((s.abs rest).deviceAccess (s.absIn i)).bind DeviceAccess.prints := by
  obtain ⟨x, hx, _⟩ := h.abs_oresp i rest
  have hreq : (s.abs rest).oreq (s.absIn i) = s.oreq := rfl
  rw [SimTop.deviceAccess, hreq, hx]
  rcases s.ram.state_cases with hs | hs
  · have hzero : s.oresp i = 0 := RamHelper2.oresp_of_wait hs _
    have hno : s.ram.writes 0x40600004#64 = false := by
      rcases hs with hs | hs <;> simp [RamHelper2.writes, hs]
    rw [RamHelper2.fwrite, hno, hzero]
    rfl
  · have hready : (s.oresp i).ready = true := (RamHelper2.oresp_of_burst hs _).1
    have hw := h.isWrite hs
    rcases hs with hs | hs
    · have hread : s.oreq.isWrite = false := by
        by_contra hc
        rw [hw.mpr (Bool.not_eq_false _ ▸ hc)] at hs
        cases hs
      have hno : s.ram.writes 0x40600004#64 = false := by simp [RamHelper2.writes, hs]
      rw [RamHelper2.fwrite, hno, Bool.false_and, if_neg Bool.false_ne_true]
      split
      · simp [DeviceAccess.prints, hread]
      · rfl
    · have hwrite : s.oreq.isWrite = true := hw.mp hs
      rcases h.addr_cases (.inr hs) with ⟨hc, hin⟩ | ⟨hun, haddr, _⟩
      · have hne : s.ram.addr ≠ 0x40600004#64 := hin.ne_of_lt (by decide)
        simp [RamHelper2.fwrite, RamHelper2.writes, hne, hc]
      · simp [RamHelper2.fwrite, RamHelper2.writes, hs, haddr, hun, hready, hwrite,
          DeviceAccess.prints]

variable {s : ℕ → Simulator} {i : ℕ → SimulatorIn} {rest : BitVec 61 → BitVec 64}
  {x : ℕ → Isa.State} {op : ℕ → Op} {dev : ℕ → BitVec 64}

theorem Simulator.IsRun.printed_eq (h : Simulator.IsRun s i)
    (hx : Isa.Executes (ramWord (s 0).ram.ram rest) x op dev)
    (hfit : ∀ n, (x n).FitsRam (op n)) (hdev : DevicesReturn s i dev) (t : ℕ) :
    printed s t = (List.range (SimTop.places (fun t => (s t).abs rest)
      (fun t => (s t).absIn (i t)) t).em).filterMap fun k => (x k).prints (op k) := by
  obtain ⟨hrun, hall⟩ := h.program hx hfit hdev
  have htrace := congrArg (List.filterMap DeviceAccess.prints)
    (hrun.deviceTrace_eq hx t (hall t).2)
  have hleft : (SimTop.deviceTrace (fun t => (s t).abs rest)
      (fun t => (s t).absIn (i t)) t).filterMap DeviceAccess.prints = printed s t := by
    rw [SimTop.deviceTrace, List.filterMap_filterMap, printed]
    exact List.filterMap_congr fun u _ => ((hall u).1.fwrite (i u) rest).symm
  rw [hleft, List.filterMap_filterMap] at htrace
  rw [htrace]
  exact List.filterMap_congr fun k _ => Isa.State.deviceAccess_prints (hx.fits k) dev

/-- The console shows what the program prints.  In a run with a program in the array that fits
it, for every choice of the delays, the characters printed so far are those of the first `n`
instructions of the program, where `n` is at most two ahead of the instructions reported.
They come to be those of the first `n` instructions and more, for every `n`. -/
theorem Simulator.IsRun.prints_program (h : Simulator.IsRun s i)
    (hx : Isa.Executes (ramWord (s 0).ram.ram rest) x op dev)
    (hfit : ∀ n, (x n).FitsRam (op n)) (hdev : DevicesReturn s i dev) :
    (∀ t, ∃ n, printed s t = ((List.range n).filterMap fun k => (x k).prints (op k)) ∧
        (commitsBefore s t).length ≤ n ∧ n ≤ (commitsBefore s t).length + 2) ∧
      ∀ n, ∃ t, ((List.range n).filterMap fun k => (x k).prints (op k)) <+: printed s t := by
  obtain ⟨hrun, hall⟩ := h.program hx hfit hdev
  constructor
  · intro t
    have hlen := congrArg List.length (hrun.commitsBefore_eq hx t (hall t).2)
    rw [List.length_map, List.length_range] at hlen
    have hlen : (commitsBefore s t).length = _ := hlen
    obtain ⟨hle, hle'⟩ := (hrun.simulates hx t (hall t).2).1.core.follows.em_le
    rw [hlen]
    exact ⟨_, h.printed_eq hx hfit hdev t, hle, hle'⟩
  · intro n
    obtain ⟨t, rfl⟩ := hrun.exists_places_mw hx (fun t => (hall t).2) h.frequently_ready n
    obtain ⟨hle, _⟩ := (hrun.simulates hx t (hall t).2).1.core.follows.em_le
    refine ⟨t, ?_⟩
    rw [h.printed_eq hx hfit hdev t]
    obtain ⟨d, hd⟩ := Nat.exists_eq_add_of_le hle
    rw [hd, List.range_add, List.filterMap_append]
    exact List.prefix_append _ _

end Console

/-! ## An example run -/

/-- The simulator after the reset, with a program in the array. -/
def Simulator.afterReset (program : List (BitVec 32)) : Simulator :=
  let powerOn : Simulator :=
    { top := ⟨.clear, .clear 7, .clear 8, ⟨false, (0 : Fin 2), 0⟩⟩
      ram :=
        { savedOreq := 0
          state := .none
          countDown := 0
          size := 0
          addr := 0
          wrap1 := 0
          wrap2 := 0
          cycCnt := 0
          msCnt := 0
          mtime := 0
          mtimecmp := 0
          msip := false
          trint := false
          swint := false
          exint := false
          ram := fun a => programWord program (a.setWidth 61 + 0x10000000#61) } }
  (powerOn.step ⟨true, ⟨0, 0⟩⟩).step ⟨true, ⟨0, 0⟩⟩

/-- The run of a program with a memory that waits for a cycle. -/
def Simulator.boot (program : List (BitVec 32)) : ℕ → Simulator :=
  Sync.runFrom Simulator.step (.afterReset program) fun _ => ⟨false, ⟨0, 0⟩⟩

theorem Simulator.boot_isRun (program : List (BitVec 32)) :
    Simulator.IsRun (boot program) fun _ => ⟨false, ⟨0, 0⟩⟩ where
  start := ⟨_, _, _, rfl, rfl, rfl⟩
  noReset _ := rfl
  next _ := rfl

theorem Simulator.boot_word (program : List (BitVec 32)) :
    ramWord (boot program 0).ram.ram (programWord program) = programWord program := by
  funext a
  rw [ramWord]
  split
  · rename_i hin
    change programWord program (((a - 0x10000000#61).setWidth 25).setWidth 61 + 0x10000000#61) = _
    refine congrArg (programWord program) (BitVec.eq_of_toNat_eq ?_)
    have hbase : (0x10000000#61).toNat = 0x10000000 := rfl
    rw [BitVec.toNat_add, BitVec.toNat_setWidth, BitVec.toNat_setWidth, BitVec.toNat_sub, hbase]
    omega
  · rfl

/-- The words the devices have returned are such a sequence. -/
theorem Simulator.exists_devicesReturn (s : ℕ → Simulator) (i : ℕ → SimulatorIn) :
    ∃ dev, DevicesReturn s i dev := by
  refine ⟨fun n => ((s (Nat.nth (fun u => (s u).ReadsDevice) n)).oresp
    (i (Nat.nth (fun u => (s u).ReadsDevice) n))).data, fun t hread => ?_⟩
  have hcount : Nat.nth (fun u => (s u).ReadsDevice) (deviceReads s t) = t := Nat.nth_count hread
  simp only [hcount]

/-- An instruction that is no load does the same whatever the devices return. -/
theorem Isa.State.exec_dev {x : Isa.State} {op : Op}
    (h : ∀ msize u, Isa.access op ≠ some (.load msize u)) (dev dev' : ℕ → BitVec 64) :
    x.exec op dev = x.exec op dev' := by
  have hresult : x.result op dev = x.result op dev' := by
    rw [Isa.State.result, Isa.State.result]
    cases ha : Isa.access op with
    | none => rfl
    | some acc =>
      cases acc with
      | load msize u => exact absurd ha (h msize u)
      | store msize => rfl
  rw [Isa.State.exec, Isa.State.exec, Isa.State.regsNxt, Isa.State.regsNxt, hresult]

/-- `lui x2, 0x40600`, `addi x1, x0, 65`, `sb x1, 4(x2)`, and a jump to itself. -/
def consoleThenLoop : List (BitVec 32) :=
  [0x40600137#32, 0x04100093#32, 0x00110223#32, 0x0000006f#32]

/-- The operations of `consoleThenLoop` in the order they are executed. -/
def consoleThenLoopOp : ℕ → Op
  | 0 => .lui
  | 1 => .addi
  | 2 => .sb
  | _ + 3 => .jal

/-- The states of `consoleThenLoop`. -/
def consoleThenLoopState : ℕ → Isa.State
  | 0 => .initial (programWord consoleThenLoop)
  | n + 1 => (consoleThenLoopState n).exec (consoleThenLoopOp n) fun _ => 0

theorem consoleThenLoop_loops (dev : ℕ → BitVec 64) :
    Isa.Loops consoleThenLoopState consoleThenLoopOp dev 3 where
  next n := by
    refine Isa.State.exec_dev ?_ _ _
    rcases n with _ | _ | _ | n <;> exact nofun
  jumps _ := rfl
  instr := by decide +kernel

theorem consoleThenLoop_executes (dev : ℕ → BitVec 64) :
    Isa.Executes (programWord consoleThenLoop) consoleThenLoopState consoleThenLoopOp dev :=
  (consoleThenLoop_loops dev).executes rfl (by decide +kernel) (by decide +kernel)

theorem consoleThenLoop_fitsRam (n : ℕ) :
    (consoleThenLoopState n).FitsRam (consoleThenLoopOp n) := by
  have hother : ∀ x : Isa.State, opOf x.instr ≠ opJal → opOf x.instr ≠ opBeq →
      InRam (x.pc + 4) → ∀ bpb : Bpb, InRam (bpb.bpResult x.instr x.pc).targetPc := by
    intro x hj hb hin bpb
    rw [bpResult_other hj hb]
    exact hin
  refine (consoleThenLoop_loops fun _ => 0).all (fun n hn => ?_) n
  interval_cases n
  · exact ⟨by decide +kernel, hother _ (by decide +kernel) (by decide +kernel)
      (by decide +kernel), nofun, nofun, nofun⟩
  · exact ⟨by decide +kernel, hother _ (by decide +kernel) (by decide +kernel)
      (by decide +kernel), nofun, nofun, nofun⟩
  · refine ⟨by decide +kernel, hother _ (by decide +kernel) (by decide +kernel)
      (by decide +kernel), ?_, nofun, ?_⟩
    · rintro _ ⟨⟩ hc
      exact absurd hc (by decide +kernel)
    · rintro _ ⟨⟩ _
      decide +kernel
  · refine ⟨by decide +kernel, fun bpb => ?_, nofun, nofun, nofun⟩
    rw [bpResult_jal (by decide +kernel)]
    decide +kernel

theorem consoleThenLoop_boot (dev : ℕ → BitVec 64) :
    Isa.Executes
      (ramWord (Simulator.boot consoleThenLoop 0).ram.ram (programWord consoleThenLoop))
      consoleThenLoopState consoleThenLoopOp dev := by
  rw [Simulator.boot_word]
  exact consoleThenLoop_executes dev

/-- The program is executed. -/
theorem consoleThenLoop_runs :
    ∃ dev, (∀ t, (Simulator.boot consoleThenLoop t).finish = false) ∧
      (∀ t, ∃ n, Simulator.commitsBefore (Simulator.boot consoleThenLoop) t =
        (List.range n).map fun k => (consoleThenLoopState k).commit (consoleThenLoopOp k) dev) ∧
      ∀ n, ∃ t, Simulator.commitsBefore (Simulator.boot consoleThenLoop) t =
        (List.range n).map fun k => (consoleThenLoopState k).commit (consoleThenLoopOp k) dev := by
  obtain ⟨dev, hdev⟩ := Simulator.exists_devicesReturn (Simulator.boot consoleThenLoop)
    fun _ => ⟨false, ⟨0, 0⟩⟩
  exact ⟨dev, (Simulator.boot_isRun consoleThenLoop).runs_program (consoleThenLoop_boot dev)
    consoleThenLoop_fitsRam hdev⟩

/-- The character is printed. -/
theorem consoleThenLoop_prints :
    ∃ t, [65#8] <+: Simulator.printed (Simulator.boot consoleThenLoop) t := by
  obtain ⟨dev, hdev⟩ := Simulator.exists_devicesReturn (Simulator.boot consoleThenLoop)
    fun _ => ⟨false, ⟨0, 0⟩⟩
  have hchars : (List.range 3).filterMap (fun k =>
      (consoleThenLoopState k).prints (consoleThenLoopOp k)) = [65#8] := by decide +kernel
  have hprints := ((Simulator.boot_isRun consoleThenLoop).prints_program
    (consoleThenLoop_boot dev) consoleThenLoop_fitsRam hdev).2 3
  rwa [hchars] at hprints

/-- The run is one of the abstract system. -/
theorem consoleThenLoop_refines :
    SimTop.IsRun (fun t => (Simulator.boot consoleThenLoop t).abs (programWord consoleThenLoop))
        (fun t => (Simulator.boot consoleThenLoop t).absIn ⟨false, ⟨0, 0⟩⟩) ∧
      (∀ t, (Simulator.boot consoleThenLoop t).finish = false) ∧
      ∃ᶠ t in Filter.atTop,
        ((Simulator.boot consoleThenLoop t).absIn ⟨false, ⟨0, 0⟩⟩).ram.ready = true := by
  obtain ⟨dev, hdev⟩ := Simulator.exists_devicesReturn (Simulator.boot consoleThenLoop)
    fun _ => ⟨false, ⟨0, 0⟩⟩
  have hboot := Simulator.boot_isRun consoleThenLoop
  obtain ⟨hrun, hall⟩ := hboot.program (consoleThenLoop_boot dev) consoleThenLoop_fitsRam hdev
  have hw : ∀ t, ¬(Simulator.boot consoleThenLoop t).top.Withdraws
      (Simulator.boot consoleThenLoop t).ram.pins := fun t =>
    (hrun.simulates (consoleThenLoop_boot dev) t (hall t).2).2.1.not_withdraws
  exact hboot.refines_simTop hw (fun t => (hall t).1.range) (programWord consoleThenLoop)

end RiscvCpu
