import RiscvCpu.Coherence.Fetch
import RiscvCpu.RamHelper
import RiscvCpu.Sync.Progress
import RiscvCpu.Sync.Refine

/-!
# The simulator

`SimTop.sv` as it is built for simulation: the top module on the cache bus of `RAMHelper2`,
which drives the interrupt pins as well.  `Simulator.abs` forgets the registers of the helper
and keeps its contents and the number of beats that are done.  The array covers 256 MB from
`0x80000000` on.  What lies elsewhere in the abstract memory is a parameter.

As long as the requests are for the array or for devices, and no fetch is withdrawn, each
cycle of the simulator is a cycle of the abstract system, and the helper has no error to
report.
-/

namespace RiscvCpu

/-- The registers of the simulated design. -/
structure Simulator where
  top : VTop
  ram : RamHelper2

/-- The inputs of the simulated design. -/
structure SimulatorIn where
  reset : Bool
  ram : RamHelper2In
deriving DecidableEq, Repr

section Simulator

variable (s : Simulator) (i : SimulatorIn)

/-- `trint`, `swint` and `exint`. -/
def RamHelper2.pins (m : RamHelper2) : Pins := ⟨m.trint, m.swint, m.exint⟩

/-- `oreq`. -/
def Simulator.oreq : CbusReq := s.top.oreq s.ram.pins

/-- `oresp`. -/
def Simulator.oresp : CbusResp := s.ram.oresp i.ram.switch

/-- The clock edge. -/
def Simulator.step : Simulator where
  top := s.top.step ⟨i.reset, s.oresp i, s.ram.pins⟩
  ram := s.ram.step s.oreq i.ram i.reset

/-- Does the simulation end with an error? -/
def Simulator.finish : Bool := s.ram.finish s.oreq

end Simulator

/-- `s` is a run of the simulator.  The reset is held for more than one cycle. -/
structure Simulator.IsRun (s : ℕ → Simulator) (i : ℕ → SimulatorIn) : Prop where
  start : ∃ x j k, j.reset = true ∧ k.reset = true ∧ s 0 = (Simulator.step x j).step k
  noReset : ∀ t, (i t).reset = false
  next : ∀ t, s (t + 1) = (s t).step (i t)

/-! ## Addresses of the array -/

/-- The address is one of the array. -/
def InRam (addr : BitVec 64) : Prop := 0x80000000 ≤ addr.toNat ∧ addr.toNat < 0x90000000

instance (addr : BitVec 64) : Decidable (InRam addr) := inferInstanceAs (Decidable (_ ∧ _))

/-- The contents of memory: those of the array, and `rest` outside of it. -/
def ramWord (ram : BitVec 25 → BitVec 64) (rest : BitVec 61 → BitVec 64) (a : BitVec 61) :
    BitVec 64 :=
  if 0x10000000 ≤ a.toNat ∧ a.toNat < 0x12000000 then ram ((a - 0x10000000#61).setWidth 25)
  else rest a

section Array

variable {m : RamHelper2} {rest : BitVec 61 → BitVec 64} {oreq : CbusReq}

theorem InRam.word {addr : BitVec 64} (h : InRam addr) :
    0x10000000 ≤ (wordOf addr).toNat ∧ (wordOf addr).toNat < 0x12000000 := by
  obtain ⟨hlo, hhi⟩ := h
  rw [toNat_wordOf]
  omega

/-- The devices are not in the array. -/
theorem InRam.ne_of_lt {addr a : BitVec 64} (h : InRam addr) (ha : a.toNat < 0x80000000) :
    addr ≠ a := by
  intro heq
  have := h.1
  rw [heq] at this
  omega

theorem InRam.not_mem_writeRegisters {addr : BitVec 64} (h : InRam addr) :
    addr ∉ writeRegisters := by
  have hlow : ∀ a ∈ writeRegisters, a.toNat < 0x80000000 := by
    simp [writeRegisters]
  exact fun hm => h.ne_of_lt (hlow addr hm) rfl

/-- The index of an address of the array is that of its word. -/
theorem RamHelper2.idx_eq (h : InRam m.addr) :
    m.idx.toNat < 2 ^ 25 ∧ m.idx.setWidth 25 = (wordOf m.addr - 0x10000000#61).setWidth 25 := by
  obtain ⟨hlo, hhi⟩ := h
  have hbase : (0x80000000#64).toNat = 0x80000000 := rfl
  have hword := toNat_wordOf m.addr
  have hidx : m.idx.toNat = (m.addr.toNat - 0x80000000) / 8 := by
    rw [idx]
    split
    · rw [BitVec.toNat_ushiftRight, BitVec.toNat_sub, Nat.shiftRight_eq_div_pow, hbase]
      omega
    · rename_i hle
      have hle : m.addr.toNat ≤ 0x80000000 := Nat.le_of_not_lt hle
      have hzero : (0 : BitVec 64).toNat = 0 := rfl
      omega
  refine ⟨by omega, ?_⟩
  apply BitVec.eq_of_toNat_eq
  rw [BitVec.toNat_setWidth, BitVec.toNat_setWidth, hidx, BitVec.toNat_sub, hword]
  simp only [BitVec.toNat_ofNat]
  omega

/-- A beat that is read returns the word of memory. -/
theorem RamHelper2.rdata_inRam (h : InRam m.addr) (switch : BitVec 32) :
    m.rdata switch = ramWord m.ram rest (wordOf m.addr) := by
  have hreg : ∀ a : BitVec 64, a.toNat < 0x80000000 → m.addr ≠ a := fun a ha => h.ne_of_lt ha
  rw [ramWord, if_pos h.word, ← (idx_eq h).2]
  simp only [rdata, hreg 0x40600008#64 (by decide), hreg 0x38000000#64 (by decide),
    hreg 0x38004000#64 (by decide), hreg 0x3800bff8#64 (by decide),
    hreg 0x20003000#64 (by decide), hreg 0x23333008#64 (by decide), if_false, ramReadHelper]

/-- A beat that is written changes the word of memory. -/
theorem RamHelper2.ramWord_ramNxt (h : InRam m.addr) (hs : m.state = .write) :
    ramWord (m.ramNxt oreq) rest = Function.update (ramWord m.ram rest) (wordOf m.addr)
      (mergeBytes (ramWord m.ram rest (wordOf m.addr)) oreq.data oreq.strobe) := by
  obtain ⟨hlt, hidx⟩ := idx_eq h
  have hram : m.ramNxt oreq = Function.update m.ram (m.idx.setWidth 25)
      (mergeBytes (m.ram (m.idx.setWidth 25)) oreq.data oreq.strobe) := by
    rw [ramNxt, if_pos ⟨hs, h.not_mem_writeRegisters⟩, ramWriteHelper, if_pos hlt]
  funext a
  rw [hram]
  by_cases ha : a = wordOf m.addr
  · subst ha
    rw [Function.update_self, ramWord, if_pos h.word, ramWord, if_pos h.word, hidx,
      Function.update_self]
  · rw [Function.update_of_ne ha, ramWord, ramWord]
    split
    · rename_i hin
      have hne : (a - 0x10000000#61).setWidth 25 ≠ m.idx.setWidth 25 := by
        intro heq
        refine ha (BitVec.eq_of_toNat_eq ?_)
        rw [hidx] at heq
        have := congrArg BitVec.toNat heq
        have hw := h.word
        have hlit : (0x10000000#61).toNat = 0x10000000 := rfl
        rw [BitVec.toNat_setWidth, BitVec.toNat_setWidth, BitVec.toNat_sub, BitVec.toNat_sub,
          hlit] at this
        omega
      rw [Function.update_of_ne hne]
    · rfl

/-- What is not written to the array leaves memory as it is. -/
theorem RamHelper2.ramNxt_of_register (h : m.addr ∈ writeRegisters) : m.ramNxt oreq = m.ram :=
  if_neg fun hc => hc.2 h

end Array

/-! ## Requests of the top module -/

/-- The helper can serve the request: it is for the array, or a single beat for a device. -/
def CbusReq.InRange (req : CbusReq) : Prop :=
  InRam req.addr ∨ isCached req.addr = false ∧ req.len = mlen1 ∧
    if req.isWrite then req.addr ∈ writeRegisters else req.addr.toNat < 0x80000000

instance CbusReq.decidableInRange (req : CbusReq) : Decidable req.InRange :=
  inferInstanceAs (Decidable (InRam req.addr ∨ isCached req.addr = false ∧ req.len = mlen1 ∧
    if req.isWrite then req.addr ∈ writeRegisters else req.addr.toNat < 0x80000000))

theorem InRam.isCached {addr : BitVec 64} (h : InRam addr) : isCached addr = true :=
  isCached_of_range h.1 (by have := h.2; omega)

section Request

variable {req : CbusReq}

/-- The beats of a line stay in the array. -/
theorem CbusReq.FromCache.beatAddr_inRam (h : req.FromCache) (hr : InRam req.addr) (k : ℕ) :
    InRam (req.beatAddr k) := by
  cases h with
  | single hb hl hw =>
    rw [beatAddr, hb]
    exact hr
  | line hb hl hs ha hw =>
    obtain ⟨hlo, hhi⟩ := hr
    have hbeat : (req.beatAddr k).toNat = (req.addr.toNat / 128 * 128 +
        (req.addr.toNat - req.addr.toNat / 128 * 128 + k * 8) % 128) % 2 ^ 64 := by
      rw [beatAddr, hb, hl, hs]
      exact BitVec.toNat_ofNat _ _
    rw [InRam, hbeat]
    omega

end Request

/-! ## What a cache makes of the data of a write -/

section Data

variable {ib : ℕ} {d : Cache ib} {s : VTop} {i : VTopIn}

/-- A cache that writes a line back does not look at the data of the answer. -/
theorem Cache.step_data (hs : d.missState = .writeback) (dreq : DbusReq) (cresp : CbusResp)
    (x : BitVec 64) (fsmToMiss reset : Bool) :
    d.step dreq { cresp with data := x } fsmToMiss reset = d.step dreq cresp fsmToMiss reset := by
  have hfsm : d.missFsm { cresp with data := x } = d.missFsm cresp := by
    rw [missFsm, missFsm, hs]
  have hram : d.dataRamNxt dreq { cresp with data := x } = d.dataRamNxt dreq cresp := by
    funext y
    simp only [dataRamNxt, hs]
    rfl
  rw [step, step, hfsm, hram]

theorem Cache.dresp_data (hs : d.missState = .writeback) (dreq : DbusReq) (cresp : CbusResp)
    (x : BitVec 64) (b : Bool) :
    d.dresp dreq { cresp with data := x } b = d.dresp dreq cresp b := by
  have hskip : d.skip dreq = false := by simp [skip, hs]
  simp only [dresp, hskip]
  rfl

/-- The data of an answer to the write-back of a line is not looked at. -/
theorem VTop.step_data (x : BitVec 64) (hb : s.mux.busy = true)
    (hd : s.mux.index = (0 : Fin 2) → s.dcache.missState = .writeback)
    (hi : s.mux.index = (1 : Fin 2) → s.icache.missState = .writeback) :
    s.step { i with oresp := { i.oresp with data := x } } = s.step i := by
  rcases s.index_cases with hj | hj
  · have hnone : ∀ oresp, s.icresp oresp = 0 := fun oresp => by
      simp [icresp, CBusArbiter.iresps, hj]
    have hresp : ∀ c : CbusResp, s.dcresp c = c := dcresp_granted hb hj
    have hin : s.coreIn { i with oresp := { i.oresp with data := x } } = s.coreIn i := by
      simp only [coreIn, iresp, dresp, hnone, hresp, DCache.dresp, Cache.dresp_data (hd hj)]
    simp only [step, hin, hnone, hresp, DCache.step, DCache.fsmToMiss, Cache.missReady,
      Cache.step_data (hd hj), CBusArbiter.step]
  · have hnone : ∀ oresp, s.dcresp oresp = 0 := fun oresp => by
      simp [dcresp, CBusArbiter.iresps, hj]
    have hresp : ∀ c : CbusResp, s.icresp c = c := icresp_granted hb hj
    have hin : s.coreIn { i with oresp := { i.oresp with data := x } } = s.coreIn i := by
      simp only [coreIn, iresp, dresp, hnone, hresp, ICache.iresp, Cache.dresp_data (hi hj)]
    simp only [step, hin, hnone, hresp, ICache.step, ICache.fsmToMiss, Cache.missReady,
      Cache.step_data (hi hj), CBusArbiter.step]

end Data

/-! ## The abstract system -/

section Abs

variable (s : Simulator) (i : SimulatorIn) (rest : BitVec 61 → BitVec 64)

/-- The abstract system, with `rest` outside of the array. -/
def Simulator.abs : SimTop := ⟨s.top, ⟨ramWord s.ram.ram rest, s.ram.beat⟩⟩

/-- Its inputs.  Memory is ready while the helper answers, and while nothing is asked. -/
def Simulator.absIn : SimTopIn where
  reset := i.reset
  pins := s.ram.pins
  ram := ⟨s.ram.state == .read || s.ram.state == .write || !s.oreq.valid, (s.oresp i).data⟩

end Abs

/-- What is known of the simulator in a cycle of a run. -/
structure Simulator.Ok (s : Simulator) : Prop where
  serves : s.ram.Serves s.top.mux
  grant : s.top.GrantOk s.ram.beat
  asks : s.top.Asks s.ram.pins
  range : s.oreq.valid = true → s.oreq.InRange

section Cycle

variable {s : Simulator} {i : SimulatorIn} {rest : BitVec 61 → BitVec 64}

theorem RamHelper2.ne_none {m : RamHelper2} (hs : m.state = .read ∨ m.state = .write) :
    m.state ≠ .none := by
  rcases hs with hs | hs
  · simp [hs]
  · simp [hs]

/-- The address register is at the beat of the request. -/
theorem Simulator.Ok.addr (h : s.Ok) (hs : s.ram.state = .read ∨ s.ram.state = .write) :
    s.ram.addr = s.oreq.beatAddr s.ram.beat := by
  obtain ⟨_, _, hsame⟩ := h.serves.request h.asks (RamHelper2.ne_none hs)
  rw [(h.serves.burst hs).addr, RamHelper2.beat_of_burst hs, hsame.beatAddr]
  rfl

/-- The address register is in the array, or at a device. -/
theorem Simulator.Ok.addr_cases (h : s.Ok) (hs : s.ram.state = .read ∨ s.ram.state = .write) :
    isCached s.oreq.addr = true ∧ InRam s.ram.addr ∨
      isCached s.oreq.addr = false ∧ s.ram.addr = s.oreq.addr ∧
        if s.oreq.isWrite then s.oreq.addr ∈ writeRegisters
        else s.oreq.addr.toNat < 0x80000000 := by
  obtain ⟨_, hv, hsame⟩ := h.serves.request h.asks (RamHelper2.ne_none hs)
  have hf := VTop.oreq_fromCache hv
  have haddr := h.addr hs
  rcases h.range hv with hin | ⟨hc, hl, hw⟩
  · refine .inl ⟨hin.isCached, ?_⟩
    rw [haddr]
    exact hf.beatAddr_inRam hin _
  · refine .inr ⟨hc, ?_, hw⟩
    have hbeat : s.ram.beat = 0 := by
      have hlen : s.ram.savedOreq.len = mlen1 := hsame.len.trans hl
      rw [RamHelper2.beat_of_burst hs, hlen]
      exact Nat.zero_sub _
    rw [haddr, hbeat, CbusReq.beatAddr_zero]

/-- The helper has no error to report. -/
theorem Simulator.Ok.finish (h : s.Ok) : s.finish = false := by
  have hmod : s.ram.state ≠ .none → s.ram.modified s.oreq = false := by
    intro hne
    obtain ⟨_, hv, hsame⟩ := h.serves.request h.asks hne
    exact RamHelper2.modified_eq_false (hv.trans (h.serves.saved hne).1.symm) hsame
  rw [Simulator.finish, RamHelper2.finish]
  cases hs : s.ram.state with
  | none => rfl
  | wait => exact hmod (by simp [hs])
  | write => exact hmod (by simp [hs])
  | read =>
    rw [hmod (by simp [hs]), Bool.false_or, decide_eq_false_iff_not]
    have hread : s.ram.state = .read ∨ s.ram.state = .write := .inl hs
    have hw : s.oreq.isWrite = false := by
      obtain ⟨_, _, hsame⟩ := h.serves.request h.asks (by simp [hs])
      have hiff := (h.serves.burst hread).isWrite
      rw [hs, hsame.isWrite] at hiff
      change s.oreq.isWrite = false
      cases hc : s.oreq.isWrite with
      | false => rfl
      | true => exact absurd (hiff.mpr hc) (by simp)
    have hlt : s.ram.addr.toNat < 0x90000000 := by
      rcases h.addr_cases hread with ⟨_, hin⟩ | ⟨_, heq, hdev⟩
      · exact hin.2
      · rw [if_neg (by simp [hw])] at hdev
        rw [heq]
        omega
    have hbase : (0x80000000#64).toNat = 0x80000000 := rfl
    have hend : (0x10000000#64).toNat = 0x10000000 := rfl
    intro hle
    have hle : (0x10000000#64).toNat ≤ s.ram.idx.toNat := hle
    rw [RamHelper2.idx] at hle
    split at hle
    · rename_i hgt
      have hgt : (0x80000000#64).toNat < s.ram.addr.toNat := hgt
      rw [BitVec.toNat_ushiftRight, BitVec.toNat_sub, Nat.shiftRight_eq_div_pow, hbase,
        hend] at hle
      omega
    · rw [hend] at hle
      exact absurd hle (by decide)

/-- The answer of the abstract memory.  It has data for a write to the array as well. -/
theorem Simulator.Ok.abs_oresp (h : s.Ok) (i : SimulatorIn) (rest : BitVec 61 → BitVec 64) :
    ∃ x, (s.abs rest).oresp (s.absIn i) = { s.oresp i with data := x } ∧
      (x ≠ (s.oresp i).data → s.ram.state = .write ∧ isCached s.oreq.addr = true) := by
  have hreq : (s.abs rest).oreq (s.absIn i) = s.oreq := rfl
  rcases s.ram.state_cases with hs | hs
  · have hzero : s.oresp i = 0 := RamHelper2.oresp_of_wait hs _
    refine ⟨0, ?_, fun hne => absurd (by rw [hzero]; rfl) hne⟩
    rw [hzero, SimTop.oresp, hreq, Ram.resp, if_neg]
    · rfl
    · rcases hs with hs | hs <;> simp [Simulator.absIn, hs]
  · obtain ⟨_, hv, hsame⟩ := h.serves.request h.asks (RamHelper2.ne_none hs)
    obtain ⟨hready, hlast⟩ := RamHelper2.oresp_of_burst hs i.ram.switch
    have hle := (h.serves.burst hs).countDown
    have hbeat := RamHelper2.beat_of_burst hs
    have hl : (s.ram.beat == s.oreq.len.toNat) = (s.oresp i).last := by
      have hlen : s.oreq.len = s.ram.savedOreq.len := hsame.len.symm
      change _ = (s.ram.oresp i.ram.switch).last
      rw [hlast, hlen, hbeat, Bool.eq_iff_iff, beq_iff_eq, beq_iff_eq, ← BitVec.toNat_inj]
      have hzero : (0 : BitVec 8).toNat = 0 := rfl
      omega
    have habs : (s.abs rest).oresp (s.absIn i) = ⟨true, (s.oresp i).last,
        if isCached s.oreq.addr then ramWord s.ram.ram rest (wordOf s.ram.addr)
        else (s.oresp i).data⟩ := by
      have hgo : (s.oreq.valid && (s.absIn i).ram.ready) = true := by
        have hv : s.oreq.valid = true := hv
        rcases hs with hs | hs <;> simp [hv, Simulator.absIn, hs]
      rw [SimTop.oresp, hreq, Ram.resp, if_pos hgo, ← hl, h.addr hs]
      rfl
    refine ⟨if isCached s.oreq.addr then ramWord s.ram.ram rest (wordOf s.ram.addr)
      else (s.oresp i).data, habs.trans ?_, fun hne => ?_⟩
    · have hready : (s.oresp i).ready = true := hready
      rw [← hready]
    · cases hc : isCached s.oreq.addr with
      | false =>
        rw [hc] at hne
        exact absurd rfl hne
      | true =>
        refine ⟨?_, rfl⟩
        rcases hs with hs | hs
        · refine absurd ?_ hne
          rcases h.addr_cases (.inl hs) with ⟨_, hin⟩ | ⟨hun, _⟩
          · have hdata : (s.oresp i).data = s.ram.rdata i.ram.switch := by
              rw [Simulator.oresp, RamHelper2.oresp, hs]
            rw [hc, if_pos rfl, hdata, RamHelper2.rdata_inRam hin]
          · exact absurd (hun.symm.trans hc) Bool.false_ne_true
        · exact hs

/-- What writes to the array is the write-back of a line. -/
theorem Simulator.Ok.writeback (h : s.Ok) (hs : s.ram.state = .write)
    (hc : isCached s.oreq.addr = true) :
    s.top.mux.busy = true ∧
      (s.top.mux.index = (0 : Fin 2) → s.top.dcache.missState = .writeback) ∧
      (s.top.mux.index = (1 : Fin 2) → s.top.icache.missState = .writeback) := by
  have hburst : s.ram.state = .read ∨ s.ram.state = .write := .inr hs
  obtain ⟨hb, _, hsame⟩ := h.serves.request h.asks (RamHelper2.ne_none hburst)
  have hsaved := (h.serves.saved (RamHelper2.ne_none hburst)).2.2
  have hw : s.top.mux.savedReq.isWrite = true := by
    rw [← hsaved.isWrite]
    exact (h.serves.burst hburst).isWrite.mp hs
  have hc : isCached s.top.mux.savedReq.addr = true := by
    rw [(h.asks hb).2.addr]
    exact hc
  refine ⟨hb, fun hj => ?_, fun hj => ?_⟩
  · rcases h.grant.data hb hj with hp | ha
    · rw [hp.burst.isWrite] at hw
      simpa [Cache.creqNoSkip] using hw
    · rw [ha.burst.addr] at hc
      exact absurd (ha.uncached.symm.trans hc) Bool.false_ne_true
  · rcases h.grant.fetch hb hj with hp | hf
    · rw [hp.burst.isWrite] at hw
      simpa [Cache.creqNoSkip] using hw
    · rw [hf.burst.isWrite] at hw
      cases hw

/-- The top module goes on as it does with the abstract memory. -/
theorem Simulator.Ok.step_top (h : s.Ok) (i : SimulatorIn) (rest : BitVec 61 → BitVec 64) :
    (s.step i).top = ((s.abs rest).step (s.absIn i)).top := by
  obtain ⟨x, hx, hdata⟩ := h.abs_oresp i rest
  have habs : ((s.abs rest).step (s.absIn i)).top =
      s.top.step ⟨i.reset, { s.oresp i with data := x }, s.ram.pins⟩ := by
    rw [← hx]
    rfl
  rw [habs]
  by_cases heq : x = (s.oresp i).data
  · rw [heq]
    rfl
  · obtain ⟨hs, hc⟩ := hdata heq
    obtain ⟨hb, hd, hi⟩ := h.writeback hs hc
    exact (VTop.step_data (i := ⟨i.reset, s.oresp i, s.ram.pins⟩) x hb hd hi).symm

/-- The array changes as the abstract memory does. -/
theorem Simulator.Ok.step_word (h : s.Ok) (hr : i.reset = false)
    (rest : BitVec 61 → BitVec 64) :
    ramWord (s.step i).ram.ram rest = ((s.abs rest).step (s.absIn i)).ram.word := by
  obtain ⟨x, hx, _⟩ := h.abs_oresp i rest
  have hram : (s.step i).ram.ram = s.ram.ramNxt s.oreq := by
    simp [Simulator.step, RamHelper2.step, hr]
  have habs : ((s.abs rest).step (s.absIn i)).ram.word =
      (s.abs rest).ram.wordNxt s.oreq { s.oresp i with data := x } := by
    rw [← hx]
    simp only [SimTop.step, Ram.step]
    rw [show (s.absIn i).reset = false from hr]
    rfl
  rw [hram, habs]
  by_cases hs : s.ram.state = .write
  · have hburst : s.ram.state = .read ∨ s.ram.state = .write := .inr hs
    obtain ⟨_, hv, hsame⟩ := h.serves.request h.asks (RamHelper2.ne_none hburst)
    have hv : s.oreq.valid = true := hv
    have hw : s.oreq.isWrite = true := by
      change (s.top.oreq s.ram.pins).isWrite = true
      rw [← hsame.isWrite]
      exact (h.serves.burst hburst).isWrite.mp hs
    have hready : (s.oresp i).ready = true := (RamHelper2.oresp_of_burst hburst _).1
    rcases h.addr_cases hburst with ⟨hc, hin⟩ | ⟨hc, heq, hdev⟩
    · rw [RamHelper2.ramWord_ramNxt hin hs, Ram.wordNxt, if_pos (by simp [hv, hready, hw, hc]),
        h.addr hburst]
      rfl
    · rw [if_pos hw] at hdev
      rw [RamHelper2.ramNxt_of_register (heq ▸ hdev), Ram.wordNxt, if_neg (by simp [hc])]
      rfl
  · have hkeep : s.ram.ramNxt s.oreq = s.ram.ram := if_neg fun hc => hs hc.1
    rw [hkeep, Ram.wordNxt, if_neg]
    · rfl
    · rcases s.ram.state_cases with hn | hb
      · have hzero : s.oresp i = 0 := RamHelper2.oresp_of_wait hn _
        simp [hzero, CbusResp.zero_ready]
      · obtain ⟨_, _, hsame⟩ := h.serves.request h.asks (RamHelper2.ne_none hb)
        have hw : s.oreq.isWrite = false := by
          by_contra hc
          have hc : (s.top.oreq s.ram.pins).isWrite = true := Bool.not_eq_false _ ▸ hc
          rw [← hsame.isWrite] at hc
          exact hs ((h.serves.burst hb).isWrite.mpr hc)
        simp [hw]

/-- The beats go on as those of the abstract memory. -/
theorem Simulator.Ok.step_beat (h : s.Ok) (hr : i.reset = false)
    (rest : BitVec 61 → BitVec 64) :
    (s.step i).ram.beat = ((s.abs rest).step (s.absIn i)).ram.beat := by
  obtain ⟨x, hx, _⟩ := h.abs_oresp i rest
  have habs : ((s.abs rest).step (s.absIn i)).ram.beat = nextBeat s.ram.beat (s.oresp i) := by
    have hnext : nextBeat s.ram.beat (s.oresp i) =
        nextBeat s.ram.beat { s.oresp i with data := x } := rfl
    rw [hnext, ← hx]
    simp only [SimTop.step, Ram.step]
    rw [show (s.absIn i).reset = false from hr]
    rfl
  have hstep : (s.step i).ram.beat = (s.ram.fsm s.oreq i.ram.delay).beat := by
    rw [Simulator.step, hr]
    rfl
  rw [habs, hstep]
  rcases s.ram.state_cases with hs | hs
  · have hzero : s.oresp i = 0 := RamHelper2.oresp_of_wait hs _
    rw [hzero, RamHelper2.beat_of_wait hs]
    change _ = 0
    rcases hs with hs | hs
    · rw [RamHelper2.fsm, hs]
      dsimp only
      split
      · exact RamHelper2.beat_of_wait (.inr rfl)
      · exact RamHelper2.beat_of_wait (.inl hs)
    · obtain ⟨_, _, hsame⟩ := h.serves.request h.asks (by simp [hs])
      by_cases h0 : s.ram.countDown = 0
      · obtain ⟨hsaved, _, hnext, hcount⟩ := RamHelper2.fsm_wait hs hsame h0 i.ram.delay
        change (s.ram.fsm (s.top.oreq s.ram.pins) i.ram.delay).beat = 0
        rw [RamHelper2.beat_of_burst hnext, hsaved, hcount, Nat.sub_self]
      · refine RamHelper2.beat_of_wait (.inr ?_)
        rw [RamHelper2.fsm, hs]
        dsimp only
        rw [if_neg h0]
  · obtain ⟨hready, hlast⟩ := RamHelper2.oresp_of_burst hs i.ram.switch
    have hready : (s.oresp i).ready = true := hready
    have hlast : (s.oresp i).last = (s.ram.countDown == 0) := hlast
    rw [nextBeat, if_pos hready, hlast]
    by_cases h0 : s.ram.countDown = 0
    · rw [if_pos (by simp [h0])]
      exact RamHelper2.beat_of_wait (.inl (RamHelper2.fsm_last hs h0 _))
    · have hin := h.serves.burst hs
      have hle := hin.countDown
      have hfsm : s.ram.fsm s.oreq i.ram.delay =
          { s.ram with countDown := s.ram.countDown - 1, addr := s.ram.addrNxt } :=
        (hin.fsm (h.serves.saved (RamHelper2.ne_none hs)).2.1 hs h0 i.ram.delay).1
      have hdec := RamHelper2.toNat_countDown_sub h0
      have hnext : (s.ram.fsm s.oreq i.ram.delay).state = .read ∨
          (s.ram.fsm s.oreq i.ram.delay).state = .write := by
        rw [hfsm]
        exact hs
      rw [if_neg fun hc => h0 (beq_iff_eq.mp hc), RamHelper2.beat_of_burst hnext,
        RamHelper2.beat_of_burst hs, hfsm]
      change s.ram.savedOreq.len.toNat - (s.ram.countDown - 1).toNat = _
      omega

/-- A cycle of the simulator is a cycle of the abstract system. -/
theorem Simulator.Ok.step_abs (h : s.Ok) (hr : i.reset = false)
    (rest : BitVec 61 → BitVec 64) :
    (s.step i).abs rest = (s.abs rest).step (s.absIn i) := by
  have htop := h.step_top i rest
  have hword := h.step_word hr rest
  have hbeat := h.step_beat hr rest
  rw [Simulator.abs, htop, hword, hbeat]

theorem Simulator.Ok.step_serves (h : s.Ok) (hr : i.reset = false) :
    (s.step i).ram.Serves (s.step i).top.mux := by
  have hstep := h.serves.step (i := i.ram) h.asks
  rw [← hr] at hstep
  exact hstep

theorem Simulator.Ok.step_grant (h : s.Ok) (hr : i.reset = false)
    (hw : ¬s.top.Withdraws s.ram.pins) : (s.step i).top.GrantOk (s.step i).ram.beat := by
  have hbeat : ((s.abs 0).step (s.absIn i)).ram.beat =
      nextBeat (s.abs 0).ram.beat ((s.abs 0).oresp (s.absIn i)) := by
    simp [SimTop.step, Ram.step, show (s.absIn i).reset = false from hr]
  rw [h.step_top i 0, h.step_beat hr 0, hbeat]
  have hg : (s.abs 0).top.GrantOk (s.abs 0).ram.beat := h.grant
  exact hg.step (SimTop.answered hg (s.absIn i) hw) hr hw

/-! ### After the reset -/

/-- The helper rests after a reset cycle. -/
theorem Simulator.step_reset (s : Simulator) (hr : i.reset = true) :
    (s.step i).ram.state = .none ∧ (s.step i).ram.ram = s.ram.ram ∧
      (s.step i).top.mux.busy = false := by
  rw [Simulator.step, hr]
  exact ⟨rfl, rfl, rfl⟩

/-- A reset cycle of a helper that rests is one of the abstract system. -/
theorem Simulator.step_abs_reset (hs : s.ram.state = .none) (hr : i.reset = true)
    (rest : BitVec 61 → BitVec 64) : (s.step i).abs rest = (s.abs rest).step (s.absIn i) := by
  have hzero : s.oresp i = 0 := RamHelper2.oresp_of_wait (.inl hs) _
  have hreq : (s.abs rest).oreq (s.absIn i) = s.oreq := rfl
  have hnone : (s.abs rest).oresp (s.absIn i) = 0 := by
    rw [SimTop.oresp, hreq, Ram.resp, if_neg]
    simp [Simulator.absIn, hs]
  obtain ⟨hrest, hram, _⟩ := s.step_reset hr
  have htop : (s.step i).top = ((s.abs rest).step (s.absIn i)).top := by
    have habs : ((s.abs rest).step (s.absIn i)).top =
        s.top.step ⟨i.reset, (s.abs rest).oresp (s.absIn i), s.ram.pins⟩ := rfl
    rw [habs, hnone, ← hzero]
    rfl
  have hmem : ((s.abs rest).step (s.absIn i)).ram = ⟨ramWord s.ram.ram rest, 0⟩ := by
    simp only [SimTop.step, Ram.step, show (s.absIn i).reset = true from hr, if_true]
    rfl
  have heq : (s.abs rest).step (s.absIn i) = ⟨(s.step i).top, ⟨ramWord s.ram.ram rest, 0⟩⟩ := by
    rw [← hmem, htop]
  rw [heq, Simulator.abs, hram, RamHelper2.beat_of_wait (.inl hrest)]

end Cycle

/-! ## Runs -/

section Run

variable {s : ℕ → Simulator} {i : ℕ → SimulatorIn}

/-- A run of the simulator as a run from reset. -/
theorem Simulator.IsRun.fromReset (h : Simulator.IsRun s i) :
    Sync.FromReset Simulator.step (fun j => j.reset = true) s i where
  start := by
    obtain ⟨x, j, k, _, hk, hs⟩ := h.start
    exact ⟨x.step j, k, hk, hs⟩
  noReset t := Bool.eq_false_iff.mp (h.noReset t)
  next := h.next

/-- The first state is the image of one that a reset cycle of the abstract system leaves
behind. -/
theorem Simulator.IsRun.abs_start (h : Simulator.IsRun s i) (rest : BitVec 61 → BitVec 64) :
    ∃ x j, j.reset = true ∧ (s 0).abs rest = SimTop.step x j := by
  obtain ⟨x, j, k, hj, hk, hs⟩ := h.start
  rw [hs]
  exact ⟨_, _, hk, Simulator.step_abs_reset (x.step_reset hj).1 hk rest⟩

/-- The simulator is in order in each cycle, as long as no fetch is withdrawn and the requests
are for the array or for devices. -/
theorem Simulator.IsRun.ok (h : Simulator.IsRun s i) (t : ℕ)
    (hw : ∀ u ≤ t, ¬(s u).top.Withdraws (s u).ram.pins)
    (hrange : ∀ u ≤ t, (s u).oreq.valid = true → (s u).oreq.InRange) : (s t).Ok := by
  have hinv : (s t).ram.Serves (s t).top.mux ∧ (s t).top.GrantOk (s t).ram.beat := by
    induction t with
    | zero =>
      obtain ⟨x, j, k, _, hk, hs⟩ := h.start
      obtain ⟨hnone, _, hidle⟩ := (x.step j).step_reset hk
      rw [hs]
      refine ⟨⟨fun _ => hnone, fun hc => absurd hnone hc, fun hc => ?_⟩, ?_⟩
      · rw [hnone] at hc
        simp at hc
      · rw [RamHelper2.beat_of_wait (.inl hnone)]
        exact VTop.grantOk_of_reset _ hk
    | succ t ih =>
      obtain ⟨hserves, hgrant⟩ := ih (fun u hu => hw u (by omega)) fun u hu => hrange u (by omega)
      have hwt := hw t (Nat.le_succ t)
      have hok : (s t).Ok := ⟨hserves, hgrant, hgrant.asks hwt, hrange t (Nat.le_succ t)⟩
      rw [h.next t]
      exact ⟨hok.step_serves (h.noReset t), hok.step_grant (h.noReset t) hwt⟩
  exact ⟨hinv.1, hinv.2, hinv.2.asks (hw t (Nat.le_refl t)), hrange t (Nat.le_refl t)⟩

/-- Each cycle of the simulator is a cycle of the abstract system. -/
theorem Simulator.IsRun.abs_isRun (h : Simulator.IsRun s i) (hok : ∀ t, (s t).Ok)
    (rest : BitVec 61 → BitVec 64) :
    SimTop.IsRun (fun t => (s t).abs rest) fun t => (s t).absIn (i t) where
  start := h.abs_start rest
  noReset t := Bool.eq_false_iff.mp (h.noReset t)
  next t := by
    rw [h.next t]
    exact (hok t).step_abs (h.noReset t) rest

/-- Memory is ready again and again. -/
theorem Simulator.IsRun.frequently_ready (h : Simulator.IsRun s i) :
    ∃ᶠ t in Filter.atTop, ((s t).absIn (i t)).ram.ready = true := by
  have always : ∃ᶠ _ : ℕ in Filter.atTop, True :=
    (Filter.Eventually.of_forall fun _ => trivial).frequently
  refine Sync.frequently_of_rank always (fun t => (s t).ram.waiting)
    (Filter.Eventually.of_forall fun t hno => ?_)
  have hlt : (s (t + 1)).ram.waiting < (s t).ram.waiting := by
    simp only [Simulator.absIn, Bool.or_eq_true, Bool.not_eq_true', beq_iff_eq, not_or] at hno
    obtain ⟨⟨hread, hwrite⟩, hvalid⟩ := hno
    have hs : (s t).ram.state = .none ∨ (s t).ram.state = .wait := by
      rcases (s t).ram.state_cases with hs | hs
      · exact hs
      · exact absurd hs (by simp [hread, hwrite])
    have hstep : (s (t + 1)).ram.waiting =
        ((s t).ram.fsm (s t).oreq (i t).ram.delay).waiting := by
      rw [h.next t, Simulator.step, h.noReset t]
      rfl
    rw [hstep]
    exact RamHelper2.waiting_fsm hs (Bool.not_eq_false _ ▸ hvalid) _
  exact ⟨Nat.le_of_lt hlt, fun _ => hlt⟩

/-- `RAMHelper2` is the memory the caches are proved against.  In a run of the simulator in
which no fetch is withdrawn and the requests are for the array or for devices, the top module
goes through a run of the abstract system, with the contents of the array in memory and
whatever `rest` outside of it.  The helper has no error to report, and memory is ready again
and again. -/
theorem Simulator.IsRun.refines_simTop (h : Simulator.IsRun s i)
    (hw : ∀ t, ¬(s t).top.Withdraws (s t).ram.pins)
    (hrange : ∀ t, (s t).oreq.valid = true → (s t).oreq.InRange)
    (rest : BitVec 61 → BitVec 64) :
    SimTop.IsRun (fun t => (s t).abs rest) (fun t => (s t).absIn (i t)) ∧
      (∀ t, (s t).finish = false) ∧
      ∃ᶠ t in Filter.atTop, ((s t).absIn (i t)).ram.ready = true := by
  have hok : ∀ t, (s t).Ok := fun t => h.ok t (fun u _ => hw u) fun u _ => hrange u
  exact ⟨h.abs_isRun hok rest, fun t => (hok t).finish, h.frequently_ready⟩

end Run

end RiscvCpu
