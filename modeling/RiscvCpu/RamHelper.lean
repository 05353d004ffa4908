import RiscvCpu.Board
import RiscvCpu.Grant

/-!
# The memory of the simulator

`RAMHelper2` of `ram.sv`, with the array of `ram.cpp` behind it.  It takes a request, waits
for a number of cycles, and then answers one beat a cycle.  A register counts the beats that
are left and another one holds the address of the beat.  A few addresses are devices: the
console, a timer, the software interrupt, and the switches.

How long it waits is drawn at random in the source, and an input here.
-/

namespace RiscvCpu

/-- The values of `state`. -/
inductive RamState where
  | none
  | wait
  | read
  | write
deriving DecidableEq, Repr

/-- The registers of `RAMHelper2`, and the array `ram`. -/
structure RamHelper2 where
  savedOreq : CbusReq
  state : RamState
  countDown : BitVec 8
  size : BitVec 4
  addr : BitVec 64
  wrap1 : BitVec 64
  wrap2 : BitVec 64
  cycCnt : BitVec 64
  msCnt : BitVec 64
  mtime : BitVec 64
  mtimecmp : BitVec 64
  msip : Bool
  trint : Bool
  swint : Bool
  exint : Bool
  ram : BitVec 25 → BitVec 64

/-- What `RAMHelper2` takes from outside of the design. -/
structure RamHelper2In where
  /-- How long a request waits. -/
  delay : BitVec 8
  /-- `get_switch()`. -/
  switch : BitVec 32
deriving DecidableEq, Repr

/-! ## The array -/

section Array

variable (ram : BitVec 25 → BitVec 64)

/-- `ram_read_helper`.  An index past the end wraps around. -/
def ramReadHelper (rIdx : BitVec 64) : BitVec 64 := ram (rIdx.setWidth 25)

/-- `ram_write_helper`.  Nothing is written past the end. -/
def ramWriteHelper (wIdx wdata : BitVec 64) (strobe : BitVec 8) : BitVec 25 → BitVec 64 :=
  if wIdx.toNat < 2 ^ 25 then
    let a := wIdx.setWidth 25
    Function.update ram a (mergeBytes (ram a) wdata strobe)
  else ram

end Array

/-! ## Bursts -/

section Burst

variable (m : RamHelper2) (oreq : CbusReq)

/-- The addresses `{wrap1, wrap2}` a request is given. -/
def CbusReq.wraps : BitVec 64 × BitVec 64 :=
  let bytes := (oreq.len.setWidth 64 + 1) <<< oreq.size.log2
  let base := oreq.addr &&& ~~~(bytes - 1)
  match oreq.burst with
  | .fixed => (oreq.addr, oreq.addr + 1#64 <<< oreq.size.log2)
  | .wrap => (base, base + bytes)
  | .incr | .reserved => (0, 0)

/-- The address of the next beat. -/
def RamHelper2.addrNxt : BitVec 64 :=
  let addr := m.addr + m.size.setWidth 64
  if addr = m.wrap2 then m.wrap1 else addr

/-- The state machine. -/
def RamHelper2.fsm (delay : BitVec 8) : RamHelper2 :=
  match m.state with
  | .none =>
    if oreq.valid then { m with savedOreq := oreq, countDown := delay, state := .wait } else m
  | .wait =>
    if m.countDown = 0 then
      { m with
        state := if oreq.isWrite then .write else .read
        addr := oreq.addr
        countDown := oreq.len
        size := 1#4 <<< oreq.size.log2
        wrap1 := oreq.wraps.1
        wrap2 := oreq.wraps.2 }
    else { m with countDown := m.countDown - 1 }
  | .read | .write =>
    if m.countDown = 0 then { m with state := .none }
    else { m with countDown := m.countDown - 1, addr := m.addrNxt }

/-- Does the request differ from the one that was taken? -/
def RamHelper2.modified : Bool :=
  oreq.valid != m.savedOreq.valid || oreq.isWrite != m.savedOreq.isWrite ||
    oreq.size != m.savedOreq.size || oreq.addr != m.savedOreq.addr ||
    oreq.len != m.savedOreq.len || oreq.burst != m.savedOreq.burst

/-- `idx`. -/
def RamHelper2.idx : BitVec 64 :=
  if 0x80000000#64 < m.addr then (m.addr - 0x80000000#64) >>> 3 else 0

/-- Does the simulation end with an error, `$finish`? -/
def RamHelper2.finish : Bool :=
  match m.state with
  | .none => false
  | .wait | .write => m.modified oreq
  | .read => m.modified oreq || decide (0x10000000#64 ≤ m.idx)

/-! ## Devices -/

/-- The addresses a write to which does not go to the array. -/
def writeRegisters : List (BitVec 64) :=
  [0x40600004#64, 0x4060000c#64, 0x23333000#64, 0x38000000#64, 0x38004000#64, 0x3800bff8#64]

/-- The data of a beat that is read. -/
def RamHelper2.rdata (switch : BitVec 32) : BitVec 64 :=
  if m.addr = 0x40600008#64 then 0
  else if m.addr = 0x38000000#64 then (BitVec.ofBool m.msip).setWidth 64
  else if m.addr = 0x38004000#64 then m.mtimecmp
  else if m.addr = 0x3800bff8#64 then m.mtime
  else if m.addr = 0x20003000#64 then m.msCnt
  else if m.addr = 0x23333008#64 then switch.setWidth 64
  else ramReadHelper m.ram m.idx

/-- `oresp`. -/
def RamHelper2.oresp (switch : BitVec 32) : CbusResp :=
  match m.state with
  | .read => ⟨true, m.countDown == 0, m.rdata switch⟩
  | .write => ⟨true, m.countDown == 0, 0⟩
  | .none | .wait => 0

/-- Is a beat written to a register? -/
def RamHelper2.writes (a : BitVec 64) : Bool := m.state == .write && m.addr == a

/-- The character a write to the console prints. -/
def RamHelper2.fwrite : Option (BitVec 8) :=
  if m.writes 0x40600004#64 && oreq.strobe.getLsbD 4 then some (oreq.data.extractLsb' 32 8)
  else none

/-- The array after a beat. -/
def RamHelper2.ramNxt : BitVec 25 → BitVec 64 :=
  if m.state = .write ∧ m.addr ∉ writeRegisters then
    ramWriteHelper m.ram m.idx oreq.data oreq.strobe
  else m.ram

/-! ## The clock edge -/

/-- Has a millisecond passed? -/
def RamHelper2.tick : Bool := m.cycCnt == 25

/-- The clock edge of `RAMHelper2`. -/
def RamHelper2.step (i : RamHelper2In) (reset : Bool) : RamHelper2 :=
  if reset then
    { m with
      state := .none
      countDown := 0
      cycCnt := 0
      msCnt := 0
      addr := 0
      size := 0
      savedOreq := 0
      mtime := 0
      mtimecmp := BitVec.allOnes 64
      msip := false
      trint := false
      swint := false
      exint := false }
  else
    { m.fsm oreq i.delay with
      cycCnt := if m.tick then 0 else m.cycCnt + 1
      msCnt := if m.tick then m.msCnt + 1 else m.msCnt
      mtime :=
        if m.writes 0x3800bff8#64 then oreq.data
        else if m.tick then m.mtime + 1 else m.mtime
      mtimecmp := if m.writes 0x38004000#64 then oreq.data else m.mtimecmp
      msip := if m.writes 0x38000000#64 then oreq.data.getLsbD 0 else m.msip
      trint := decide (m.mtimecmp < m.mtime)
      swint := m.msip
      ram := m.ramNxt oreq }

end Burst

/-! ## Addresses -/

section Address

variable {req : CbusReq}

/-- An address without the offset in its line. -/
theorem and_not_line (addr : BitVec 64) :
    (addr &&& ~~~(127#64)).toNat = addr.toNat / 128 * 128 := by
  have heq : addr &&& ~~~(127#64) = addr.extractLsb' 7 57 ++ 0#7 := by
    refine BitVec.eq_of_getLsbD_eq fun j hj => ?_
    have hmask : (127#64).getLsbD j = decide (j < 7) := by
      rw [BitVec.getLsbD_ofNat, show (127 : ℕ) = 2 ^ 7 - 1 from rfl, Nat.testBit_two_pow_sub_one]
      simp [hj]
    rw [BitVec.getLsbD_and, BitVec.getLsbD_not, hmask, BitVec.getLsbD_append]
    by_cases h7 : j < 7
    · simp [h7]
    · have h57 : j - 7 < 57 := by omega
      have hback : 7 + (j - 7) = j := by omega
      simp [h7, hj, h57, hback]
  rw [heq, BitVec.toNat_append, BitVec.extractLsb'_toNat, Nat.shiftRight_eq_div_pow,
    Nat.shiftLeft_eq]
  have := addr.isLt
  simp only [BitVec.toNat_ofNat, Nat.zero_mod, Nat.or_zero]
  omega

/-- The first beat is at the address of the request. -/
theorem CbusReq.beatAddr_zero (req : CbusReq) : req.beatAddr 0 = req.addr := by
  unfold beatAddr
  cases req.burst with
  | fixed => rfl
  | incr => simp
  | reserved => simp
  | wrap =>
    apply BitVec.eq_of_toNat_eq
    have hb : 0 < (req.len.toNat + 1) * 2 ^ req.size.log2 := by positivity
    have hdiv := Nat.div_add_mod req.addr.toNat ((req.len.toNat + 1) * 2 ^ req.size.log2)
    rw [Nat.mul_comm] at hdiv
    have hoff : req.addr.toNat - req.addr.toNat / ((req.len.toNat + 1) * 2 ^ req.size.log2) *
        ((req.len.toNat + 1) * 2 ^ req.size.log2) =
          req.addr.toNat % ((req.len.toNat + 1) * 2 ^ req.size.log2) := by omega
    simp only [Nat.zero_mul, Nat.add_zero, hoff, Nat.mod_mod, hdiv, BitVec.ofNat_toNat,
      BitVec.setWidth_eq]

/-- The address register follows the beats of a line. -/
theorem CbusReq.FromCache.beatAddr_succ (h : req.FromCache) {k : ℕ} (hk : k < req.len.toNat) :
    req.beatAddr (k + 1) =
      if req.beatAddr k + (1#4 <<< req.size.log2).setWidth 64 = req.wraps.2 then req.wraps.1
      else req.beatAddr k + (1#4 <<< req.size.log2).setWidth 64 := by
  cases h with
  | single hb hl hw =>
    rw [hl] at hk
    cases hk
  | line hb hl hs ha hw =>
    have hbeat : ∀ n, req.beatAddr n = BitVec.ofNat 64 (req.addr.toNat / 128 * 128 +
        (req.addr.toNat - req.addr.toNat / 128 * 128 + n * 8) % 128) := by
      intro n
      rw [beatAddr, hb, hl, hs]
      rfl
    have hwrap : req.wraps = (req.addr &&& ~~~(127#64), (req.addr &&& ~~~(127#64)) + 128#64) := by
      rw [wraps, hb, hl, hs]
      rfl
    have hsize : ((1#4 <<< req.size.log2).setWidth 64).toNat = 8 := by
      rw [hs]
      rfl
    have hbase := and_not_line req.addr
    have hlow : req.addr.toNat % 8 = 0 := by
      have := congrArg BitVec.toNat ha
      simpa [BitVec.extractLsb'_toNat] using this
    have hlt := req.addr.isLt
    rw [hwrap, hbeat, hbeat]
    simp only [← BitVec.toNat_inj, BitVec.toNat_add, BitVec.toNat_ofNat, hsize, hbase]
    split
    · rw [hbase]
      omega
    · rw [BitVec.toNat_add, BitVec.toNat_ofNat, hsize]
      omega

end Address

/-! ## The burst under way -/

/-- The beats of the burst that are done. -/
def RamHelper2.beat (m : RamHelper2) : ℕ :=
  match m.state with
  | .read | .write => m.savedOreq.len.toNat - m.countDown.toNat
  | .none | .wait => 0

/-- The registers while a burst is read or written. -/
structure RamHelper2.InBurst (m : RamHelper2) : Prop where
  isWrite : m.state = .write ↔ m.savedOreq.isWrite = true
  countDown : m.countDown.toNat ≤ m.savedOreq.len.toNat
  addr : m.addr = m.savedOreq.beatAddr (m.savedOreq.len.toNat - m.countDown.toNat)
  size : m.size = 1#4 <<< m.savedOreq.size.log2
  wraps : (m.wrap1, m.wrap2) = m.savedOreq.wraps

/-- The helper works on the request the arbiter has granted. -/
structure RamHelper2.Serves (m : RamHelper2) (mux : CBusArbiter 1) : Prop where
  idle : mux.busy = false → m.state = .none
  saved : m.state ≠ .none → m.savedOreq.valid = true ∧ m.savedOreq.FromCache ∧
    m.savedOreq.SameBurst mux.savedReq
  burst : m.state = .read ∨ m.state = .write → m.InBurst

section Serves

variable {m : RamHelper2} {s : VTop} {i : RamHelper2In} {pins : Pins} {oreq : CbusReq}

theorem CbusReq.SameBurst.wraps {a b : CbusReq} (h : a.SameBurst b) : a.wraps = b.wraps := by
  rw [CbusReq.wraps, CbusReq.wraps, h.addr, h.len, h.size, h.burst]

theorem CbusReq.SameBurst.beatAddr {a b : CbusReq} (h : a.SameBurst b) (k : ℕ) :
    a.beatAddr k = b.beatAddr k := by
  rw [CbusReq.beatAddr, CbusReq.beatAddr, h.addr, h.len, h.size, h.burst]

/-- A request that goes on as it was taken is not reported. -/
theorem RamHelper2.modified_eq_false (hv : oreq.valid = m.savedOreq.valid)
    (hb : m.savedOreq.SameBurst oreq) : m.modified oreq = false := by
  simp [modified, hv, hb.isWrite, hb.size, hb.addr, hb.len, hb.burst]

/-- The request on the bus is the one that has been granted. -/
def VTop.Asks (s : VTop) (pins : Pins) : Prop :=
  s.mux.busy = true → (s.oreq pins).valid = true ∧ s.mux.savedReq.SameBurst (s.oreq pins)

theorem VTop.GrantOk.asks {beat : ℕ} (h : s.GrantOk beat) (hw : ¬s.Withdraws pins) :
    s.Asks pins := by
  intro hb
  rw [oreq, CBusArbiter.oreq, if_pos hb]
  exact h.request hb hw

/-- Outside of a burst the registers of the state machine start one. -/
theorem RamHelper2.fsm_wait (hs : m.state = .wait) (hb : m.savedOreq.SameBurst oreq)
    (h0 : m.countDown = 0) (delay : BitVec 8) :
    (m.fsm oreq delay).savedOreq = m.savedOreq ∧ (m.fsm oreq delay).InBurst ∧
      ((m.fsm oreq delay).state = .read ∨ (m.fsm oreq delay).state = .write) ∧
      (m.fsm oreq delay).countDown = m.savedOreq.len := by
  have heq : m.fsm oreq delay =
      { m with
        state := if oreq.isWrite then .write else .read
        addr := oreq.addr
        countDown := oreq.len
        size := 1#4 <<< oreq.size.log2
        wrap1 := oreq.wraps.1
        wrap2 := oreq.wraps.2 } := by
    rw [fsm, hs]
    exact if_pos h0
  rw [heq]
  refine ⟨rfl, ⟨?_, ?_, ?_, ?_, ?_⟩, ?_, hb.len.symm⟩
  · rw [hb.isWrite]
    cases oreq.isWrite <;> simp
  · exact Nat.le_of_eq (congrArg BitVec.toNat hb.len.symm)
  · simp only [hb.len, Nat.sub_self, CbusReq.beatAddr_zero, hb.addr]
  · rw [hb.size]
  · exact hb.symm.wraps
  · cases oreq.isWrite <;> simp

theorem RamHelper2.toNat_countDown_sub (h0 : m.countDown ≠ 0) :
    (m.countDown - 1).toNat + 1 = m.countDown.toNat := by
  have hpos : 0 < m.countDown.toNat := Nat.pos_of_ne_zero fun hz =>
    h0 (BitVec.eq_of_toNat_eq hz)
  have hlt := m.countDown.isLt
  have hone : (1 : BitVec 8).toNat = 1 := rfl
  rw [BitVec.toNat_sub, hone]
  omega

/-- A burst goes on with its next beat. -/
theorem RamHelper2.InBurst.fsm (h : m.InBurst) (hf : m.savedOreq.FromCache)
    (hs : m.state = .read ∨ m.state = .write) (h0 : m.countDown ≠ 0) (delay : BitVec 8) :
    m.fsm oreq delay = { m with countDown := m.countDown - 1, addr := m.addrNxt } ∧
      (m.fsm oreq delay).InBurst := by
  have heq : m.fsm oreq delay = { m with countDown := m.countDown - 1, addr := m.addrNxt } := by
    rcases hs with hs | hs
    · rw [RamHelper2.fsm, hs]
      exact if_neg h0
    · rw [RamHelper2.fsm, hs]
      exact if_neg h0
  have hle := h.countDown
  have hdec := toNat_countDown_sub h0
  refine ⟨heq, ?_⟩
  rw [heq]
  refine ⟨h.isWrite, ?_, ?_, h.size, h.wraps⟩
  · change (m.countDown - 1).toNat ≤ m.savedOreq.len.toNat
    omega
  · have hnext : m.savedOreq.len.toNat - (m.countDown - 1).toNat =
        m.savedOreq.len.toNat - m.countDown.toNat + 1 := by omega
    change m.addrNxt = m.savedOreq.beatAddr (m.savedOreq.len.toNat - (m.countDown - 1).toNat)
    rw [hnext, hf.beatAddr_succ (by omega), ← h.addr, ← h.size, ← h.wraps]
    rfl

/-- A burst ends with its last beat. -/
theorem RamHelper2.fsm_last (hs : m.state = .read ∨ m.state = .write) (h0 : m.countDown = 0)
    (delay : BitVec 8) : (m.fsm oreq delay).state = .none := by
  rcases hs with hs | hs
  · rw [fsm, hs]
    simp [h0]
  · rw [fsm, hs]
    simp [h0]

theorem RamHelper2.beat_of_burst (hs : m.state = .read ∨ m.state = .write) :
    m.beat = m.savedOreq.len.toNat - m.countDown.toNat := by
  rcases hs with hs | hs
  · rw [beat, hs]
  · rw [beat, hs]

theorem RamHelper2.beat_of_wait (hs : m.state = .none ∨ m.state = .wait) : m.beat = 0 := by
  rcases hs with hs | hs
  · rw [beat, hs]
  · rw [beat, hs]

/-- The helper answers with a beat in each cycle of a burst, and in no other cycle. -/
theorem RamHelper2.oresp_of_burst (hs : m.state = .read ∨ m.state = .write)
    (switch : BitVec 32) :
    (m.oresp switch).ready = true ∧ (m.oresp switch).last = (m.countDown == 0) := by
  rcases hs with hs | hs
  · rw [oresp, hs]
    exact ⟨rfl, rfl⟩
  · rw [oresp, hs]
    exact ⟨rfl, rfl⟩

theorem RamHelper2.oresp_of_wait (hs : m.state = .none ∨ m.state = .wait) (switch : BitVec 32) :
    m.oresp switch = 0 := by
  rcases hs with hs | hs
  · rw [oresp, hs]
  · rw [oresp, hs]

theorem RamHelper2.state_cases (m : RamHelper2) :
    (m.state = .none ∨ m.state = .wait) ∨ m.state = .read ∨ m.state = .write := by
  cases m.state <;> simp

/-- How long the helper may still take before it answers. -/
def RamHelper2.waiting (m : RamHelper2) : ℕ :=
  match m.state with
  | .none => 257
  | .wait => m.countDown.toNat + 1
  | .read | .write => 0

/-- With a request and without an answer the wait gets shorter. -/
theorem RamHelper2.waiting_fsm (hs : m.state = .none ∨ m.state = .wait) (hv : oreq.valid = true)
    (delay : BitVec 8) : (m.fsm oreq delay).waiting < m.waiting := by
  rcases hs with hs | hs
  · have hlt := delay.isLt
    have hfsm : m.fsm oreq delay =
        { m with savedOreq := oreq, countDown := delay, state := .wait } := by
      rw [fsm, hs]
      exact if_pos hv
    rw [hfsm, waiting, waiting, hs]
    dsimp only
    omega
  · by_cases h0 : m.countDown = 0
    · have hnext : (m.fsm oreq delay).state = .read ∨ (m.fsm oreq delay).state = .write := by
        rw [fsm, hs]
        dsimp only
        rw [if_pos h0]
        cases oreq.isWrite <;> simp
      have hzero : (m.fsm oreq delay).waiting = 0 := by
        rcases hnext with hn | hn
        · rw [waiting, hn]
        · rw [waiting, hn]
      rw [hzero, waiting, hs]
      exact Nat.succ_pos _
    · have hfsm : m.fsm oreq delay = { m with countDown := m.countDown - 1 } := by
        rw [fsm, hs]
        exact if_neg h0
      have hdec := toNat_countDown_sub h0
      rw [hfsm, waiting, waiting, hs]
      dsimp only
      omega

/-- The request of the burst under way is on the bus. -/
theorem RamHelper2.Serves.request (h : m.Serves s.mux) (ha : s.Asks pins)
    (hs : m.state ≠ .none) :
    s.mux.busy = true ∧ (s.oreq pins).valid = true ∧ m.savedOreq.SameBurst (s.oreq pins) := by
  have hb : s.mux.busy = true := by
    by_contra hb
    exact hs (h.idle (Bool.eq_false_iff.mpr hb))
  obtain ⟨hv, hsame⟩ := ha hb
  exact ⟨hb, hv, (h.saved hs).2.2.trans hsame⟩

/-- The state machine takes what the arbiter grants. -/
theorem RamHelper2.Serves.fsm (h : m.Serves s.mux) (ha : s.Asks pins) (delay : BitVec 8) :
    ((m.fsm (s.oreq pins) delay).state ≠ .none →
        (m.fsm (s.oreq pins) delay).savedOreq.valid = true ∧
          (m.fsm (s.oreq pins) delay).savedOreq.FromCache ∧
          (m.fsm (s.oreq pins) delay).savedOreq.SameBurst s.mux.savedReq) ∧
      ((m.fsm (s.oreq pins) delay).state = .read ∨ (m.fsm (s.oreq pins) delay).state = .write →
        (m.fsm (s.oreq pins) delay).InBurst) := by
  rcases m.state_cases with (hs | hs) | hs
  · have hfsm : m.fsm (s.oreq pins) delay =
        if (s.oreq pins).valid then
          { m with savedOreq := s.oreq pins, countDown := delay, state := .wait }
        else m := by
      rw [RamHelper2.fsm, hs]
    rw [hfsm]
    cases hv : (s.oreq pins).valid with
    | false => simp [hs]
    | true =>
      have hb : s.mux.busy = true := by
        by_contra hb
        rw [VTop.oreq, CBusArbiter.oreq, if_neg hb] at hv
        cases hv
      simp only [if_true]
      exact ⟨fun _ => ⟨hv, VTop.oreq_fromCache hv, (ha hb).2.symm⟩, by simp⟩
  · have hne : m.state ≠ .none := by simp [hs]
    obtain ⟨hb, hv, hsame⟩ := h.request ha hne
    by_cases h0 : m.countDown = 0
    · obtain ⟨hsaved, hin, -⟩ := fsm_wait hs hsame h0 delay
      rw [hsaved]
      exact ⟨fun _ => h.saved hne, fun _ => hin⟩
    · have hfsm : m.fsm (s.oreq pins) delay = { m with countDown := m.countDown - 1 } := by
        rw [RamHelper2.fsm, hs]
        exact if_neg h0
      rw [hfsm]
      exact ⟨fun _ => h.saved hne, by simp [hs]⟩
  · have hne : m.state ≠ .none := by
      rcases hs with hs | hs <;> simp [hs]
    by_cases h0 : m.countDown = 0
    · simp [fsm_last hs h0 delay]
    · obtain ⟨hfsm, hin⟩ := (h.burst hs).fsm (h.saved hne).2.1 hs h0 delay
      refine ⟨fun _ => ?_, fun _ => hin⟩
      rw [hfsm]
      exact h.saved hne

/-- One cycle of the helper next to the arbiter. -/
theorem RamHelper2.Serves.step (h : m.Serves s.mux) (ha : s.Asks pins) :
    (m.step (s.oreq pins) i false).Serves
      (s.mux.step (s.ireqs pins) (m.oresp i.switch) false) := by
  have hstate : (m.step (s.oreq pins) i false).state = (m.fsm (s.oreq pins) i.delay).state := rfl
  -- where the state machine rests nothing else is asked
  have hrest : (m.fsm (s.oreq pins) i.delay).state = .none →
      ∀ mux, (m.step (s.oreq pins) i false).Serves mux := by
    intro hnone mux
    rw [← hstate] at hnone
    exact ⟨fun _ => hnone, fun hc => absurd hnone hc, fun hc => absurd hc (by simp [hnone])⟩
  cases hb : s.mux.busy with
  | false =>
    refine hrest ?_ _
    have hreq : (s.oreq pins).valid = false := by
      rw [VTop.oreq, CBusArbiter.oreq, if_neg (by simp [hb])]
      rfl
    rw [RamHelper2.fsm, h.idle hb, hreq]
    exact h.idle hb
  | true =>
    cases hl : (m.oresp i.switch).last with
    | true =>
      refine hrest ?_ _
      rcases m.state_cases with hs | hs
      · rw [oresp_of_wait hs] at hl
        cases hl
      · rw [(oresp_of_burst hs _).2, beq_iff_eq] at hl
        exact fsm_last hs hl _
    | false =>
      obtain ⟨hsaved, hburst⟩ := h.fsm ha i.delay
      have hmux : s.mux.step (s.ireqs pins) (m.oresp i.switch) false = s.mux := by
        simp [CBusArbiter.step, hb, hl]
      rw [hmux]
      refine ⟨fun hc => absurd hc (by simp [hb]), hsaved, fun hc => ?_⟩
      obtain ⟨hw, hle, ha, hsize, hwraps⟩ := hburst hc
      exact ⟨hw, hle, ha, hsize, hwraps⟩

end Serves

end RiscvCpu
