import RiscvCpu.Sync.Run
import RiscvCpu.VTop

/-!
# The simulated system

`SimTop.sv`: the top module with a memory on its cache bus.  The memory answers
as `RAMHelper2` of `ram.sv` does, one beat after the other of the burst the
request asks for, `last` with the last beat.  When it answers is left open: the
inputs of a cycle say whether a beat is ready.  What an access below bit 31 reads
is left open as well, since devices live there.
-/

namespace RiscvCpu

/-! ## Bursts -/

/-- The number of the 64-bit word at an address. -/
def wordOf (addr : BitVec 64) : BitVec 61 := addr.extractLsb' 3 61

/-- The address of beat `k` of a burst.  A wrapping burst stays in the block of its
size that holds the start address. -/
def CbusReq.beatAddr (req : CbusReq) (k : ℕ) : BitVec 64 :=
  let size := 2 ^ req.size.log2
  match req.burst with
  | .fixed => req.addr
  | .wrap =>
    let block := (req.len.toNat + 1) * size
    let base := req.addr.toNat / block * block
    BitVec.ofNat 64 (base + (req.addr.toNat - base + k * size) % block)
  | .incr | .reserved => req.addr + BitVec.ofNat 64 (k * size)

/-! ## Memory -/

/-- A memory on the cache bus. -/
structure Ram where
  /-- The contents, word by word. -/
  word : BitVec 61 → BitVec 64
  /-- Beats of the current burst that are done. -/
  beat : ℕ

/-- What the memory is free to do in a cycle. -/
structure RamIn where
  /-- Does a beat take place, if a request is there? -/
  ready : Bool
  /-- What an uncached read returns. -/
  device : BitVec 64
deriving DecidableEq, Repr

section Ram

variable (m : Ram) (req : CbusReq) (i : RamIn) (oresp : CbusResp)

/-- `oresp`. -/
def Ram.resp : CbusResp :=
  if req.valid && i.ready then
    ⟨true, m.beat == req.len.toNat,
      if isCached req.addr then m.word (wordOf (req.beatAddr m.beat)) else i.device⟩
  else 0

/-- The contents after a beat. -/
def Ram.wordNxt : BitVec 61 → BitVec 64 :=
  if req.valid && oresp.ready && req.isWrite && isCached req.addr then
    let a := wordOf (req.beatAddr m.beat)
    Function.update m.word a (mergeBytes (m.word a) req.data req.strobe)
  else m.word

/-- The beat counter after a response. -/
def nextBeat (k : ℕ) (oresp : CbusResp) : ℕ :=
  if oresp.ready then if oresp.last then 0 else k + 1 else k

/-- The clock edge of the memory. -/
def Ram.step (reset : Bool) : Ram where
  word := if reset then m.word else m.wordNxt req oresp
  beat := if reset then 0 else nextBeat m.beat oresp

end Ram

/-! ## The system -/

/-- The registers of `SimTop`. -/
structure SimTop where
  top : VTop
  ram : Ram

/-- The inputs of `SimTop`: the interrupt pins and the latency of memory are free. -/
structure SimTopIn where
  reset : Bool
  pins : Pins
  ram : RamIn
deriving DecidableEq, Repr

section SimTop

variable (s : SimTop) (i : SimTopIn)

/-- `oreq`. -/
def SimTop.oreq : CbusReq := s.top.oreq i.pins

/-- `oresp`. -/
def SimTop.oresp : CbusResp := s.ram.resp (s.oreq i) i.ram

/-- The inputs of `VTop`. -/
def SimTop.topIn : VTopIn := ⟨i.reset, s.oresp i, i.pins⟩

/-- The clock edge of `SimTop`. -/
def SimTop.step : SimTop where
  top := s.top.step (s.topIn i)
  ram := s.ram.step (s.oreq i) (s.oresp i) i.reset

end SimTop

/-! ## Runs -/

/-- `s` is a run of `VTop` from reset. -/
def VTop.IsRun (s : ℕ → VTop) (i : ℕ → VTopIn) : Prop :=
  Sync.FromReset VTop.step (fun j => j.reset = true) s i

/-- `s` is a run of `SimTop` from reset. -/
def SimTop.IsRun (s : ℕ → SimTop) (i : ℕ → SimTopIn) : Prop :=
  Sync.FromReset SimTop.step (fun j => j.reset = true) s i

theorem SimTop.IsRun.top {s : ℕ → SimTop} {i : ℕ → SimTopIn} (h : SimTop.IsRun s i) :
    VTop.IsRun (fun t => (s t).top) (fun t => (s t).topIn (i t)) :=
  h.project SimTop.top SimTop.topIn (fun _ _ => rfl) (fun _ _ => Iff.rfl)

/-! ## Running a program -/

/-- A cache with every register and RAM clear. -/
def Cache.clear (ib : Nat) : Cache ib where
  tagRam _ _ := 0
  selectRam _ := 0
  metadata _ _ := ⟨false, false⟩
  dataRam _ := 0
  hitRdata := 0
  missRdata := 0
  missState := .idle
  missAddr := ⟨0, 0, 0⟩
  creqAddr := ⟨0, 0, 0⟩
  missDataLoaded _ := false
  writebuffer _ := 0
  wbOffset := 0
  wbTag := 0
  wbMeta := ⟨false, false⟩
  wbWen := false
  drespDataOk := false

/-- A core with every register clear. -/
def Core.clear : Core where
  fetch := ⟨0, false, 0, fun _ => ⟨false, .sntaken⟩⟩
  fd := 0
  de := 0
  execute := ⟨⟨0, 0, ⟨0, .init⟩⟩, ⟨0, 0, ⟨.init, 0, 0⟩⟩⟩
  em := 0
  memory := ⟨.idle, 0⟩
  mw := 0
  csr := ⟨.initial, machineMode⟩
  regfile _ := 0

/-- `addi x0, x0, 0`. -/
def nop : BitVec 32 := 0x00000013#32

/-- A memory that holds a program from `pcInit` on, and `nop` elsewhere. -/
def programWord (program : List (BitVec 32)) (a : BitVec 61) : BitVec 64 :=
  let n := 2 * (a - wordOf pcInit).toNat
  program.getD (n + 1) nop ++ program.getD n nop

/-- The inputs of a cycle in which memory answers at once. -/
def SimTopIn.fast (pins : Pins) : SimTopIn := ⟨false, pins, ⟨true, 0⟩⟩

/-- The pins of a system without interrupts. -/
def Pins.low : Pins := ⟨false, false, false⟩

/-- The system after the reset, with a program in memory. -/
def SimTop.afterReset (program : List (BitVec 32)) : SimTop :=
  let powerOn : SimTop :=
    ⟨⟨.clear, .clear 7, .clear 8, ⟨false, (0 : Fin 2), 0⟩⟩, ⟨programWord program, 0⟩⟩
  powerOn.step { SimTopIn.fast .low with reset := true }

/-- The run of a program with the memory that answers at once. -/
def SimTop.boot (program : List (BitVec 32)) (pins : Pins) : ℕ → SimTop :=
  Sync.runFrom SimTop.step (.afterReset program) fun _ => .fast pins

theorem SimTop.boot_isRun (program : List (BitVec 32)) (pins : Pins) :
    SimTop.IsRun (boot program pins) fun _ => .fast pins where
  start := ⟨_, _, rfl, rfl⟩
  noReset _ := Bool.false_ne_true
  next _ := rfl

end RiscvCpu
