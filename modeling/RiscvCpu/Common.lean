import Mathlib

/-!
# Buses and basic types

The types of `common.sv`.  Addresses and words are 64 bits wide.  A core talks
to a cache over the data bus (`DbusReq`, `DbusResp`) or the instruction bus
(`IbusReq`, `IbusResp`), and a cache talks to memory over the cache bus
(`CbusReq`, `CbusResp`), a simplified burst interface.

Every packed struct has a `Zero` instance that stands for the source's `'0`.
-/

namespace RiscvCpu

/-- The address the core fetches from after reset. -/
def pcInit : BitVec 64 := 0x80000000#64

/-- Number of bytes transferred in one memory access. -/
inductive Msize where
  | msize1
  | msize2
  | msize4
  | msize8
deriving DecidableEq, Repr

/-- `msize_t` as the exponent of a power of two. -/
def Msize.log2 : Msize → Nat
  | .msize1 => 0
  | .msize2 => 1
  | .msize4 => 2
  | .msize8 => 3

/-- `mlen_t`: the number of beats of a burst, less one. -/
abbrev Mlen := BitVec 8

/-- A burst of one beat. -/
def mlen1 : Mlen := 0x00#8

/-- A burst of sixteen beats. -/
def mlen16 : Mlen := 0x0f#8

/-- `axi_burst_type_t`. -/
inductive AxiBurst where
  | fixed
  | incr
  | wrap
  | reserved
deriving DecidableEq, Repr

/-- `dbus_req_t`: a request of the core to its data cache. -/
structure DbusReq where
  /-- In request? -/
  valid : Bool
  /-- Target address. -/
  addr : BitVec 64
  /-- Number of bytes. -/
  size : Msize
  /-- Which bytes are written, all clear for a read. -/
  strobe : BitVec 8
  /-- The data to write. -/
  data : BitVec 64
deriving DecidableEq, Repr

/-- `dbus_resp_t`. -/
structure DbusResp where
  /-- Is the address accepted by the cache? -/
  addrOk : Bool
  /-- Is the field `data` valid? -/
  dataOk : Bool
  /-- The data read from the cache. -/
  data : BitVec 64
deriving DecidableEq, Repr

/-- `ibus_req_t`: a request of the core to its instruction cache. -/
structure IbusReq where
  valid : Bool
  addr : BitVec 64
deriving DecidableEq, Repr

/-- `ibus_resp_t`. -/
structure IbusResp where
  addrOk : Bool
  dataOk : Bool
  data : BitVec 32
deriving DecidableEq, Repr

/-- `cbus_req_t`: a burst request of a cache to memory. -/
structure CbusReq where
  /-- In request? -/
  valid : Bool
  /-- Is it a write transaction? -/
  isWrite : Bool
  /-- Number of bytes in one beat. -/
  size : Msize
  /-- Start address of the burst. -/
  addr : BitVec 64
  /-- Which bytes are enabled? -/
  strobe : BitVec 8
  /-- The data to write in this beat. -/
  data : BitVec 64
  /-- Number of beats, less one. -/
  len : Mlen
  /-- How the address moves from beat to beat. -/
  burst : AxiBurst
deriving DecidableEq, Repr

/-- `cbus_resp_t`. -/
structure CbusResp where
  /-- Does a beat arrive in this cycle? -/
  ready : Bool
  /-- Is it the last one? -/
  last : Bool
  /-- The data of the beat. -/
  data : BitVec 64
deriving DecidableEq, Repr

instance : Zero CbusReq := ⟨⟨false, false, .msize1, 0, 0, 0, 0, .fixed⟩⟩

instance : Zero CbusResp := ⟨⟨false, false, 0⟩⟩

@[simp] theorem CbusReq.zero_valid : (0 : CbusReq).valid = false := rfl

@[simp] theorem CbusResp.zero_ready : (0 : CbusResp).ready = false := rfl

@[simp] theorem CbusResp.zero_last : (0 : CbusResp).last = false := rfl

/-- `IREQ_TO_DREQ`: an instruction request as a four-byte read. -/
def IbusReq.toDreq (ireq : IbusReq) : DbusReq :=
  ⟨ireq.valid, ireq.addr, .msize4, 0, 0⟩

/-- `DRESP_TO_IRESP`: bit 2 of the address selects the half of the word. -/
def DbusResp.toIresp (dresp : DbusResp) (ireq : IbusReq) : IbusResp :=
  ⟨dresp.addrOk, dresp.dataOk,
    if ireq.addr.getLsbD 2 then dresp.data.extractLsb' 32 32 else dresp.data.extractLsb' 0 32⟩

end RiscvCpu
