import RiscvCpu.Arbiter
import RiscvCpu.Cache
import RiscvCpu.Core

/-!
# The top module

`VTop.sv`: the core, its two caches and the arbiter that joins them on one
cache bus.  Input 0 of the arbiter is the data cache and input 1 the
instruction cache.
-/

namespace RiscvCpu

/-- `mux` has two inputs. -/
instance twoInputs : NeZero 2 := ⟨by decide⟩

/-- The registers of `VTop`. -/
structure VTop where
  core : Core
  icache : ICache
  dcache : DCache
  mux : CBusArbiter 1

/-- The inputs of `VTop`. -/
structure VTopIn where
  reset : Bool
  oresp : CbusResp
  pins : Pins
deriving DecidableEq, Repr

section VTop

variable (s : VTop) (pins : Pins) (i : VTopIn)

/-- `icreq`. -/
def VTop.icreq : CbusReq := ICache.creq s.icache (s.core.ireq pins)

/-- `dcreq`. -/
def VTop.dcreq : CbusReq := Cache.creq s.dcache (s.core.dreq pins)

/-- `{icreq, dcreq}`. -/
def VTop.ireqs (j : Fin 2) : CbusReq := if j = 0 then s.dcreq pins else s.icreq pins

/-- `oreq`. -/
def VTop.oreq : CbusReq := s.mux.oreq (s.ireqs pins)

/-- `icresp`. -/
def VTop.icresp (oresp : CbusResp) : CbusResp := s.mux.iresps oresp (1 : Fin 2)

/-- `dcresp`. -/
def VTop.dcresp (oresp : CbusResp) : CbusResp := s.mux.iresps oresp (0 : Fin 2)

/-- `iresp`. -/
def VTop.iresp : IbusResp := ICache.iresp s.icache (s.core.ireq i.pins) (s.icresp i.oresp)

/-- `dresp`. -/
def VTop.dresp : DbusResp := DCache.dresp s.dcache (s.core.dreq i.pins) (s.dcresp i.oresp)

/-- The inputs of `core`. -/
def VTop.coreIn : CoreIn := ⟨i.reset, s.iresp i, s.dresp i, i.pins⟩

/-- The clock edge of `VTop`. -/
def VTop.step : VTop where
  core := s.core.step (s.coreIn i)
  icache := ICache.step s.icache i.reset (s.core.ireq i.pins) (s.icresp i.oresp)
  dcache := DCache.step s.dcache i.reset (s.core.dreq i.pins) (s.dcresp i.oresp)
  mux := s.mux.step (s.ireqs i.pins) i.oresp i.reset

end VTop

end RiscvCpu
