import RiscvCpu.Common

/-!
# The cache bus arbiter

`CBusArbiter.sv` for `maxIndex + 1` requesters.  An idle arbiter looks for a
valid request, lowest index first, and is busy with it from the next cycle on
until the last beat of its transaction.  The request of the granted input is
passed on as it is in each cycle.  `savedReq` keeps the request of the cycle of
the grant and drives nothing.
-/

namespace RiscvCpu

/-- The registers of `CBusArbiter`. -/
structure CBusArbiter (maxIndex : Nat) where
  busy : Bool
  index : Fin (maxIndex + 1)
  savedReq : CbusReq
deriving DecidableEq, Repr

section Arbiter

variable {maxIndex : Nat} (s : CBusArbiter maxIndex) (ireqs : Fin (maxIndex + 1) → CbusReq)
  (oresp : CbusResp)

/-- `select`: the lowest valid input, or input zero. -/
def select (ireqs : Fin (maxIndex + 1) → CbusReq) : Fin (maxIndex + 1) :=
  ((List.finRange (maxIndex + 1)).find? fun i => (ireqs i).valid).getD 0

/-- `oreq`. -/
def CBusArbiter.oreq : CbusReq := if s.busy then ireqs s.index else 0

/-- `iresps`. -/
def CBusArbiter.iresps (i : Fin (maxIndex + 1)) : CbusResp :=
  if s.busy && s.index = i then oresp else 0

/-- The clock edge of `CBusArbiter`. -/
def CBusArbiter.step (reset : Bool) : CBusArbiter maxIndex :=
  if reset then ⟨false, 0, 0⟩
  else if s.busy then
    if oresp.last then { s with busy := false, savedReq := 0 } else s
  else ⟨(ireqs (select ireqs)).valid, select ireqs, ireqs (select ireqs)⟩

end Arbiter

end RiscvCpu
