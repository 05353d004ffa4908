import RiscvCpu.Arbiter
import RiscvCpu.ArbiterRun
import RiscvCpu.ArchState
import RiscvCpu.Arith.ByteMemory
import RiscvCpu.Arith.Bytes
import RiscvCpu.Arith.LongDivision
import RiscvCpu.Arith.SignMagnitude
import RiscvCpu.Board
import RiscvCpu.BranchHistory
import RiscvCpu.Cache
import RiscvCpu.Coherence.Bus
import RiscvCpu.Coherence.Code
import RiscvCpu.Coherence.Data
import RiscvCpu.Coherence.Directory
import RiscvCpu.Coherence.Fetch
import RiscvCpu.Coherence.Memory
import RiscvCpu.Coherence.Range
import RiscvCpu.Coherence.Reachable
import RiscvCpu.Coherence.Refill
import RiscvCpu.Coherence.Replacement
import RiscvCpu.Coherence.Transparent
import RiscvCpu.Coherence.Victim
import RiscvCpu.Coherence.Words
import RiscvCpu.Common
import RiscvCpu.Core
import RiscvCpu.CoreStep
import RiscvCpu.Csr
import RiscvCpu.CsrAccess
import RiscvCpu.CsrRead
import RiscvCpu.CsrStep
import RiscvCpu.Deadlock
import RiscvCpu.Decode
import RiscvCpu.DecodeIsa
import RiscvCpu.Decoded
import RiscvCpu.Devices
import RiscvCpu.Divider
import RiscvCpu.Execute
import RiscvCpu.ExecuteIsa
import RiscvCpu.Fetch
import RiscvCpu.Flush
import RiscvCpu.Grant
import RiscvCpu.Hart.Core
import RiscvCpu.Hart.Devices
import RiscvCpu.Hart.Interrupts
import RiscvCpu.Hart.Machine
import RiscvCpu.Hart.Memory
import RiscvCpu.Hart.Order
import RiscvCpu.Hart.Refinement
import RiscvCpu.Hazard
import RiscvCpu.InOrder
import RiscvCpu.Interrupts
import RiscvCpu.Isa
import RiscvCpu.IsaRecord
import RiscvCpu.IsaRun
import RiscvCpu.Issue
import RiscvCpu.Liveness
import RiscvCpu.LoadStore
import RiscvCpu.Lossless
import RiscvCpu.Masked
import RiscvCpu.Memory
import RiscvCpu.MulDiv
import RiscvCpu.Multiplier
import RiscvCpu.Operands
import RiscvCpu.Pipes
import RiscvCpu.Predict
import RiscvCpu.ProgramData
import RiscvCpu.ProgramOrder
import RiscvCpu.RamHelper
import RiscvCpu.Records
import RiscvCpu.Refinement
import RiscvCpu.SimTop
import RiscvCpu.Simulator
import RiscvCpu.SimulatorRun
import RiscvCpu.Spacing
import RiscvCpu.Sync.Progress
import RiscvCpu.Sync.Refine
import RiscvCpu.Sync.Run
import RiscvCpu.Sync.Wrap
import RiscvCpu.Tags
import RiscvCpu.Trap
import RiscvCpu.TrapReturn
import RiscvCpu.Uncached
import RiscvCpu.VTop
import RiscvCpu.Work
import RiscvCpu.Writeback
