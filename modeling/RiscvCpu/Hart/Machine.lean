import RiscvCpu.CsrAccess
import RiscvCpu.IsaRecord

/-!
# A hart

The machine a program with traps is written for: registers, pc and memory, and the CSR unit
beside them.  In each cycle it executes one instruction or none.  An instruction asks the
unit for an access, a trap or a return, interrupt or not, and goes on where the unit says.

`Isa.Stretch` is the part of such a program that the pipeline sees ahead of write-back.  It
goes on without redirects, and ends with the first instruction that always makes one.
-/

namespace RiscvCpu

/-! ## Instructions that redirect the pc -/

/-- The operations that always redirect the pc by the CSR unit. -/
def Op.isSystem (op : Op) : Bool := op.isCsr || op == .ecall || op == .mret

theorem Op.plain_of_isSystem {op : Op} (h : op.isSystem = false) :
    op.isCsr = false ∧ op ≠ .ecall ∧ op ≠ .mret := by
  simp only [isSystem, Bool.or_eq_false_iff, beq_eq_false_iff_ne] at h
  exact ⟨h.1.1, h.1.2, h.2⟩

theorem Op.isSystem_cases {op : Op} (h : op.isSystem = true) :
    op.isCsr = true ∨ op = .ecall ∨ op = .mret := by
  simpa [isSystem, or_assoc] using h

/-- They make no access to memory. -/
theorem Op.access_of_isSystem {op : Op} (h : op.isSystem = true) : Isa.access op = none := by
  cases op with
  | lb | lh | lw | ld | lbu | lhu | lwu | sb | sh | sw | sd => cases h
  | _ => rfl

/-- A multiplication or division is none of them. -/
theorem Op.isSystem_of_isMulDiv {op : Op} (h : op.isMulDiv = true) : op.isSystem = false := by
  cases op with
  | mul | div | divu | rem | remu | mulw | divw | divuw | remw | remuw => rfl
  | _ => cases h

/-! ## Stretches of a program -/

/-- The instruction keeps to the machine: its pc is aligned and in memory, and so is what
it loads or stores, or it goes to a device. -/
structure Isa.State.InBounds (x : Isa.State) (op : Op) : Prop where
  pcAligned : x.pc.extractLsb' 0 2 = 0
  pcRange : 0x80000000 ≤ x.pc.toNat ∧ x.pc.toNat < 0x100000000
  access : ∀ a, Isa.access op = some a → a.msize.Aligned ((x.addr op).extractLsb' 0 3)
  data : ∀ a, Isa.access op = some a → isCached (x.addr op) = true →
    (x.addr op).toNat < 0x100000000

theorem Isa.State.InBounds.fits {x : Isa.State} {op : Op} (h : x.InBounds op)
    (hs : op.isSystem = false) : x.Fits op := by
  obtain ⟨hc, hno⟩ := Op.plain_of_isSystem hs
  exact ⟨hc, hno, h.pcAligned, h.pcRange, h.access, h.data⟩

/-- None of the first `n` operations redirects the pc. -/
def Isa.Ahead (op : ℕ → Op) (n : ℕ) : Prop := ∀ j < n, (op j).isSystem = false

instance Isa.decidableAhead (op : ℕ → Op) (n : ℕ) : Decidable (Isa.Ahead op n) :=
  inferInstanceAs (Decidable (∀ j < n, _))

theorem Isa.ahead_zero (op : ℕ → Op) : Isa.Ahead op 0 := fun _ hj => absurd hj (Nat.not_lt_zero _)

theorem Isa.Ahead.mono {op : ℕ → Op} {m n : ℕ} (h : Isa.Ahead op n) (hm : m ≤ n) :
    Isa.Ahead op m := fun j hj => h j (by omega)

theorem Isa.Ahead.succ {op : ℕ → Op} {n : ℕ} (h : Isa.Ahead op n)
    (hn : (op n).isSystem = false) : Isa.Ahead op (n + 1) := by
  intro j hj
  rcases Nat.lt_succ_iff_lt_or_eq.mp hj with hlt | rfl
  · exact h j hlt
  · exact hn

/-- A program as it goes on without redirects. -/
structure Isa.Stretch (x : ℕ → Isa.State) (op : ℕ → Op) (dev : ℕ → BitVec 64) : Prop where
  next : ∀ n, x (n + 1) = (x n).exec (op n) dev
  zero : (x 0).regs 0 = 0
  encodes : ∀ n, Isa.Ahead op n → Isa.Encodes (op n) (x n).instr
  inBounds : ∀ n, Isa.Ahead op n → (x n).InBounds (op n)

section Stretch

variable {x : ℕ → Isa.State} {op : ℕ → Op} {dev : ℕ → BitVec 64} {n : ℕ}

theorem Isa.Stretch.fits (h : Isa.Stretch x op dev) (hn : Isa.Ahead op (n + 1)) :
    (x n).Fits (op n) :=
  (h.inBounds n (hn.mono (Nat.le_succ n))).fits (hn n (Nat.lt_succ_self n))

theorem Isa.State.exec_regs_zero (y : Isa.State) (o : Op) :
    (y.exec o dev).regs 0 = y.regs 0 := by
  rw [exec_regs, regsNxt]
  split
  · rename_i hw
    simp only [Bool.and_eq_true, bne_iff_ne] at hw
    exact Function.update_of_ne hw.2.symm _ _
  · rfl

theorem Isa.Stretch.regs_zero (h : Isa.Stretch x op dev) (n : ℕ) : (x n).regs 0 = 0 := by
  induction n with
  | zero => exact h.zero
  | succ n ih =>
    rw [h.next n, Isa.State.exec_regs_zero]
    exact ih

/-- Without an access memory and devices are left alone. -/
theorem Isa.State.exec_noAccess {y : Isa.State} {o : Op} (h : Isa.access o = none) :
    (y.exec o dev).mem = y.mem ∧ (y.exec o dev).reads = y.reads := by
  constructor
  · rw [exec_mem, memNxt, h]
  · rw [exec_reads, readsDevice, h]
    rfl

end Stretch

/-! ## The machine -/

/-- The program and the CSR unit. -/
structure Isa.Hart where
  prog : Isa.State
  csr : Csr

/-- The hart after a reset. -/
def Isa.Hart.initial (word : BitVec 61 → BitVec 64) : Isa.Hart :=
  ⟨.initial word, ⟨.initial, machineMode⟩⟩

/-- What the CSR unit sees of an instruction. -/
def Isa.State.asks (x : Isa.State) (op : Op) : MemoryData :=
  { (0 : MemoryData) with
    instr := { (0 : Instr) with op }
    aluout := x.rs1
    pcAndInstr := { (0 : FetchData) with pcO := x.pc, rawInstr := x.instr }
    csrCtl := (op.control x.instr).csrCtl }

section Hart

variable (h : Isa.Hart) (op : Op) (dev : ℕ → BitVec 64) (pins : Pins)

/-- The registers after an instruction.  An access to a CSR writes the old value. -/
def Isa.Hart.regsNxt : Regs :=
  let rd := writeregOf h.prog.instr
  if op.isCsr then
    if rd != 0 then Function.update h.prog.regs rd (h.csr.rd (h.prog.asks op)) else h.prog.regs
  else if op.isSystem then h.prog.regs
  else h.prog.regsNxt op dev

/-- The pc after an instruction. -/
def Isa.Hart.pcNxt : BitVec 64 :=
  let nxt := h.csr.csrPcNxt (h.prog.asks op) pins
  if nxt.csrPcValid then nxt.pcNxt
  else Isa.nextPc op h.prog.instr h.prog.pc h.prog.rs1 h.prog.rs2

/-- A cycle in which an instruction is executed.  An instruction that is interrupted takes
effect as well, and its own pc goes to `mepc`. -/
def Isa.Hart.retire : Isa.Hart where
  prog := { h.prog.exec op dev with pc := h.pcNxt op pins, regs := h.regsNxt op dev }
  csr := h.csr.step (h.prog.asks op) pins false

/-- A cycle in which none is.  The counter of the unit goes on. -/
def Isa.Hart.idle : Isa.Hart := { h with csr := h.csr.step 0 pins false }

/-- The commit of an instruction. -/
def Isa.Hart.commit : Isa.Commit where
  pc := h.prog.pc
  instr := h.prog.instr
  written :=
    if op.isCsr then some (writeregOf h.prog.instr, h.csr.rd (h.prog.asks op))
    else if op.isSystem then none
    else (h.prog.commit op dev).written

end Hart

/-- The registers after an access to a CSR. -/
theorem Isa.Hart.regsNxt_csr {h : Isa.Hart} {op : Op} (dev : ℕ → BitVec 64)
    (hc : op.isCsr = true) (ra : BitVec 5) :
    h.regsNxt op dev ra =
      if (writeregOf h.prog.instr != 0 && ra == writeregOf h.prog.instr) = true then
        h.csr.rd (h.prog.asks op)
      else h.prog.regs ra := by
  simp only [regsNxt, hc, if_true]
  generalize h.csr.rd (h.prog.asks op) = v
  by_cases hz : (writeregOf h.prog.instr != 0) = true
  · rw [if_pos hz, hz, Bool.true_and]
    by_cases hra : ra = writeregOf h.prog.instr
    · rw [hra, Function.update_self, beq_self_eq_true, if_pos rfl]
    · rw [Function.update_of_ne hra, if_neg (by simpa using hra)]
  · rw [if_neg hz, Bool.eq_false_iff.mpr hz, Bool.false_and, if_neg Bool.false_ne_true]

/-! ## What the CSR unit is asked -/

/-- The record asks of the CSR unit what the instruction does. -/
structure MemoryData.Asks (d : MemoryData) (x : Isa.State) (op : Op) : Prop where
  pcW : d.pcW = x.pc
  csrCtlW : d.csrCtlW = (op.control x.instr).csrCtl
  access : op.isCsr = true → d.instr.op = op ∧ (op.isCsrImm = false → d.aluout = x.rs1)

theorem Isa.State.asks_asks (x : Isa.State) (op : Op) : (x.asks op).Asks x op := by
  refine ⟨rfl, ?_, fun _ => ⟨rfl, fun _ => rfl⟩⟩
  rw [MemoryData.csrCtlW, if_neg]
  · rfl
  · rw [Bool.and_eq_true]
    intro hc
    cases hc.2

section Asks

variable {c : Csr} {d : MemoryData} {x : Isa.State} {op : Op} {pins : Pins}

/-- Only an access writes a register of the unit by its value. -/
theorem MemoryData.Asks.isCsr (h : d.Asks x op) (he : Isa.Encodes op x.instr)
    (hw : c.csrWen d pins = true) : op.isCsr = true := by
  cases hs : op.isSystem with
  | false =>
    obtain ⟨hc, hno⟩ := Op.plain_of_isSystem hs
    rw [Csr.csrWen, h.csrCtlW, (Op.control_program he hc hno).2.2.1] at hw
    cases hw
  | true =>
    rcases Op.isSystem_cases hs with hc | rfl | rfl
    · exact hc
    · rw [Csr.csrWen, h.csrCtlW] at hw
      cases hw
    · rw [Csr.csrWen, h.csrCtlW] at hw
      cases hw

theorem MemoryData.Asks.rd (h : d.Asks x op) : c.rd d = c.rd (x.asks op) := by
  have hctl : d.csrCtlW = (x.asks op).csrCtlW := h.csrCtlW.trans (x.asks_asks op).csrCtlW.symm
  rw [Csr.rd, Csr.rd, hctl]

theorem MemoryData.Asks.wd (h : d.Asks x op) (hc : op.isCsr = true) :
    c.wd d = c.wd (x.asks op) := by
  obtain ⟨hop, hout⟩ := h.access hc
  have hctl : d.csrCtlW = (x.asks op).csrCtlW := h.csrCtlW.trans (x.asks_asks op).csrCtlW.symm
  have hop' : (x.asks op).instr.op = op := rfl
  rw [Csr.wd_eq hop hc, Csr.wd_eq hop' hc, hctl, h.rd]
  cases himm : op.isCsrImm with
  | true => rfl
  | false =>
    rw [hout himm]
    rfl

/-- What the unit does depends on nothing else of the record. -/
theorem MemoryData.Asks.step (h : d.Asks x op) (he : Isa.Encodes op x.instr) :
    c.csrPcNxt d pins = c.csrPcNxt (x.asks op) pins ∧
      c.step d pins false = c.step (x.asks op) pins false := by
  have hpc : d.pcW = (x.asks op).pcW := h.pcW
  have hctl : d.csrCtlW = (x.asks op).csrCtlW := h.csrCtlW.trans (x.asks_asks op).csrCtlW.symm
  have hint : c.isInterupt d pins = c.isInterupt (x.asks op) pins := by
    simp only [Csr.isInterupt, Csr.isSwint, Csr.isTrint, hpc]
  have hexc : c.excOrInt d pins = c.excOrInt (x.asks op) pins := by
    rw [Csr.excOrInt, Csr.excOrInt, hint, hctl]
  have hwen : c.csrWen d pins = c.csrWen (x.asks op) pins := by
    rw [Csr.csrWen, Csr.csrWen, hint, hctl]
  have hcause : c.mcauseName d pins = c.mcauseName (x.asks op) pins := by
    rw [Csr.mcauseName, Csr.mcauseName, hctl]
  constructor
  · rw [Csr.csrPcNxt, Csr.csrPcNxt, hexc, hwen, hctl, hpc]
  · have hregs : c.regsNxt d pins = c.regsNxt (x.asks op) pins := by
      rw [Csr.regsNxt, Csr.regsNxt, hexc, hwen, hctl, hpc, hcause]
      cases hw : c.csrWen (x.asks op) pins with
      | false => rfl
      | true => rw [h.wd (h.isCsr he (hwen.trans hw))]
    rw [Csr.step, Csr.step, hregs, Csr.modeNxt, Csr.modeNxt, hexc, hctl]

/-- A system instruction redirects the pc. -/
theorem Isa.State.asks_redirects (hs : op.isSystem = true) :
    (c.csrPcNxt (x.asks op) pins).csrPcValid = true := by
  have hctl := (x.asks_asks op).csrCtlW
  rcases Op.isSystem_cases hs with hc | rfl | rfl
  · have hacc : (op.control x.instr).csrCtl.csrWen = true ∧
        (op.control x.instr).csrCtl.isExcept = false ∧
        (op.control x.instr).csrCtl.isMret = false := by
      rw [Op.control_isCsr hc]
      split <;> exact ⟨rfl, rfl, rfl⟩
    simp only [Csr.csrPcNxt, Csr.excOrInt, Csr.csrWen, hctl, hacc.1, hacc.2.1, hacc.2.2]
    cases c.isInterupt (x.asks op) pins <;> rfl
  · have hexc : c.excOrInt (x.asks .ecall) pins = true := by
      rw [Csr.excOrInt, hctl]
      rfl
    rw [Csr.csrPcNxt, hexc]
    rfl
  · rw [Csr.csrPcNxt, hctl]
    exact Bool.or_true _

/-- A plain instruction that is not interrupted redirects nothing. -/
theorem Isa.State.asks_plain (he : Isa.Encodes op x.instr) (hs : op.isSystem = false)
    (hi : c.isInterupt (x.asks op) pins = false) :
    (c.csrPcNxt (x.asks op) pins).csrPcValid = false := by
  obtain ⟨hc, hno⟩ := Op.plain_of_isSystem hs
  have hctl := (x.asks_asks op).csrCtlW.trans (Op.control_program he hc hno).2.2.1
  rw [Csr.csrPcNxt, Csr.excOrInt, Csr.csrWen, hi, hctl]
  rfl

/-- A plain instruction without a redirect goes on as the program does. -/
theorem Isa.Hart.retire_prog {h : Isa.Hart} (dev : ℕ → BitVec 64) (hs : op.isSystem = false)
    (hno : (h.csr.csrPcNxt (h.prog.asks op) pins).csrPcValid = false) :
    (h.retire op dev pins).prog = h.prog.exec op dev := by
  refine Isa.State.ext ?_ ?_ rfl rfl
  · change h.pcNxt op pins = _
    rw [pcNxt, hno]
    rfl
  · change h.regsNxt op dev = _
    rw [regsNxt, (Op.plain_of_isSystem hs).1, hs]
    rfl

end Asks

/-- A bubble is not interrupted. -/
theorem Csr.isInterupt_bubble (c : Csr) {d : MemoryData} (h : d.pcW = 0) (pins : Pins) :
    c.isInterupt d pins = false := by
  simp [Csr.isInterupt, Csr.isSwint, Csr.isTrint, h]

/-! ## One instruction -/

section Retire

variable (h : Isa.Hart) (dev : ℕ → BitVec 64) {op : Op}

/-- A plain instruction goes on as the program does. -/
theorem Isa.Hart.retire_plain {pins : Pins} (he : Isa.Encodes op h.prog.instr)
    (hs : op.isSystem = false) (hi : h.csr.isInterupt (h.prog.asks op) pins = false) :
    (h.retire op dev pins).prog = h.prog.exec op dev ∧
      (h.retire op dev pins).csr.regs = h.csr.mirrored pins := by
  obtain ⟨hc, hno⟩ := Op.plain_of_isSystem hs
  have hctl := (h.prog.asks_asks op).csrCtlW.trans (Op.control_program he hc hno).2.2.1
  constructor
  · exact retire_prog dev hs (Isa.State.asks_plain he hs hi)
  · have hquiet : (h.prog.asks op).IsQuiet := by
      constructor <;> rw [hctl] <;> rfl
    rw [retire, Csr.step_quiet hquiet hi]

/-- A trap goes to `mtvec` and leaves the pc of the instruction in `mepc`, be it `ecall` or an
interrupt. -/
theorem Isa.Hart.retire_trap {pins : Pins}
    (ht : h.csr.excOrInt (h.prog.asks op) pins = true) :
    (h.retire op dev pins).prog.pc = h.csr.regs.mtvec ∧
      (h.retire op dev pins).csr.regs =
        { h.csr.mirrored pins with
          mepc := h.prog.pc
          mcause := BitVec.ofBool (!(op.control h.prog.instr).csrCtl.isExcept) ++
            h.csr.mcauseName (h.prog.asks op) pins
          mstatus :=
            setMpp (setMie (setMpie h.csr.regs.mstatus (mieBit h.csr.regs.mstatus)) false)
              h.csr.mode } := by
  constructor
  · change h.pcNxt op pins = _
    rw [pcNxt, Csr.csrPcNxt, ht]
    rfl
  · rw [retire, Csr.step_trap ht, (h.prog.asks_asks op).csrCtlW]
    rfl

/-- `mret` goes to `mepc`. -/
theorem Isa.Hart.retire_mret {pins : Pins}
    (hi : h.csr.isInterupt (h.prog.asks .mret) pins = false) :
    (h.retire .mret dev pins).prog.pc = h.csr.regs.mepc ∧
      (h.retire .mret dev pins).csr.regs =
        { h.csr.mirrored pins with
          mstatus := clearXs (setMpp (setMpie
            (setMie h.csr.regs.mstatus (mpieBit h.csr.regs.mstatus)) true) 0) } := by
  have hm : (h.prog.asks .mret).IsMret := by
    constructor <;> rw [(h.prog.asks_asks .mret).csrCtlW] <;> rfl
  constructor
  · change h.pcNxt .mret pins = _
    rw [pcNxt, Csr.csrPcNxt_mret hm hi]
    rfl
  · rw [retire, Csr.step_mret hm hi]

/-- An access to a CSR writes it and goes on. -/
theorem Isa.Hart.retire_csr {pins : Pins} (hc : op.isCsr = true)
    (hi : h.csr.isInterupt (h.prog.asks op) pins = false) :
    (h.retire op dev pins).prog.pc = h.prog.pc + 4 ∧
      (h.retire op dev pins).csr.regs =
        let regs := (h.csr.mirrored pins).write (op.control h.prog.instr).csrCtl.csrName
          (h.csr.wd (h.prog.asks op))
        { regs with mstatus := setSd regs.mstatus } := by
  have hctl := (h.prog.asks_asks op).csrCtlW
  have hacc : (op.control h.prog.instr).csrCtl.csrWen = true ∧
      (op.control h.prog.instr).csrCtl.isExcept = false ∧
      (op.control h.prog.instr).csrCtl.isMret = false := by
    rw [Op.control_isCsr hc]
    split <;> exact ⟨rfl, rfl, rfl⟩
  obtain ⟨hw, he, hm⟩ := hacc
  have hwen : h.csr.csrWen (h.prog.asks op) pins = true := by
    rw [Csr.csrWen, hctl, hw, he, hm, hi]
    rfl
  have hexc : h.csr.excOrInt (h.prog.asks op) pins = false := by
    rw [Csr.excOrInt, hctl, he, hi]
    rfl
  constructor
  · change h.pcNxt op pins = _
    rw [pcNxt, Csr.csrPcNxt, hexc, hwen]
    rfl
  · rw [retire, Csr.step_write hwen, hctl]

end Retire

end RiscvCpu
