import RiscvCpu.Arith.ByteMemory
import RiscvCpu.Decoded
import RiscvCpu.Isa
import RiscvCpu.LoadStore

/-!
# The instruction set as a machine

RV64IM one instruction at a time, with the machine's own registers, pc and memory of
bytes.  The addresses with bit 31 set are memory.  Behind all others live devices: a
store there leaves memory alone, and a load takes the next word of a stream `dev`, the
answers of the bus in order.
-/

namespace RiscvCpu

/-! ## Loads and stores -/

/-- What a load or store moves. -/
inductive Isa.Access where
  | load (msize : Msize) (memUnsigned : Bool)
  | store (msize : Msize)
deriving DecidableEq, Repr

/-- The size of an access. -/
def Isa.Access.msize : Isa.Access → Msize
  | .load msize _ => msize
  | .store msize => msize

/-- The access an operation makes. -/
def Isa.access (op : Op) : Option Isa.Access :=
  match op with
  | .lb => some (.load .msize1 false)
  | .lh => some (.load .msize2 false)
  | .lw => some (.load .msize4 false)
  | .ld => some (.load .msize8 false)
  | .lbu => some (.load .msize1 true)
  | .lhu => some (.load .msize2 true)
  | .lwu => some (.load .msize4 true)
  | .sb => some (.store .msize1)
  | .sh => some (.store .msize2)
  | .sw => some (.store .msize4)
  | .sd => some (.store .msize8)
  | _ => none

/-- The immediate of the address of an access. -/
def Isa.displacement (op : Op) (w : BitVec 32) : BitVec 64 :=
  match access op with
  | some (.store _) => immS w
  | _ => immI w

/-- Is `rd` written? -/
def Isa.writesRd (op : Op) : Bool :=
  match access op with
  | some (.store _) => false
  | _ => !op.isBranch

/-! ## States -/

/-- The state of a program. -/
@[ext] structure Isa.State where
  pc : BitVec 64
  regs : Regs
  mem : BitVec 64 → BitVec 8
  /-- How many loads have taken their word from a device. -/
  reads : ℕ

/-- The state a program starts in, with the contents of memory word by word. -/
def Isa.State.initial (word : BitVec 61 → BitVec 64) : Isa.State where
  pc := pcInit
  regs _ := 0
  mem := Bytes.ofWords word
  reads := 0

section Exec

variable (x : Isa.State) (op : Op) (dev : ℕ → BitVec 64)

/-- The word at an address. -/
def Isa.State.wordAt (addr : BitVec 64) : BitVec 32 := Bytes.word (Bytes.bytesAt x.mem addr) 4

/-- The next instruction. -/
def Isa.State.instr : BitVec 32 := x.wordAt x.pc

/-- The value of `rs1`. -/
def Isa.State.rs1 : BitVec 64 := x.regs (ra1Of x.instr)

/-- The value of `rs2`. -/
def Isa.State.rs2 : BitVec 64 := x.regs (ra2Of x.instr)

/-- The address of an access. -/
def Isa.State.addr : BitVec 64 := x.rs1 + Isa.displacement op x.instr

/-- What a load returns. -/
def Isa.State.loaded (msize : Msize) (memUnsigned : Bool) : BitVec 64 :=
  if isCached (x.addr op) then loadValue (Bytes.bytesAt x.mem (x.addr op)) 0 msize memUnsigned
  else loadValue (Bytes.byte (dev x.reads)) (Bytes.offset (x.addr op)) msize memUnsigned

/-- What an instruction writes to `rd`. -/
def Isa.State.result : BitVec 64 :=
  match Isa.access op with
  | some (.load msize u) => x.loaded op dev msize u
  | _ =>
    if op.isMulDiv then Isa.mulDiv op x.rs1 x.rs2 else Isa.result op x.instr x.pc x.rs1 x.rs2

/-- Memory after an instruction. -/
def Isa.State.memNxt : BitVec 64 → BitVec 8 :=
  match Isa.access op with
  | some (.store msize) =>
    if isCached (x.addr op) then Bytes.store x.mem (x.addr op) msize.bytes (Bytes.byte x.rs2)
    else x.mem
  | _ => x.mem

/-- Does the instruction take a word from a device? -/
def Isa.State.readsDevice : Bool :=
  match Isa.access op with
  | some (.load _ _) => !isCached (x.addr op)
  | _ => false

/-- The registers after an instruction.  Register zero stays as it is. -/
def Isa.State.regsNxt : Regs :=
  let rd := writeregOf x.instr
  if Isa.writesRd op && rd != 0 then Function.update x.regs rd (x.result op dev) else x.regs

/-- One instruction. -/
def Isa.State.exec : Isa.State where
  pc := Isa.nextPc op x.instr x.pc x.rs1 x.rs2
  regs := x.regsNxt op dev
  mem := x.memNxt op
  reads := x.reads + (x.readsDevice op).toNat

@[simp] theorem Isa.State.exec_pc :
    (x.exec op dev).pc = Isa.nextPc op x.instr x.pc x.rs1 x.rs2 := rfl

@[simp] theorem Isa.State.exec_regs : (x.exec op dev).regs = x.regsNxt op dev := rfl

@[simp] theorem Isa.State.exec_mem : (x.exec op dev).mem = x.memNxt op := rfl

@[simp] theorem Isa.State.exec_reads :
    (x.exec op dev).reads = x.reads + (x.readsDevice op).toNat := rfl

/-- What is seen of an instruction from outside: its pc, its word, and the register it
writes with the value. -/
structure Isa.Commit where
  pc : BitVec 64
  instr : BitVec 32
  written : Option (BitVec 5 × BitVec 64)
deriving DecidableEq, Repr

/-- The commit of an instruction. -/
def Isa.State.commit : Isa.Commit where
  pc := x.pc
  instr := x.instr
  written := if Isa.writesRd op then some (writeregOf x.instr, x.result op dev) else none

/-! ## Programs -/

/-- The instruction is one of RV64I or RV64M, and does not leave the machine it is
written for: the pc is aligned and lies in memory, and so is a load or store, or it goes to
a device. -/
structure Isa.State.Fits : Prop where
  noCsr : op.isCsr = false
  noSystem : op ≠ .ecall ∧ op ≠ .mret
  pcAligned : x.pc.extractLsb' 0 2 = 0
  pcRange : 0x80000000 ≤ x.pc.toNat ∧ x.pc.toNat < 0x100000000
  access : ∀ a, Isa.access op = some a → a.msize.Aligned ((x.addr op).extractLsb' 0 3)
  data : ∀ a, Isa.access op = some a → isCached (x.addr op) = true →
    (x.addr op).toNat < 0x100000000

end Exec

/-- The execution of the program in a memory: `x n` is the state before its `n`-th
instruction, of the operation `op n`, counted from zero. -/
structure Isa.Executes (word : BitVec 61 → BitVec 64) (x : ℕ → Isa.State) (op : ℕ → Op)
    (dev : ℕ → BitVec 64) : Prop where
  start : x 0 = .initial word
  encodes : ∀ n, Isa.Encodes (op n) (x n).instr
  next : ∀ n, x (n + 1) = (x n).exec (op n) dev
  fits : ∀ n, (x n).Fits (op n)
  /-- A word that is executed is never changed. -/
  code : ∀ m n, (x m).wordAt (x n).pc = (x n).instr

theorem Isa.Executes.regs_zero {word : BitVec 61 → BitVec 64} {x : ℕ → Isa.State} {op : ℕ → Op}
    {dev : ℕ → BitVec 64} (h : Isa.Executes word x op dev) (n : ℕ) : (x n).regs 0 = 0 := by
  induction n with
  | zero =>
    rw [h.start]
    rfl
  | succ n ih =>
    rw [h.next n, Isa.State.exec_regs, Isa.State.regsNxt]
    by_cases hw : (Isa.writesRd (op n) && writeregOf (x n).instr != 0) = true
    · have hne : writeregOf (x n).instr ≠ 0 := by
        simp only [Bool.and_eq_true, bne_iff_ne] at hw
        exact hw.2
      rw [if_pos hw, Function.update_of_ne hne.symm]
      exact ih
    · rw [if_neg hw]
      exact ih

/-! ## Programs that end in a loop -/

instance Isa.State.decidableFits (x : Isa.State) (op : Op) : Decidable (x.Fits op) :=
  decidable_of_iff
    (op.isCsr = false ∧ (op ≠ .ecall ∧ op ≠ .mret) ∧ x.pc.extractLsb' 0 2 = 0 ∧
      (0x80000000 ≤ x.pc.toNat ∧ x.pc.toNat < 0x100000000) ∧
      ∀ a ∈ Isa.access op, a.msize.Aligned ((x.addr op).extractLsb' 0 3) ∧
        (isCached (x.addr op) = true → (x.addr op).toNat < 0x100000000))
    ⟨fun ⟨hc, hs, hal, hr, ha⟩ => ⟨hc, hs, hal, hr, fun a h => (ha a h).1, fun a h => (ha a h).2⟩,
      fun h => ⟨h.noCsr, h.noSystem, h.pcAligned, h.pcRange,
        fun a ha => ⟨h.access a ha, h.data a ha⟩⟩⟩

section Loop

variable {x : ℕ → Isa.State} {op : ℕ → Op} {dev : ℕ → BitVec 64} {N : ℕ}

/-- The program goes on without end, and from its instruction `N` on it jumps to itself. -/
structure Isa.Loops (x : ℕ → Isa.State) (op : ℕ → Op) (dev : ℕ → BitVec 64) (N : ℕ) : Prop where
  next : ∀ n, x (n + 1) = (x n).exec (op n) dev
  jumps : ∀ n, op (n + N) = .jal
  instr : (x N).instr = 0x0000006f#32

theorem Isa.Loops.state (h : Isa.Loops x op dev N) (n : ℕ) : x (n + N) = x N := by
  induction n with
  | zero => rw [Nat.zero_add]
  | succ n ih =>
    rw [Nat.succ_add, h.next, h.jumps, ih]
    refine Isa.State.ext ?_ ?_ rfl rfl
    · rw [Isa.State.exec_pc, h.instr]
      exact BitVec.add_zero _
    · rw [Isa.State.exec_regs, Isa.State.regsNxt, h.instr]
      rfl

/-- What holds up to the loop holds all the time. -/
theorem Isa.Loops.all (h : Isa.Loops x op dev N) {P : Isa.State → Op → Prop}
    (hP : ∀ n ≤ N, P (x n) (op n)) (n : ℕ) : P (x n) (op n) := by
  rcases Nat.lt_or_ge n N with hlt | hge
  · exact hP n (Nat.le_of_lt hlt)
  · obtain ⟨k, rfl⟩ := Nat.exists_eq_add_of_le' hge
    have hlast := hP N (Nat.le_refl N)
    rw [← Nat.zero_add N, h.jumps 0, h.state 0] at hlast
    rw [h.jumps k, h.state k]
    exact hlast

theorem Isa.Loops.executes (h : Isa.Loops x op dev N) {word : BitVec 61 → BitVec 64}
    (start : x 0 = .initial word)
    (fits : ∀ n ≤ N, Isa.Encodes (op n) (x n).instr ∧ (x n).Fits (op n))
    (code : ∀ m ≤ N, ∀ n ≤ N, (x m).wordAt (x n).pc = (x n).instr) :
    Isa.Executes word x op dev where
  start := start
  encodes := h.all (P := fun y o => Isa.Encodes o y.instr) fun n hn => (fits n hn).1
  next := h.next
  fits := h.all fun n hn => (fits n hn).2
  code m n :=
    h.all (P := fun y _ => y.wordAt (x n).pc = (x n).instr) (fun m hm =>
      h.all (P := fun y _ => (x m).wordAt y.pc = y.instr) (fun n hn => code m hm n hn) n) m

end Loop

end RiscvCpu
