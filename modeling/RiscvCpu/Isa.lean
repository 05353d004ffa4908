import RiscvCpu.Decode

/-!
# The instruction set

What RV64IM, Zicsr, `ecall` and `mret` say about the operations of `op_t`: which words
encode them, what they write to `rd`, and where execution goes on.  Nothing here is
read off the core, but for the names of the operations and of the fields of a word.

A jump through a register goes to `rs1 + imm` as it is, with bit 0 kept.
-/

namespace RiscvCpu

/-! ## Encodings -/

/-- What is fixed of the words that encode an operation. -/
inductive Isa.Pattern where
  /-- No word. -/
  | never
  | opcode (opcode : BitVec 7)
  | funct3 (opcode : BitVec 7) (f3 : BitVec 3)
  /-- `funct7` but for its last bit, the sixth bit of a shift amount. -/
  | funct6 (opcode : BitVec 7) (f3 : BitVec 3) (f6 : BitVec 6)
  | funct7 (opcode : BitVec 7) (f3 : BitVec 3) (f7 : BitVec 7)
  | word (w : BitVec 32)
deriving DecidableEq, Repr

/-- The word has what the pattern fixes. -/
def Isa.Pattern.Matches (p : Isa.Pattern) (w : BitVec 32) : Prop :=
  match p with
  | .never => False
  | .opcode o => opOf w = o
  | .funct3 o f3 => opOf w = o ∧ f3Of w = f3
  | .funct6 o f3 f6 => opOf w = o ∧ f3Of w = f3 ∧ w.extractLsb' 26 6 = f6
  | .funct7 o f3 f7 => opOf w = o ∧ f3Of w = f3 ∧ f7Of w = f7
  | .word v => w = v

instance matchesDecidable (p : Isa.Pattern) (w : BitVec 32) : Decidable (p.Matches w) :=
  match p with
  | .never => inferInstanceAs (Decidable False)
  | .opcode o => inferInstanceAs (Decidable (opOf w = o))
  | .funct3 o f3 => inferInstanceAs (Decidable (opOf w = o ∧ f3Of w = f3))
  | .funct6 o f3 f6 =>
    inferInstanceAs (Decidable (opOf w = o ∧ f3Of w = f3 ∧ w.extractLsb' 26 6 = f6))
  | .funct7 o f3 f7 => inferInstanceAs (Decidable (opOf w = o ∧ f3Of w = f3 ∧ f7Of w = f7))
  | .word v => inferInstanceAs (Decidable (w = v))

/-- The encoding of each operation. -/
def Isa.pattern (op : Op) : Isa.Pattern :=
  match op with
  | .undefined => .never
  | .lui => .opcode 0b0110111#7
  | .auipc => .opcode 0b0010111#7
  | .jal => .opcode 0b1101111#7
  | .jalr => .funct3 0b1100111#7 0b000#3
  | .beq => .funct3 0b1100011#7 0b000#3
  | .bne => .funct3 0b1100011#7 0b001#3
  | .blt => .funct3 0b1100011#7 0b100#3
  | .bge => .funct3 0b1100011#7 0b101#3
  | .bltu => .funct3 0b1100011#7 0b110#3
  | .bgeu => .funct3 0b1100011#7 0b111#3
  | .lb => .funct3 0b0000011#7 0b000#3
  | .lh => .funct3 0b0000011#7 0b001#3
  | .lw => .funct3 0b0000011#7 0b010#3
  | .ld => .funct3 0b0000011#7 0b011#3
  | .lbu => .funct3 0b0000011#7 0b100#3
  | .lhu => .funct3 0b0000011#7 0b101#3
  | .lwu => .funct3 0b0000011#7 0b110#3
  | .sb => .funct3 0b0100011#7 0b000#3
  | .sh => .funct3 0b0100011#7 0b001#3
  | .sw => .funct3 0b0100011#7 0b010#3
  | .sd => .funct3 0b0100011#7 0b011#3
  | .addi => .funct3 0b0010011#7 0b000#3
  | .slti => .funct3 0b0010011#7 0b010#3
  | .sltiu => .funct3 0b0010011#7 0b011#3
  | .xori => .funct3 0b0010011#7 0b100#3
  | .ori => .funct3 0b0010011#7 0b110#3
  | .andi => .funct3 0b0010011#7 0b111#3
  | .slli => .funct6 0b0010011#7 0b001#3 0b000000#6
  | .srli => .funct6 0b0010011#7 0b101#3 0b000000#6
  | .srai => .funct6 0b0010011#7 0b101#3 0b010000#6
  | .add => .funct7 0b0110011#7 0b000#3 0b0000000#7
  | .sub => .funct7 0b0110011#7 0b000#3 0b0100000#7
  | .sll => .funct7 0b0110011#7 0b001#3 0b0000000#7
  | .slt => .funct7 0b0110011#7 0b010#3 0b0000000#7
  | .sltu => .funct7 0b0110011#7 0b011#3 0b0000000#7
  | .xor => .funct7 0b0110011#7 0b100#3 0b0000000#7
  | .srl => .funct7 0b0110011#7 0b101#3 0b0000000#7
  | .sra => .funct7 0b0110011#7 0b101#3 0b0100000#7
  | .or => .funct7 0b0110011#7 0b110#3 0b0000000#7
  | .and => .funct7 0b0110011#7 0b111#3 0b0000000#7
  | .mul => .funct7 0b0110011#7 0b000#3 0b0000001#7
  | .div => .funct7 0b0110011#7 0b100#3 0b0000001#7
  | .divu => .funct7 0b0110011#7 0b101#3 0b0000001#7
  | .rem => .funct7 0b0110011#7 0b110#3 0b0000001#7
  | .remu => .funct7 0b0110011#7 0b111#3 0b0000001#7
  | .addiw => .funct3 0b0011011#7 0b000#3
  | .slliw => .funct7 0b0011011#7 0b001#3 0b0000000#7
  | .srliw => .funct7 0b0011011#7 0b101#3 0b0000000#7
  | .sraiw => .funct7 0b0011011#7 0b101#3 0b0100000#7
  | .addw => .funct7 0b0111011#7 0b000#3 0b0000000#7
  | .subw => .funct7 0b0111011#7 0b000#3 0b0100000#7
  | .sllw => .funct7 0b0111011#7 0b001#3 0b0000000#7
  | .srlw => .funct7 0b0111011#7 0b101#3 0b0000000#7
  | .sraw => .funct7 0b0111011#7 0b101#3 0b0100000#7
  | .mulw => .funct7 0b0111011#7 0b000#3 0b0000001#7
  | .divw => .funct7 0b0111011#7 0b100#3 0b0000001#7
  | .divuw => .funct7 0b0111011#7 0b101#3 0b0000001#7
  | .remw => .funct7 0b0111011#7 0b110#3 0b0000001#7
  | .remuw => .funct7 0b0111011#7 0b111#3 0b0000001#7
  | .csrrw => .funct3 0b1110011#7 0b001#3
  | .csrrs => .funct3 0b1110011#7 0b010#3
  | .csrrc => .funct3 0b1110011#7 0b011#3
  | .csrrwi => .funct3 0b1110011#7 0b101#3
  | .csrrsi => .funct3 0b1110011#7 0b110#3
  | .csrrci => .funct3 0b1110011#7 0b111#3
  | .ecall => .word 0x00000073#32
  | .mret => .word 0x30200073#32

/-- The word encodes the operation. -/
def Isa.Encodes (op : Op) (w : BitVec 32) : Prop := (Isa.pattern op).Matches w

instance encodesDecidable (op : Op) (w : BitVec 32) : Decidable (Isa.Encodes op w) :=
  matchesDecidable _ w

/-! ## Results -/

/-- The lower half of a register. -/
def Isa.lo (x : BitVec 64) : BitVec 32 := x.extractLsb' 0 32

/-- A truth value in a register. -/
def Isa.flag (b : Bool) : BitVec 64 := if b then 1 else 0

/-- What an integer computation, a jump or a link writes to `rd`, for the values `x` of
`rs1` and `y` of `rs2`. -/
def Isa.result (op : Op) (w : BitVec 32) (pc x y : BitVec 64) : BitVec 64 :=
  match op with
  | .lui => immU w
  | .auipc => pc + immU w
  | .jal | .jalr => pc + 4
  | .addi => x + immI w
  | .slti => flag (x.slt (immI w))
  | .sltiu => flag (x.ult (immI w))
  | .xori => x ^^^ immI w
  | .ori => x ||| immI w
  | .andi => x &&& immI w
  | .slli => x <<< (w.extractLsb' 20 6).toNat
  | .srli => x >>> (w.extractLsb' 20 6).toNat
  | .srai => x.sshiftRight (w.extractLsb' 20 6).toNat
  | .add => x + y
  | .sub => x - y
  | .sll => x <<< (y.toNat % 64)
  | .slt => flag (x.slt y)
  | .sltu => flag (x.ult y)
  | .xor => x ^^^ y
  | .srl => x >>> (y.toNat % 64)
  | .sra => x.sshiftRight (y.toNat % 64)
  | .or => x ||| y
  | .and => x &&& y
  | .addiw => (lo x + lo (immI w)).signExtend 64
  | .slliw => (lo x <<< (w.extractLsb' 20 5).toNat).signExtend 64
  | .srliw => (lo x >>> (w.extractLsb' 20 5).toNat).signExtend 64
  | .sraiw => ((lo x).sshiftRight (w.extractLsb' 20 5).toNat).signExtend 64
  | .addw => (lo x + lo y).signExtend 64
  | .subw => (lo x - lo y).signExtend 64
  | .sllw => (lo x <<< (y.toNat % 32)).signExtend 64
  | .srlw => (lo x >>> (y.toNat % 32)).signExtend 64
  | .sraw => ((lo x).sshiftRight (y.toNat % 32)).signExtend 64
  | _ => 0

/-- Is the condition of a branch met? -/
def Isa.taken (op : Op) (x y : BitVec 64) : Bool :=
  match op with
  | .jal | .jalr => true
  | .beq => x == y
  | .bne => x != y
  | .blt => x.slt y
  | .bge => !x.slt y
  | .bltu => x.ult y
  | .bgeu => !x.ult y
  | _ => false

/-- Where execution goes on. -/
def Isa.nextPc (op : Op) (w : BitVec 32) (pc x y : BitVec 64) : BitVec 64 :=
  match op with
  | .jal => pc + immJ w
  | .jalr => x + immI w
  | .beq | .bne | .blt | .bge | .bltu | .bgeu => if taken op x y then pc + immB w else pc + 4
  | _ => pc + 4

/-- The integer computations, jumps and branches of RV64I. -/
def Op.isInteger (op : Op) : Bool :=
  match op with
  | .lui | .auipc | .jal | .jalr | .beq | .bne | .blt | .bge | .bltu | .bgeu
  | .addi | .slti | .sltiu | .xori | .ori | .andi | .slli | .srli | .srai
  | .add | .sub | .sll | .slt | .sltu | .xor | .srl | .sra | .or | .and
  | .addiw | .slliw | .srliw | .sraiw | .addw | .subw | .sllw | .srlw | .sraw => true
  | _ => false

/-- The branches write no register. -/
def Op.isBranch (op : Op) : Bool :=
  match op with
  | .beq | .bne | .blt | .bge | .bltu | .bgeu => true
  | _ => false

/-! ## Multiplication and division -/

section MulDiv

variable {n : ℕ}

/-- Signed division rounds towards zero.  Division by zero gives minus one, and the
quotient that does not fit is the dividend. -/
def Isa.div (x y : BitVec n) : BitVec n :=
  if y = 0 then BitVec.allOnes n
  else if x = BitVec.intMin n ∧ y = BitVec.allOnes n then x
  else BitVec.ofInt n (x.toInt.tdiv y.toInt)

/-- The signed remainder has the sign of the dividend, which is the remainder of a
division by zero. -/
def Isa.rem (x y : BitVec n) : BitVec n :=
  if y = 0 then x
  else if x = BitVec.intMin n ∧ y = BitVec.allOnes n then 0
  else BitVec.ofInt n (x.toInt.tmod y.toInt)

/-- Unsigned division. -/
def Isa.divu (x y : BitVec n) : BitVec n :=
  if y = 0 then BitVec.allOnes n else BitVec.ofNat n (x.toNat / y.toNat)

/-- Unsigned remainder. -/
def Isa.remu (x y : BitVec n) : BitVec n :=
  if y = 0 then x else BitVec.ofNat n (x.toNat % y.toNat)

end MulDiv

/-- What a multiplication or division writes to `rd`. -/
def Isa.mulDiv (op : Op) (x y : BitVec 64) : BitVec 64 :=
  match op with
  | .mul => x * y
  | .mulw => (lo x * lo y).signExtend 64
  | .div => div x y
  | .divu => divu x y
  | .rem => rem x y
  | .remu => remu x y
  | .divw => (div (lo x) (lo y)).signExtend 64
  | .divuw => (divu (lo x) (lo y)).signExtend 64
  | .remw => (rem (lo x) (lo y)).signExtend 64
  | .remuw => (remu (lo x) (lo y)).signExtend 64
  | _ => 0

/-! ## Accesses to CSRs -/

/-- The accesses whose source is in the word. -/
def Op.isCsrImm (op : Op) : Bool :=
  match op with
  | .csrrwi | .csrrsi | .csrrci => true
  | _ => false

/-- The source of an access, for the value `x` of `rs1`. -/
def Isa.csrSource (op : Op) (w : BitVec 32) (x : BitVec 64) : BitVec 64 :=
  if op.isCsrImm then (w.extractLsb' 15 5).setWidth 64 else x

/-- What an access makes of the value `old`. -/
def Isa.csrResult (op : Op) (old src : BitVec 64) : BitVec 64 :=
  match op with
  | .csrrs | .csrrsi => old ||| src
  | .csrrc | .csrrci => old &&& ~~~src
  | _ => src

end RiscvCpu
