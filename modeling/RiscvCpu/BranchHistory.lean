import RiscvCpu.Predict
import RiscvCpu.Records

/-!
# The branch history table

A counter of the table is trained by the branches that leave decode with its entry, in
order.  Its `jump` bit is a register of its own and takes the direction of the state from
before the training, so that a prediction is one outcome behind (`Bpb.IsRun.entry`).

That shows where the last outcome has turned the counter round.  A counter is turned by
two equal outcomes in a row against its direction, so its direction is that of the last
pair of equal outcomes (`takes_after`).
-/

namespace RiscvCpu

/-! ## The transition table -/

/-- The next state for an outcome. -/
def CounterState.next (σ : CounterState) (isTaken : Bool) : CounterState :=
  match σ with
  | .sntaken => if isTaken then .wntaken else .sntaken
  | .wntaken => if isTaken then .staken else .sntaken
  | .wtaken => if isTaken then .staken else .sntaken
  | .staken => if isTaken then .staken else .wtaken

/-- The states that stand for a taken branch. -/
def CounterState.takes (σ : CounterState) : Bool := σ == .wtaken || σ == .staken

/-- The state after some outcomes, the most recent one first. -/
def CounterState.after : List Bool → CounterState
  | [] => .wtaken
  | o :: outcomes => (after outcomes).next o

/-- The direction of the most recent outcome that came twice in a row.  The first
outcome of all counts as one, and before it a branch counts as taken. -/
def lastPair : List Bool → Bool
  | [] => true
  | [o] => o
  | o :: o' :: outcomes => if o = o' then o else lastPair (o' :: outcomes)

/-- There is a last outcome, and it has not turned the direction of the last pair. -/
def Settled (outcomes : List Bool) : Prop :=
  outcomes ≠ [] ∧ lastPair outcomes = lastPair outcomes.tail

instance Settled.instDecidable (outcomes : List Bool) : Decidable (Settled outcomes) :=
  inferInstanceAs (Decidable (_ ∧ _))

theorem TwoBitCounter.step_wen (b : TwoBitCounter) (isTaken : Bool) :
    b.step false true isTaken = ⟨b.state.takes, b.state.next isTaken⟩ := by
  obtain ⟨jump, state⟩ := b
  cases state <;> rfl

/-- Two equal outcomes decide the direction, an outcome against the one before it does
not change it. -/
theorem CounterState.takes_next_next (σ : CounterState) (o o' : Bool) :
    ((σ.next o').next o).takes = if o = o' then o else (σ.next o').takes := by
  cases σ <;> cases o <;> cases o' <;> rfl

/-- A counter has the direction of the last pair of equal outcomes. -/
theorem takes_after (outcomes : List Bool) :
    (CounterState.after outcomes).takes = lastPair outcomes := by
  induction outcomes using lastPair.induct with
  | case1 => rfl
  | case2 o => cases o <;> rfl
  | case3 o outcomes =>
    rw [lastPair, if_pos rfl, CounterState.after, CounterState.after,
      CounterState.takes_next_next, if_pos rfl]
  | case4 o o' outcomes hne ih =>
    rw [lastPair, if_neg hne, ← ih, CounterState.after, CounterState.after,
      CounterState.takes_next_next, if_neg hne]

/-! ## Runs -/

/-- The inputs of `branchpredict` that train its counters. -/
structure BpbIn where
  reset : Bool
  en : Bool
  commitInstrBj : BranchOrJump
  instrCommit : BpResult
deriving DecidableEq, Repr

/-- The clock edge of `branchpredict` for the inputs of a cycle. -/
def Bpb.next (bpb : Bpb) (i : BpbIn) : Bpb := bpb.step i.reset i.en i.commitInstrBj i.instrCommit

/-- `s` is a run of `branchpredict` from reset. -/
def Bpb.IsRun (s : ℕ → Bpb) (i : ℕ → BpbIn) : Prop :=
  Sync.FromReset Bpb.next (fun j => j.reset = true) s i

/-- A branch with entry `j` leaves decode. -/
def BpbIn.commits (i : BpbIn) (j : BitVec 8) : Bool :=
  i.en && i.commitInstrBj == .bBeq && bpbEntry i.instrCommit.pc == j

/-- The outcomes of the branches with entry `j` that have left decode before cycle `t`,
the most recent one first. -/
def Bpb.outcomes (i : ℕ → BpbIn) (j : BitVec 8) : ℕ → List Bool
  | 0 => []
  | t + 1 =>
    if (i t).commits j then ((i t).instrCommit.pcsrc == .pcjump) :: outcomes i j t
    else outcomes i j t

/-- The branch `raw` at `pc` is predicted as its counter, run over the outcomes with its
entry, has it. -/
def Bpb.Predicts (s : ℕ → Bpb) (i : ℕ → BpbIn) (t : ℕ) (raw : BitVec 32) (pc : BitVec 64) : Prop :=
  ((s t).bpResult raw pc).pcsrc = .pcjump ↔
    (CounterState.after (outcomes i (bpbEntry pc) t)).takes = true

/-- The training inputs in a core. -/
def Core.bpbIn (c : Core) (i : CoreIn) : BpbIn :=
  ⟨i.reset, !(c.regstallEn i).pc, c.dataDInstr.ctl.bj, c.instrCommit⟩

theorem Core.IsRun.bpb {s : ℕ → Core} {i : ℕ → CoreIn} (h : Core.IsRun s i) :
    Bpb.IsRun (fun t => (s t).fetch.bpb) fun t => (s t).bpbIn (i t) :=
  h.project (fun c => c.fetch.bpb) Core.bpbIn (fun _ _ => rfl) fun _ _ => Iff.rfl

section Run

variable {s : ℕ → Bpb} {i : ℕ → BpbIn} {t : ℕ} {raw : BitVec 32} {pc : BitVec 64}

/-- A cycle trains the counter of the branch that leaves decode and no other. -/
theorem Bpb.next_entry {bpb : Bpb} {i : BpbIn} (hr : i.reset = false) (j : BitVec 8) :
    bpb.next i j = if i.commits j then
      ⟨(bpb j).state.takes, (bpb j).state.next (i.instrCommit.pcsrc == .pcjump)⟩ else bpb j := by
  have hwen : (i.commitInstrBj == .bBeq && bpbEntry i.instrCommit.pc == j && i.en) =
      i.commits j := by
    rw [BpbIn.commits, Bool.and_comm, Bool.and_assoc]
  rw [next, step, hr, hwen]
  cases i.commits j with
  | true => exact TwoBitCounter.step_wen _ _
  | false => rfl

/-- A counter holds the state after all outcomes with its entry, and shows the direction
it had before the last of them. -/
theorem Bpb.IsRun.entry (h : Bpb.IsRun s i) (j : BitVec 8) (t : ℕ) :
    (s t j).state = .after (outcomes i j t) ∧
      (s t j).jump = (outcomes i j t != [] && lastPair (outcomes i j t).tail) := by
  induction t with
  | zero =>
    obtain ⟨x, y, hy, hs⟩ := h.start
    rw [hs, Bpb.next, Bpb.step, hy]
    exact ⟨rfl, rfl⟩
  | succ t ih =>
    rw [h.next t, next_entry (Bool.eq_false_iff.mpr (h.noReset t)) j, outcomes]
    by_cases hc : (i t).commits j = true
    · rw [if_pos hc, if_pos hc, ih.1, takes_after]
      exact ⟨rfl, rfl⟩
    · rw [if_neg hc, if_neg hc]
      exact ih

/-- A branch is predicted as its history has it if and only if there is an outcome with
its entry and the last one has not turned the counter round. -/
theorem Bpb.IsRun.predicts_iff (h : Bpb.IsRun s i) (t : ℕ) (pc : BitVec 64)
    (hraw : opOf raw = opBeq) :
    Predicts s i t raw pc ↔ Settled (outcomes i (bpbEntry pc) t) := by
  obtain ⟨_, hjump⟩ := h.entry (bpbEntry pc) t
  have hpred : ((s t).bpResult raw pc).pcsrc = .pcjump ↔ (s t (bpbEntry pc)).jump = true := by
    rw [bpResult_beq hraw]
    cases (s t (bpbEntry pc)).jump <;> simp
  rw [Predicts, hpred, hjump, takes_after, Settled]
  generalize outcomes i (bpbEntry pc) t = l
  cases l with
  | nil => simp [lastPair]
  | cons o l =>
    rw [show (o :: l != []) = true from rfl, Bool.true_and, ← Bool.eq_iff_iff]
    exact ⟨fun h => ⟨List.cons_ne_nil o l, h.symm⟩, fun h => h.2.symm⟩

end Run

/-! ## An example run -/

/-- `beq x0, x0, 0`, a branch to itself. -/
def branchToSelf : List (BitVec 32) := [0x00000063#32]

/-- The predictor in the run of the program. -/
def branchToSelfBpb (t : ℕ) : Bpb := (SimTop.boot branchToSelf .low t).top.core.fetch.bpb

/-- What trains it. -/
def branchToSelfIn (t : ℕ) : BpbIn :=
  (SimTop.boot branchToSelf .low t).top.core.bpbIn ((SimTop.boot branchToSelf .low t).top.coreIn
    ((SimTop.boot branchToSelf .low t).topIn (.fast .low)))

theorem branchToSelf_isRun : Bpb.IsRun branchToSelfBpb branchToSelfIn :=
  (SimTop.boot_isRun branchToSelf .low).top.core.bpb

/-- The branch is fetched in cycle 4 with no history.  Its counter is in `WTAKEN`, and it
is predicted not to be taken. -/
theorem branchToSelf_mispredicted :
    Bpb.IsRun branchToSelfBpb branchToSelfIn ∧
    (SimTop.boot branchToSelf .low 5).top.core.fd = ⟨pcInit, 0x00000063#32, .pcplus4⟩ ∧
    ¬Bpb.Predicts branchToSelfBpb branchToSelfIn 4 0x00000063#32 pcInit := by
  have hout : Bpb.outcomes branchToSelfIn (bpbEntry pcInit) 4 = [] := by decide +kernel
  have hpred : ((branchToSelfBpb 4).bpResult 0x00000063#32 pcInit).pcsrc = .pcplus4 := by
    decide +kernel
  refine ⟨branchToSelf_isRun, by decide +kernel, fun h => ?_⟩
  rw [Bpb.Predicts, hout, hpred] at h
  cases h.mpr rfl

/-- In cycle 8 it is fetched again with one outcome, and predicted to be taken. -/
theorem branchToSelf_predicted :
    Bpb.Predicts branchToSelfBpb branchToSelfIn 8 0x00000063#32 pcInit :=
  (branchToSelf_isRun.predicts_iff 8 pcInit rfl).mpr (by decide +kernel)

end RiscvCpu
