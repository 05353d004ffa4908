import RiscvCpu.Refinement

/-!
# Architectural state

In every cycle of a run of a program the registers and the memory of the program can be read
off the system.  The registers are the ones shown beside the reports of write-back.  A word of
memory is found in the data cache, on its way into it or out of it, or in memory behind it:
`Cache.current` says where to look.
-/

namespace RiscvCpu

/-! ## Registers -/

/-- `regs_nxt`. -/
def Regs.nxt (regs : Regs) (dataW : WritebackData) : Regs := fun i =>
  if i = dataW.writereg && dataW.regwriteEn then dataW.writeData else regs i

/-- The registers `DifftestArchIntRegState` shows.  Register zero has no driver. -/
def Core.difftestArchIntRegState (c : Core) : Regs := c.regfile.nxt c.dataW

theorem Core.difftestArchIntRegState_eq (c : Core) {ra : BitVec 5} (h : ra ≠ 0) :
    c.difftestArchIntRegState ra = c.valueW ra := by
  rw [difftestArchIntRegState, Regs.nxt, valueW, Instr.writes]
  change (if ra = c.mw.instr.writereg && c.mw.instr.ctl.regwriteEn then _ else _) = _
  cases c.mw.instr.ctl.regwriteEn with
  | false => simp
  | true =>
    by_cases hra : ra = c.mw.instr.writereg
    · have hrd : c.mw.instr.writereg ≠ 0#5 := hra ▸ h
      simp [hra, hrd]
    · simp [hra]

/-! ## Memory -/

section Memory

variable {ib : Nat} (s : Cache ib) (k : ℕ) (a : ReqAddr ib) (m : BitVec 64)

instance (w : BitVec 3) : Decidable (s.Resident w a) := inferInstanceAs (Decidable (_ ∧ _))

instance (w : BitVec 3) : Decidable (s.Awaits w a) :=
  inferInstanceAs (Decidable (_ ∧ _ ∧ _ ∧ _))

instance : Decidable (s.Evicted a) := inferInstanceAs (Decidable (_ ∧ _ ∧ _))

/-- The way that holds the line of a word. -/
def Cache.wayOf : Option (BitVec 3) :=
  ([0, 1, 2, 3, 4, 5, 6, 7] : List (BitVec 3)).find? fun w => s.Resident w a

/-- The current value of a word, `m` being its value in memory and `k` the beats that are done
of the burst under way. -/
def Cache.current : BitVec 64 :=
  match s.wayOf a with
  | some w => if s.Awaits w a then m else s.dataRam (a.slot w)
  | none =>
    if s.Evicted a then
      if s.missState = .load then s.displacedAt a.offset
      -- a write-back sends the words in the order of the refill
      else if Sync.ahead s.creqAddr.offset a.offset < k then m
      else s.bufAt a.offset
    else m

variable {s k a m}

theorem Cache.DirectoryOk.wayOf_eq (h : s.DirectoryOk) {w : BitVec 3} (hw : s.Resident w a) :
    s.wayOf a = some w := by
  have hall : ∀ v : BitVec 3, v ∈ ([0, 1, 2, 3, 4, 5, 6, 7] : List (BitVec 3)) := by decide
  cases hf : s.wayOf a with
  | none => exact absurd (decide_eq_true hw) (List.find?_eq_none.mp hf w (hall w))
  | some w' =>
    unfold wayOf at hf
    have hw' := List.find?_some hf
    rw [h w' w a (of_decide_eq_true hw') hw]

theorem Cache.wayOf_eq_none (h : ∀ w, ¬s.Resident w a) : s.wayOf a = none :=
  List.find?_eq_none.mpr fun w _ hw => h w (of_decide_eq_true hw)

/-- The current value of a word is the one it holds for the requests. -/
theorem Cache.Holds.current_eq {v : BitVec 64} (h : s.Holds k a m v) (hr : s.RefillOk k) :
    s.current k a m = v := by
  cases h with
  | resident w hw hno hv _ =>
    rw [current, hr.directory.wayOf_eq hw]
    simp only [hno, if_false]
    exact hv
  | awaited w hw hwait hm =>
    rw [current, hr.directory.wayOf_eq hw]
    simp only [hwait, if_true]
    exact hm
  | displaced hev hs hload hv =>
    rw [current, wayOf_eq_none (hr.evicted a hev)]
    simp only [hev, hs, if_true]
    rw [displacedAt_of_waiting hs hload, ← hev.2.1]
    exact hv
  | buffered hev hwhere hv =>
    rw [current, wayOf_eq_none (hr.evicted a hev)]
    simp only [hev, if_true]
    rcases hwhere with ⟨hs, hload⟩ | ⟨hs, hk⟩
    · rw [if_pos hs, displacedAt_of_buffered fun _ => hload]
      exact hv
    · rw [hs, if_neg (by simp), if_neg (by omega)]
      exact hv
  | memory hno hdone hm =>
    rw [current, wayOf_eq_none hno]
    dsimp only
    by_cases hev : s.Evicted a
    · obtain ⟨hs, hk⟩ := hdone hev
      rw [if_pos hev, hs, if_neg (by simp), if_pos hk]
      exact hm
    · rw [if_neg hev]
      exact hm

/-- A word of no dirty line that is not on its way out has its value in memory. -/
theorem Cache.Holds.memory_eq {v : BitVec 64} (h : s.Holds k a m v)
    (hclean : ∀ w, s.Resident w a → (s.metadata a.index w).dirty = false)
    (hin : ¬s.Evicted a) : m = v := by
  cases h with
  | resident w hw _ _ hm => exact hm (hclean w hw)
  | awaited _ _ _ hm => exact hm
  | displaced hev => exact absurd hev hin
  | buffered hev => exact absurd hev hin
  | memory _ _ hm => exact hm

end Memory

/-! ## Runs -/

section Run

variable {s : ℕ → SimTop} {i : ℕ → SimTopIn} {x : ℕ → Isa.State} {op : ℕ → Op}
  {dev : ℕ → BitVec 64}

/-- The current value of a word of the system. -/
def SimTop.current (s : SimTop) (a : ReqAddr 8) : BitVec 64 :=
  Cache.current s.top.dcache (s.grantBeat 0) a (s.ram.word a.word)

/-- The registers and the memory of the program.  In every cycle of a run from a memory that
holds a program, under any pins and any latency of memory, the registers shown with the reports
are those after the `n` instructions reported, and the current value of every cached word is
the one after `m` instructions, one more at most.  A word of no dirty line that is not on its
way out of the data cache has this value in memory. -/
theorem SimTop.IsRun.arch_state (h : SimTop.IsRun s i)
    (hx : Isa.Executes (s 0).ram.word x op dev) (t : ℕ) (hdev : DevicesReturn s i dev (t + 1)) :
    ∃ n m, commitsBefore s (t + 1) = ((List.range n).map fun k => (x k).commit (op k) dev) ∧
      (∀ ra, ra ≠ 0 → (s t).top.core.difftestArchIntRegState ra = (x n).regs ra) ∧
      n ≤ m ∧ m ≤ n + 1 ∧
      ∀ a : ReqAddr 8, a.IsCached →
        (s t).current a = Bytes.words (x m).mem a.word ∧
        ((∀ w, Cache.Resident (s t).top.dcache w a →
            ((s t).top.dcache.metadata a.index w).dirty = false) →
          ¬Cache.Evicted (s t).top.dcache a →
          (s t).ram.word a.word = Bytes.words (x m).mem a.word) := by
  have hsim := (h.simulates hx t fun u hu => hdev u (by omega)).1
  have hspan := hsim.core.follows.dataM1
  refine ⟨(places s i t).dataM1, (places s i t).em, h.commitsBefore_eq hx (t + 1) hdev,
    fun ra hra => ?_, ?_, ?_, fun a ha => ?_⟩
  · rw [Core.difftestArchIntRegState_eq _ hra]
    exact hsim.core.valueW hx (h.orderly t) ra
  · rcases hspan with ⟨_, hem⟩ | ⟨_, hem⟩ <;> omega
  · rcases hspan with ⟨_, hem⟩ | ⟨_, hem⟩ <;> omega
  · have hword := hsim.data.coherent.words a ha
    exact ⟨hword.current_eq hsim.data.coherent.refill, hword.memory_eq⟩

end Run

/-! ## An example run -/

/-- `auipc x1, 0`, `sw x1, 1024(x1)`, and a jump to itself. -/
def storeThenLoop : List (BitVec 32) := [0x00000097#32, 0x4010a023#32, 0x0000006f#32]

/-- The operations of `storeThenLoop` in the order they are executed. -/
def storeThenLoopOp : ℕ → Op
  | 0 => .auipc
  | 1 => .sw
  | _ + 2 => .jal

/-- The states of `storeThenLoop`. -/
def storeThenLoopState : ℕ → Isa.State
  | 0 => .initial (programWord storeThenLoop)
  | n + 1 => (storeThenLoopState n).exec (storeThenLoopOp n) fun _ => 0

theorem storeThenLoop_loops : Isa.Loops storeThenLoopState storeThenLoopOp (fun _ => 0) 2 :=
  ⟨fun _ => rfl, fun _ => rfl, by decide +kernel⟩

theorem storeThenLoop_executes :
    Isa.Executes (SimTop.boot storeThenLoop .low 0).ram.word storeThenLoopState storeThenLoopOp
      fun _ => 0 :=
  storeThenLoop_loops.executes rfl (by decide +kernel) (by decide +kernel)

theorem storeThenLoop_arch_state :
    ∃ n m, SimTop.commitsBefore (SimTop.boot storeThenLoop .low) 25 =
        ((List.range n).map fun k =>
          (storeThenLoopState k).commit (storeThenLoopOp k) fun _ => 0) ∧
      (∀ ra, ra ≠ 0 → (SimTop.boot storeThenLoop .low 24).top.core.difftestArchIntRegState ra =
        (storeThenLoopState n).regs ra) ∧
      n ≤ m ∧ m ≤ n + 1 ∧
      ∀ a : ReqAddr 8, a.IsCached →
        (SimTop.boot storeThenLoop .low 24).current a =
          Bytes.words (storeThenLoopState m).mem a.word ∧
        ((∀ w, Cache.Resident (SimTop.boot storeThenLoop .low 24).top.dcache w a →
            ((SimTop.boot storeThenLoop .low 24).top.dcache.metadata a.index w).dirty = false) →
          ¬Cache.Evicted (SimTop.boot storeThenLoop .low 24).top.dcache a →
          (SimTop.boot storeThenLoop .low 24).ram.word a.word =
            Bytes.words (storeThenLoopState m).mem a.word) :=
  (SimTop.boot_isRun storeThenLoop .low).arch_state storeThenLoop_executes 24 (by decide +kernel)

end RiscvCpu
