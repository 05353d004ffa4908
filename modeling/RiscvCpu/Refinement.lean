import RiscvCpu.Masked
import RiscvCpu.ProgramData

/-!
# The pipeline refines the instruction set

Write-back reports every instruction that leaves it.  In a run of a program the reports
are those of the program executed one instruction at a time, in its order and without a
gap, whatever the caches, the predictor and the latency of memory do.

`SimTop.Simulates` is the invariant: the records are the next instructions of the program,
`Places` tells which, and the caches and memory together are its memory.
-/

namespace RiscvCpu

/-- What `DifftestInstrCommit` reports of the record in write-back. -/
def Core.difftestInstrCommit (c : Core) : Option Isa.Commit :=
  if c.mw.pcAndInstr.rawInstr = 0 then none
  else
    some
      { pc := c.mw.pcAndInstr.pcO
        instr := c.mw.pcAndInstr.rawInstr
        written :=
          if c.dataW.regwriteEn then some (c.dataW.writereg, c.dataW.writeData) else none }

/-- The words a program executes. -/
def Isa.Code (x : ℕ → Isa.State) (pc : BitVec 64) (w : BitVec 32) : Prop :=
  ∃ n, (x n).pc = pc ∧ (x n).instr = w

/-- The system is in the middle of the program. -/
structure SimTop.Simulates (s : SimTop) (x : ℕ → Isa.State) (op : ℕ → Op) (dev : ℕ → BitVec 64)
    (g : Places) : Prop where
  core : s.top.core.Runs x op dev g
  grant : s.top.GrantOk s.ram.beat
  code : s.CodeOk (Isa.Code x)
  ram : s.ram.HasCode (Isa.Code x)
  data : s.DataOk (Bytes.words (x g.em).mem)
  loaded : s.LoadedM1 x op dev g

section Refinement

variable {word : BitVec 61 → BitVec 64} {x : ℕ → Isa.State} {op : ℕ → Op} {dev : ℕ → BitVec 64}

/-! ## Code -/

theorem Isa.Executes.code_range (hx : Isa.Executes word x op dev) {pc : BitVec 64} {w : BitVec 32}
    (h : Isa.Code x pc w) : isCached pc = true ∧ pc.toNat < 0x100000000 := by
  obtain ⟨n, rfl, _⟩ := h
  obtain ⟨hlo, hhi⟩ := (hx.fits n).pcRange
  exact ⟨isCached_of_range hlo hhi, hhi⟩

/-- The code is in memory at all times. -/
theorem Isa.Executes.halfAt_words (hx : Isa.Executes word x op dev) (m : ℕ) {pc : BitVec 64}
    {w : BitVec 32} (h : Isa.Code x pc w) : halfAt (Bytes.words (x m).mem (wordOf pc)) pc = w := by
  obtain ⟨n, rfl, rfl⟩ := h
  rw [(x m).halfAt_words (hx.fits n).pcAligned]
  exact hx.code m n

/-! ## One cycle -/

section Cycle

variable {s : SimTop} {i : SimTopIn} {g : Places}

/-- A program redirects nothing by an exception, and it is not interrupted. -/
theorem SimTop.Simulates.proceeds (h : s.Simulates x op dev g) (hx : Isa.Executes word x op dev)
    (hm : s.top.core.Masked) (ho : s.top.core.Orderly (s.top.coreIn (s.topIn i)))
    (hs : s.top.core.Spaced (s.top.coreIn (s.topIn i)).iresp.dataOk) (hr : i.reset = false) :
    s.Proceeds i where
  orderly := ho
  grant := h.grant
  spaced := hs
  noReset := hr
  noFlush := (hm.csrFlush _).trans (h.core.csrFlush hx ho)

/-- One cycle of the system moves the program on. -/
theorem SimTop.Simulates.step (h : s.Simulates x op dev g) (hx : Isa.Executes word x op dev)
    (hp : s.Proceeds i) (hdev : s.ReadsDevice i → (s.oresp i).data = dev (x g.em).reads) :
    (s.step i).Simulates x op dev (g.step s.top.core (s.top.coreIn (s.topIn i))) := by
  have ha := answered hp.grant i hp.not_withdraws
  have hclean := h.code.clean.creq_isWrite (s.top.core.ireq i.pins)
  have hload := hp.step_loadedM1 h.core hx h.data hdev h.loaded
  refine ⟨?_, ?_, ?_, ?_, ?_, hload⟩
  · refine h.core.step hx hp.orderly hp.pipeReset (fun n hok hpc => ?_)
      (h.loaded.step_loadedW hp h.core hx)
    exact h.code.dataFRawInstr (fun pc w hC => (hx.code_range hC).1) hp.noFlush hok
      ⟨n, hpc.symm, rfl⟩
  · have hbeat : (s.step i).ram.beat = nextBeat s.ram.beat (s.oresp i) := by
      simp [SimTop.step, Ram.step, hp.noReset]
    rw [hbeat]
    exact hp.grant.step ha hp.noReset hp.not_withdraws
  · exact h.code.step hp.grant ha h.ram (fun pc w => hx.code_range) hp.noReset
  · refine h.data.step_hasCode hp.grant hp.noReset hclean (fun pc w hC => ?_) h.ram
    obtain ⟨hc, hlt⟩ := hx.code_range hC
    exact ⟨hc, hlt, hx.halfAt_words g.em hC⟩
  · rw [← h.data.dataNxt h.core hx hp]
    exact h.data.step hp.grant ha hp.noReset hp.pipeReset hclean (h.data.inRange h.core hx hp)
      hp.spaced

/-- Write-back reports the instruction that is in it. -/
theorem Core.Runs.difftestInstrCommit {c : Core} {j : CoreIn} (h : c.Runs x op dev g)
    (hx : Isa.Executes word x op dev) (ho : c.Orderly j) :
    c.difftestInstrCommit =
      if g.dataM1 = g.mw then none else some ((x g.mw).commit (op g.mw) dev) := by
  rcases h.follows.mw with ⟨h0, hg⟩ | ⟨his, hg⟩
  · rw [if_pos hg, Core.difftestInstrCommit, h0]
    rfl
  · have he := hx.encodes g.mw
    have hne : c.mw.pcAndInstr.rawInstr ≠ 0 := by
      rw [his.rawInstr]
      exact he.ne_zero
    obtain ⟨hen, hrd, _⟩ := Op.control_program he (hx.fits g.mw).noCsr (hx.fits g.mw).noSystem
    have hinstr : c.mw.instr = ((op g.mw).control (x g.mw).instr).instr := by
      rw [ho.decoded.mw.instr]
      exact (his.instr he (hx.fits g.mw)).2
    have hwen : c.dataW.regwriteEn = Isa.writesRd (op g.mw) := by
      change c.mw.instr.ctl.regwriteEn = _
      rw [hinstr, hen]
    rw [if_neg (by omega), Core.difftestInstrCommit, if_neg hne, hwen, his.pcO, his.rawInstr,
      Isa.State.commit]
    cases hw : Isa.writesRd (op g.mw) with
    | false => rfl
    | true =>
      have hreg : c.dataW.writereg = writeregOf (x g.mw).instr := by
        change c.mw.instr.writereg = _
        rw [hinstr, hrd hw]
      rw [hreg, h.follows.writeData hx ho.decoded h.regfile ho.computes h.loaded
        (his.ne_zero he) hw]

/-- After a reset the program starts. -/
theorem SimTop.simulates_of_reset (s : SimTop) (hr : i.reset = true)
    (hx : Isa.Executes (s.step i).ram.word x op dev) :
    (s.step i).Simulates x op dev ⟨0, 0, 0, 0, 0, 0⟩ := by
  have hreset : s.top.core.pipeReset (s.top.coreIn (s.topIn i)) = true :=
    Core.pipeReset_of_reset hr
  obtain ⟨hfd, hde, hem, hmem, hmw⟩ := Core.step_pipeReset hreset
  have hstart : (x 0).pc = pcInit ∧ (x 0).regs = (fun _ => 0) ∧
      Bytes.words (x 0).mem = (s.step i).ram.word := by
    rw [hx.start]
    exact ⟨rfl, rfl, Bytes.words_ofWords _⟩
  have hpc : (s.step i).top.core.fetch.pc = pcInit := if_pos hr
  have hregs : (s.step i).top.core.regfile = fun _ => 0 := by
    funext ra
    exact if_pos hr
  refine ⟨⟨⟨?_, ?_, ?_, ?_, ?_, fun _ => ?_, fun hne => absurd hfd hne⟩, ?_, ?_, ?_, ?_⟩, ?_, ?_,
    ?_, ?_, ?_⟩
  · exact .inl ⟨congrArg MemoryData.pcAndInstr hmw, rfl⟩
  · exact .inl ⟨congrArg (fun m => m.dataM1.pcAndInstr) hmem, rfl⟩
  · exact .inl ⟨congrArg ExecuteData.pcAndInstr hem, rfl⟩
  · exact .inl ⟨congrArg DecodeData.pcAndInstr hde, rfl⟩
  · exact .inl ⟨hfd, rfl⟩
  · exact hpc.trans hstart.1.symm
  · exact hregs.trans hstart.2.1.symm
  · exact fun hne => absurd (congrArg MemoryData.pcAndInstr hmw) hne
  · exact congrArg (fun m => m.dataM1.csrCtl) hmem
  · exact congrArg MemoryData.csrCtl hmw
  · have hbeat : (s.step i).ram.beat = 0 := by
      simp [SimTop.step, Ram.step, hr]
    rw [hbeat]
    exact s.top.grantOk_of_reset hr
  · exact s.codeOk_of_reset hr
  · intro pc w hC
    rw [← hstart.2.2]
    exact hx.halfAt_words 0 hC
  · rw [hstart.2.2]
    exact s.dataOk_of_reset hr
  · exact fun hne => absurd (congrArg (fun m => m.dataM1.pcAndInstr) hmem) hne

end Cycle

/-! ## Runs -/

section Run

variable {s : ℕ → SimTop} {i : ℕ → SimTopIn}

/-- The places in a cycle of a run.  After the reset all are at the first instruction. -/
def SimTop.places (s : ℕ → SimTop) (i : ℕ → SimTopIn) : ℕ → Places
  | 0 => ⟨0, 0, 0, 0, 0, 0⟩
  | t + 1 => (places s i t).step (s t).top.core ((s t).top.coreIn ((s t).topIn (i t)))

/-- The reports of write-back before cycle `t`, in order. -/
def SimTop.commitsBefore (s : ℕ → SimTop) (t : ℕ) : List Isa.Commit :=
  (List.range t).filterMap fun u => (s u).top.core.difftestInstrCommit

/-- How many words have been read from devices before cycle `t`. -/
def SimTop.deviceReads (s : ℕ → SimTop) (i : ℕ → SimTopIn) (t : ℕ) : ℕ :=
  Nat.count (fun u => (s u).ReadsDevice (i u)) t

/-- The words that are read from devices before cycle `t` are those of `dev`, in order. -/
def SimTop.DevicesReturn (s : ℕ → SimTop) (i : ℕ → SimTopIn) (dev : ℕ → BitVec 64) (t : ℕ) :
    Prop :=
  ∀ u < t, (s u).ReadsDevice (i u) → ((s u).oresp (i u)).data = dev (deviceReads s i u)

instance (t : ℕ) : Decidable (SimTop.DevicesReturn s i dev t) :=
  inferInstanceAs (Decidable (∀ u < t, _ → _))

/-- The words the bus has returned are such a sequence. -/
theorem SimTop.exists_devicesReturn (s : ℕ → SimTop) (i : ℕ → SimTopIn) :
    ∃ dev, ∀ t, DevicesReturn s i dev t := by
  let read := fun u => (s u).ReadsDevice (i u)
  refine ⟨fun k => ((s (Nat.nth read k)).oresp (i (Nat.nth read k))).data, fun t u _ hread => ?_⟩
  have hnth : Nat.nth read (deviceReads s i u) = u := Nat.nth_count hread
  change _ = ((s (Nat.nth read (deviceReads s i u))).oresp (i (Nat.nth read _))).data
  rw [hnth]

theorem SimTop.IsRun.orderly (h : SimTop.IsRun s i) (t : ℕ) :
    (s t).top.core.Orderly ((s t).top.coreIn ((s t).topIn (i t))) where
  decoded := h.top.core.decoded t
  lossless := h.top.lossless t
  regfile_zero := h.top.core.regfile_zero t
  inOrder :=
    (h.top.core.inOrder h.top.mute (h.top.core.queued h.top.mute h.top.dataOk_rests) t).1
  computes := h.top.computes t

/-- The system is in the middle of the program in every cycle, whatever the pins show. -/
theorem SimTop.IsRun.simulates (h : SimTop.IsRun s i)
    (hx : Isa.Executes (s 0).ram.word x op dev) (t : ℕ) (hdev : DevicesReturn s i dev t) :
    (s t).Simulates x op dev (places s i t) ∧ (s t).Proceeds (i t) ∧
      (s t).top.core.Masked ∧ deviceReads s i t = (x (places s i t).em).reads := by
  induction t with
  | zero =>
    obtain ⟨y, j, hj, hs⟩ := h.start
    have hsim : (s 0).Simulates x op dev (places s i 0) := by
      rw [hs] at hx ⊢
      exact y.simulates_of_reset hj hx
    have hm : (s 0).top.core.Masked := by
      rw [hs]
      exact Core.masked_of_reset hj
    refine ⟨hsim, hsim.proceeds hx hm (h.orderly 0) ?_ ?_, hm, ?_⟩
    · rw [hs]
      exact Core.spaced_of_pipeReset (Core.pipeReset_of_reset hj) _
    · exact Bool.eq_false_iff.mpr (h.noReset 0)
    · rw [deviceReads, Nat.count_zero, places, hx.start]
      rfl
  | succ t ih =>
    obtain ⟨hsim, hp, hm, hreads⟩ := ih fun u hu => hdev u (by omega)
    have hsim' : (s (t + 1)).Simulates x op dev (places s i (t + 1)) := by
      rw [h.next t]
      exact hsim.step hx hp fun hread => by
        rw [← hreads]
        exact hdev t (Nat.lt_succ_self t) hread
    have hm' : (s (t + 1)).top.core.Masked := by
      rw [h.next t]
      exact hm.step hp.pipeReset
    refine ⟨hsim', hsim'.proceeds hx hm' (h.orderly (t + 1)) ?_ ?_, hm', ?_⟩
    · rw [h.next t]
      exact hp.spaced.step hp.orderly.decoded
        (hp.grant.gap (i := (s t).topIn (i t)) hp.noReset hp.noFlush _)
    · exact Bool.eq_false_iff.mpr (h.noReset (t + 1))
    · rw [deviceReads, Nat.count_succ, places, hp.reads hsim.core hx, ← hreads]
      rfl

/-- The reports before a cycle are those of the instructions in front of write-back. -/
theorem SimTop.IsRun.commitsBefore_eq (h : SimTop.IsRun s i)
    (hx : Isa.Executes (s 0).ram.word x op dev) (t : ℕ) (hdev : DevicesReturn s i dev t) :
    commitsBefore s t =
      (List.range (places s i t).mw).map fun n => (x n).commit (op n) dev := by
  induction t with
  | zero => rfl
  | succ t ih =>
    have hdev' : DevicesReturn s i dev t := fun u hu => hdev u (by omega)
    have hsim := (h.simulates hx t hdev').1
    have hmw : (places s i (t + 1)).mw = (places s i t).dataM1 := rfl
    have hlast : commitsBefore s (t + 1) =
        commitsBefore s t ++ (s t).top.core.difftestInstrCommit.toList := by
      rw [commitsBefore, List.range_succ, List.filterMap_append]
      cases hc : (s t).top.core.difftestInstrCommit <;> simp [commitsBefore, hc]
    rw [hlast, ih hdev', hmw, hsim.core.difftestInstrCommit hx (h.orderly t)]
    rcases hsim.core.follows.mw with ⟨_, hg⟩ | ⟨_, hg⟩
    · rw [if_pos hg, hg]
      exact List.append_nil _
    · rw [if_neg (by omega), hg, List.range_succ, List.map_append]
      rfl

/-- The pipeline refines the instruction set.  In a run with the interrupt pins low, from a
memory that holds a program, the reports of write-back are a prefix of the commits of the
program executed one instruction at a time from `pcInit`, where loads from devices
return what the bus has returned for them. -/
theorem SimTop.IsRun.refines_isa (h : SimTop.IsRun s i) (_hpins : ∀ t, (i t).pins = .low)
    (hx : Isa.Executes (s 0).ram.word x op dev) (t : ℕ) (hdev : DevicesReturn s i dev t) :
    ∃ n, commitsBefore s t = (List.range n).map fun k => (x k).commit (op k) dev :=
  ⟨_, h.commitsBefore_eq hx t hdev⟩

/-- The interrupt pins do not touch a program.  In a run under any pins, from a memory that
holds a program of instructions other than the CSR instructions, `ecall` and `mret`, the
reports of write-back are a prefix of the commits of the program. -/
theorem SimTop.IsRun.refines_isa_any_pins (h : SimTop.IsRun s i)
    (hx : Isa.Executes (s 0).ram.word x op dev) (t : ℕ) (hdev : DevicesReturn s i dev t) :
    ∃ n, commitsBefore s t = (List.range n).map fun k => (x k).commit (op k) dev :=
  ⟨_, h.commitsBefore_eq hx t hdev⟩

end Run

end Refinement

/-! ## An example run -/

/-- `addi x1, x0, 5`, and a jump to itself. -/
def addThenLoop : List (BitVec 32) := [0x00500093#32, 0x0000006f#32]

/-- The operations of `addThenLoop` in the order they are executed. -/
def addThenLoopOp : ℕ → Op
  | 0 => .addi
  | _ + 1 => .jal

/-- The states of `addThenLoop`. -/
def addThenLoopState : ℕ → Isa.State
  | 0 => .initial (programWord addThenLoop)
  | n + 1 => (addThenLoopState n).exec (addThenLoopOp n) fun _ => 0

theorem addThenLoop_loops : Isa.Loops addThenLoopState addThenLoopOp (fun _ => 0) 1 :=
  ⟨fun _ => rfl, fun _ => rfl, by decide +kernel⟩

theorem addThenLoop_executes :
    Isa.Executes (SimTop.boot addThenLoop .low 0).ram.word addThenLoopState addThenLoopOp
      fun _ => 0 :=
  addThenLoop_loops.executes rfl (by decide +kernel) (by decide +kernel)

theorem addThenLoop_refines_isa :
    ∃ n, SimTop.commitsBefore (SimTop.boot addThenLoop .low) 15 =
      (List.range n).map fun k => (addThenLoopState k).commit (addThenLoopOp k) fun _ => 0 :=
  (SimTop.boot_isRun addThenLoop .low).refines_isa (fun _ => rfl) addThenLoop_executes 15
    (by decide +kernel)

/-- The words of `addThenLoop` do not depend on the pins. -/
theorem addThenLoop_interrupted :
    ∃ n, SimTop.commitsBefore (SimTop.boot addThenLoop ⟨true, true, true⟩) 15 =
      (List.range n).map fun k => (addThenLoopState k).commit (addThenLoopOp k) fun _ => 0 :=
  (SimTop.boot_isRun addThenLoop ⟨true, true, true⟩).refines_isa_any_pins
    addThenLoop_executes 15 (by decide +kernel)

end RiscvCpu
