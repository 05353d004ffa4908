import RiscvCpu.Coherence.Data
import RiscvCpu.ProgramOrder

/-!
# The pipeline against the instruction set: memory

The data cache and memory together hold the memory of the program as it is before the
instruction in `em`.  An access that leaves `em` changes it as the instruction set says,
and the word of a load is the one the program finds there, or the next one that a device
returns.
-/

namespace RiscvCpu

/-! ## Words of the program's memory -/

section Words

variable (x : Isa.State) (op : Op) (dev : ℕ → BitVec 64)

/-- The word the bus has for an access. -/
def Isa.State.busWord : BitVec 64 :=
  if isCached (x.addr op) then Bytes.words x.mem (wordOf (x.addr op)) else dev x.reads

variable {x op dev} {msize : Msize}

/-- A load takes its bytes from the word on the bus. -/
theorem Isa.State.readdata_busWord (h : msize.Aligned ((x.addr op).extractLsb' 0 3)) (u : Bool) :
    (readdata (x.busWord op dev) ((x.addr op).extractLsb' 0 3) msize u).rd =
      x.loaded op dev msize u := by
  rw [readdata_eq_loadValue h, busWord, loaded]
  split
  · have hend := h.end_le
    rw [loadValue, loadValue, Bytes.word_congr fun k hk => ?_]
    rw [Nat.zero_add]
    have hin : Bytes.offset (x.addr op) + k < 8 :=
      Nat.lt_of_lt_of_le (Nat.add_lt_add_left hk _) hend
    exact Bytes.byte_words_add hin
  · rfl

/-- A store merges its bytes into the word. -/
theorem Isa.State.words_store (h : msize.Aligned ((x.addr op).extractLsb' 0 3)) (v : BitVec 64) :
    let lanes := writedata ((x.addr op).extractLsb' 0 3) v msize
    Bytes.words (Bytes.store x.mem (x.addr op) msize.bytes (Bytes.byte v)) =
      Function.update (Bytes.words x.mem) (wordOf (x.addr op))
        (mergeBytes (Bytes.words x.mem (wordOf (x.addr op))) lanes.wd lanes.strobe) :=
  Bytes.words_store x.mem (Bytes.byte v) h.end_le fun _ hk => byte_store h _ v hk

/-- An aligned pc selects its half of the word. -/
theorem Isa.State.halfAt_words (x : Isa.State) {pc : BitVec 64} (h : pc.extractLsb' 0 2 = 0) :
    halfAt (Bytes.words x.mem (wordOf pc)) pc = x.wordAt pc := by
  have hlow : pc.toNat % 4 = 0 := by
    have := congrArg BitVec.toNat h
    simpa [BitVec.extractLsb'_toNat] using this
  have hoff : Bytes.offset pc = if pc.getLsbD 2 then 4 else 0 := by
    rw [Bytes.offset_eq, BitVec.getLsbD, Nat.testBit, Nat.shiftRight_eq_div_pow]
    have h8 : pc.toNat % 8 = pc.toNat % 4 + 4 * (pc.toNat / 4 % 2) := by omega
    rw [h8, hlow]
    rcases Nat.mod_two_eq_zero_or_one (pc.toNat / 4) with h2 | h2 <;> simp [h2]
  have hbytes : ∀ k < 4, Bytes.byte (Bytes.words x.mem (wordOf pc)) (Bytes.offset pc + k) =
      Bytes.bytesAt x.mem pc k := fun k hk =>
    Bytes.byte_words_add (by rw [hoff]; split <;> omega)
  rw [wordAt, ← Bytes.word_congr hbytes, hoff, halfAt]
  cases pc.getLsbD 2 with
  | true => exact Bytes.extract_eq_word _ 4 4
  | false => exact Bytes.extract_eq_word _ 0 4

/-- What reads a device is an uncached access. -/
theorem Isa.State.access_of_readsDevice (h : x.readsDevice op = true) :
    ∃ acc, Isa.access op = some acc ∧ isCached (x.addr op) = false := by
  rw [readsDevice] at h
  cases ha : Isa.access op with
  | none =>
    rw [ha] at h
    cases h
  | some acc =>
    cases acc with
    | load msize u =>
      rw [ha] at h
      exact ⟨_, rfl, by simpa using h⟩
    | store msize =>
      rw [ha] at h
      cases h

end Words

/-! ## Accesses -/

section Access

variable {word : BitVec 61 → BitVec 64} {x : ℕ → Isa.State} {op : ℕ → Op} {dev : ℕ → BitVec 64}
  {c : Core} {i : CoreIn} {g : Places} {dataOk : Bool}

/-- A record in `em` is a load or store exactly if its instruction makes an access. -/
theorem Core.Runs.em_isMem (h : c.Runs x op dev g) (hx : Isa.Executes word x op dev)
    (ho : c.Orderly i) (hne : c.em.pcAndInstr ≠ 0) :
    c.em.instr.ctl.isMem = (Isa.access (op g.em)).isSome := by
  obtain ⟨his, _⟩ := h.follows.em.is hne
  have hinstr := (his.instr (hx.encodes _) (hx.fits _)).2
  rw [ho.decoded.em.instr, hinstr, Control.isMem]
  cases ha : Isa.access (op g.em) with
  | none =>
    obtain ⟨hr, hw⟩ := Op.control_noAccess (w := (x g.em).instr) ha
    rw [hr, hw]
    rfl
  | some acc =>
    cases acc with
    | load msize u =>
      rw [Op.control_load ha]
      rfl
    | store msize =>
      rw [Op.control_store ha]
      rfl

/-- A load or store in `em` is an access of its instruction. -/
theorem Core.Runs.access (h : c.Runs x op dev g) (hx : Isa.Executes word x op dev)
    (ho : c.Orderly i) (hm : c.em.instr.ctl.isMem = true) :
    c.em.pcAndInstr ≠ 0 ∧ ∃ acc, Isa.access (op g.em) = some acc := by
  have hne : c.em.pcAndInstr ≠ 0 := by
    intro h0
    rw [ho.decoded.em.instr, h0, FetchData.instr_zero] at hm
    cases hm
  rw [h.em_isMem hx ho hne] at hm
  exact ⟨hne, Option.isSome_iff_exists.mp hm⟩

/-- The request of a load has no strobe. -/
theorem Core.Runs.load_strobe (h : c.Runs x op dev g) (hx : Isa.Executes word x op dev)
    (ho : c.Orderly i) (hne : c.em.pcAndInstr ≠ 0) {msize : Msize} {u : Bool}
    (ha : Isa.access (op g.em) = some (.load msize u)) :
    (c.em.dataMtmp.dreq true).strobe = 0 := by
  obtain ⟨his, _⟩ := h.follows.em.is hne
  have hno : c.em.dataMtmp.instr.ctl.memwEn = false := by
    change c.em.instr.ctl.memwEn = false
    rw [ho.decoded.em.instr, (his.instr (hx.encodes _) (hx.fits _)).2, Op.control_load ha]
    rfl
  rw [MemoryData.dreq, hno]
  rfl

/-- The request of a store has the lanes of its value. -/
theorem Core.Runs.store_lanes (h : c.Runs x op dev g) (hx : Isa.Executes word x op dev)
    (ho : c.Orderly i) (hne : c.em.pcAndInstr ≠ 0) {msize : Msize}
    (ha : Isa.access (op g.em) = some (.store msize)) :
    let lanes := writedata (((x g.em).addr (op g.em)).extractLsb' 0 3) (x g.em).rs2 msize
    (c.em.dataMtmp.dreq true).data = lanes.wd ∧
      (c.em.dataMtmp.dreq true).strobe = lanes.strobe := by
  obtain ⟨his, _⟩ := h.follows.em.is hne
  obtain ⟨haddr, hdata⟩ := h.em_access hx ho hne ha
  have hinstr : c.em.instr = ((op g.em).control (x g.em).instr).instr := by
    rw [ho.decoded.em.instr]
    exact (his.instr (hx.encodes _) (hx.fits _)).2
  have hsize : c.em.instr.ctl.msize = msize ∧ c.em.instr.ctl.memwEn = true := by
    rw [hinstr, Op.control_store ha]
    exact ⟨rfl, rfl⟩
  have hen : c.em.dataMtmp.instr.ctl.memwEn = true := hsize.2
  rw [MemoryData.dreq, hen, if_pos rfl, ← haddr, ← hdata msize rfl, ← hsize.1]
  exact ⟨rfl, rfl⟩

/-- A cached access changes the words of memory as its instruction does. -/
theorem Core.Runs.storeWord (h : c.Runs x op dev g) (hx : Isa.Executes word x op dev)
    (ho : c.Orderly i) (hne : c.em.pcAndInstr ≠ 0) {acc : Isa.Access}
    (ha : Isa.access (op g.em) = some acc) (hc : isCached ((x g.em).addr (op g.em)) = true) :
    RiscvCpu.storeWord (Bytes.words (x g.em).mem) (c.em.dataMtmp.dreq true) =
      Bytes.words ((x g.em).memNxt (op g.em)) := by
  have haddr : (c.em.dataMtmp.dreq true).addr = (x g.em).addr (op g.em) :=
    (h.em_access hx ho hne ha).1
  rw [RiscvCpu.storeWord, haddr, Isa.State.memNxt, ha]
  cases acc with
  | load msize u =>
    rw [h.load_strobe hx ho hne ha, mergeBytes_none, Function.update_eq_self]
  | store msize =>
    obtain ⟨hdata, hstrobe⟩ := h.store_lanes hx ho hne ha
    rw [hdata, hstrobe]
    simp only [hc, if_true]
    exact (Isa.State.words_store ((hx.fits g.em).access _ ha) _).symm

end Access

/-! ## One cycle -/

/-- What is known of the system and its inputs in a cycle of a run. -/
structure SimTop.Proceeds (s : SimTop) (i : SimTopIn) : Prop where
  orderly : s.top.core.Orderly (s.top.coreIn (s.topIn i))
  grant : s.top.GrantOk s.ram.beat
  spaced : s.top.core.Spaced (s.top.coreIn (s.topIn i)).iresp.dataOk
  noReset : i.reset = false
  /-- The CSR unit redirects nothing. -/
  noFlush : s.top.core.csrFlush i.pins = false

/-- A word is read from a device. -/
def SimTop.ReadsDevice (s : SimTop) (i : SimTopIn) : Prop :=
  s.top.SingleBeat (s.topIn i) ∧ (s.oreq i).isWrite = false

instance (s : SimTop) (i : SimTopIn) : Decidable (s.ReadsDevice i) :=
  inferInstanceAs (Decidable ((_ ∧ _) ∧ _))

section Cycle

variable {word : BitVec 61 → BitVec 64} {x : ℕ → Isa.State} {op : ℕ → Op} {dev : ℕ → BitVec 64}
  {s : SimTop} {i : SimTopIn} {g : Places}

/-- The word is that of the device. -/
theorem SimTop.ReadsDevice.oresp_data (h : s.ReadsDevice i) (hg : s.top.GrantOk s.ram.beat)
    (hw : ¬s.top.Withdraws i.pins) : (s.oresp i).data = i.ram.device := by
  have hacc := hg.accessGranted_of_beat hw h.1
  obtain ⟨hb, hj, _, hready⟩ := h.1
  have hun : isCached (s.oreq i).addr = false := by
    rw [oreq, hacc.oreq hb hj]
    exact hacc.uncached
  change (s.ram.resp (s.oreq i) i.ram).data = _
  change (s.ram.resp (s.oreq i) i.ram).ready = true at hready
  rw [Ram.resp] at hready ⊢
  split at hready
  · rename_i hc
    rw [if_pos hc, hun]
    rfl
  · cases hready

theorem SimTop.Proceeds.pipeReset (hp : s.Proceeds i) :
    s.top.core.pipeReset (s.top.coreIn (s.topIn i)) = false := by
  rw [Core.pipeReset, Bool.or_eq_false_iff]
  exact ⟨hp.noReset, hp.noFlush⟩

theorem SimTop.Proceeds.not_withdraws (hp : s.Proceeds i) : ¬s.top.Withdraws i.pins :=
  fun hw => Bool.false_ne_true (hp.noFlush.symm.trans hw.1)

/-- A request that is not accepted does not hit. -/
theorem SimTop.Proceeds.stall_no_hit (hp : s.Proceeds i)
    (hst : s.top.core.stallDataOk (s.top.coreIn (s.topIn i)) = true) :
    Cache.fsmToHit s.top.dcache (s.top.core.dreq i.pins) = false := by
  by_contra hh
  have hok : (s.top.coreIn (s.topIn i)).dresp.addrOk = true :=
    (DCache.accepted_of_fsmToHit hp.grant.lines (Bool.not_eq_false _ ▸ hh) _).2.2
  rw [Core.stallDataOk_eq hp.pipeReset] at hst
  cases hstate : s.top.core.memory.state with
  | idle =>
    rw [Memory.stallDataOk_idle hstate, hok, Bool.not_true, Bool.and_false] at hst
    cases hst
  | memory01 =>
    rw [Memory.stallDataOk_memory01 hstate] at hst
    cases hst
  | memory10 =>
    rw [Memory.stallDataOk_memory10 hstate, hok] at hst
    cases hst
  | memory11 => exact hp.spaced.single hstate

/-- What hits is driven once more, or is a cached access that leaves `em`. -/
theorem SimTop.Proceeds.hit_cases (hp : s.Proceeds i)
    (hh : Cache.fsmToHit s.top.dcache (s.top.core.dreq i.pins) = true) :
    s.top.core.memory.drivesM1 = true ∧
        s.top.core.dreq i.pins = s.top.core.memory.dataM1.dreq true ∨
      s.top.core.Leaves (s.top.coreIn (s.topIn i)) ∧ s.top.core.em.instr.ctl.isMem = true ∧
        isCached s.top.core.em.aluout = true := by
  cases hd : s.top.core.memory.drivesM1 with
  | true => exact .inl ⟨rfl, by rw [Core.dreq, Memory.dreq, if_pos hd]⟩
  | false =>
    have hgo : s.top.core.stallDataOk (s.top.coreIn (s.topIn i)) = false := by
      by_contra hst
      rw [hp.stall_no_hit (Bool.not_eq_false _ ▸ hst)] at hh
      cases hh
    have hv := (DCache.accepted_of_fsmToHit hp.grant.lines hh 0).2.1
    rw [Core.dreq, Memory.dreq, hd, if_neg Bool.false_ne_true] at hv
    have hm : s.top.core.em.instr.ctl.isMem = true := by
      simp only [MemoryData.dreq, Bool.and_eq_true] at hv
      exact hv.1
    have hl : s.top.core.Leaves (s.top.coreIn (s.topIn i)) := ⟨hp.pipeReset, hgo⟩
    exact .inr ⟨hl, hm, (request_of_leaves hp.grant.lines hp.spaced hl hm).2.symm.trans hh⟩

/-- Requests that hit are in range. -/
theorem SimTop.DataOk.inRange {val : BitVec 61 → BitVec 64} (h : s.DataOk val)
    (hc : s.top.core.Runs x op dev g) (hx : Isa.Executes word x op dev) (hp : s.Proceeds i) :
    s.DataInRange i := by
  intro hh
  rcases hp.hit_cases hh with ⟨hd, hdreq⟩ | ⟨hl, hm, hcached⟩
  · rw [hdreq]
    exact (h.again hd).1
  · obtain ⟨hne, acc, ha⟩ := hc.access hx hp.orderly hm
    have haddr := (hc.em_access hx hp.orderly hne ha).1
    rw [(request_of_leaves hp.grant.lines hp.spaced hl hm).1]
    change s.top.core.em.aluout.toNat < _
    rw [haddr] at hcached ⊢
    have := (hx.fits g.em).data acc ha hcached
    omega

/-- An access that leaves `em` changes the values as its instruction does. -/
theorem SimTop.Proceeds.dataNxt_access (hp : s.Proceeds i) (hc : s.top.core.Runs x op dev g)
    (hx : Isa.Executes word x op dev) (hl : s.top.core.Leaves (s.top.coreIn (s.topIn i)))
    (hm : s.top.core.em.instr.ctl.isMem = true) :
    s.dataNxt i (Bytes.words (x g.em).mem) = Bytes.words ((x g.em).memNxt (op g.em)) := by
  obtain ⟨hne, acc, ha⟩ := hc.access hx hp.orderly hm
  obtain ⟨hdreq, hh⟩ := request_of_leaves hp.grant.lines hp.spaced hl hm
  rw [dataNxt, hh, hdreq, (hc.em_access hx hp.orderly hne ha).1]
  cases hcached : isCached ((x g.em).addr (op g.em)) with
  | true => exact hc.storeWord hx hp.orderly hne ha hcached
  | false =>
    rw [if_neg Bool.false_ne_true, Isa.State.memNxt, ha]
    cases acc with
    | load msize u => rfl
    | store msize => simp only [hcached, Bool.false_eq_true, if_false]

/-- Without an access the values stay, also if a request is driven once more. -/
theorem SimTop.DataOk.dataNxt_keep {val : BitVec 61 → BitVec 64} (h : s.DataOk val)
    (hp : s.Proceeds i) (hm : s.top.core.em.instr.ctl.isMem = false) : s.dataNxt i val = val := by
  rw [SimTop.dataNxt]
  split
  · rename_i hh
    rcases hp.hit_cases hh with ⟨hd, hdreq⟩ | ⟨_, hm', _⟩
    · rw [hdreq]
      exact (h.again hd).2
    · rw [hm] at hm'
      cases hm'
  · rfl

/-- The values go on as the memory of the program does. -/
theorem SimTop.DataOk.dataNxt (h : s.DataOk (Bytes.words (x g.em).mem))
    (hc : s.top.core.Runs x op dev g) (hx : Isa.Executes word x op dev) (hp : s.Proceeds i) :
    s.dataNxt i (Bytes.words (x g.em).mem) =
      Bytes.words (x (g.step s.top.core (s.top.coreIn (s.topIn i))).em).mem := by
  rw [Places.step_em]
  cases hst : s.top.core.stallDataOk (s.top.coreIn (s.topIn i)) with
  | true => rw [SimTop.dataNxt, hp.stall_no_hit hst, if_neg Bool.false_ne_true, if_pos rfl]
  | false =>
    rw [if_neg Bool.false_ne_true]
    cases hm : s.top.core.em.instr.ctl.isMem with
    | true =>
      have hne := (hc.access hx hp.orderly hm).1
      rw [hp.dataNxt_access hc hx ⟨hp.pipeReset, hst⟩ hm, (hc.follows.em.is hne).2, hx.next g.em]
      rfl
    | false =>
      rw [h.dataNxt_keep hp hm]
      -- an instruction that makes no access leaves memory alone
      rcases hc.follows.em with ⟨_, hde⟩ | ⟨his, hde⟩
      · rw [hde]
      · have hsome := hc.em_isMem hx hp.orderly (his.ne_zero (hx.encodes _))
        rw [hm] at hsome
        have hna : Isa.access (op g.em) = none := by simpa using hsome.symm
        rw [hde, hx.next g.em, Isa.State.exec_mem, Isa.State.memNxt, hna]

/-! ## Loads -/

/-- A single beat is that of the access in `em`. -/
theorem SimTop.Proceeds.accessGranted (hp : s.Proceeds i) (hbeat : s.top.SingleBeat (s.topIn i)) :
    s.top.AccessGranted s.top.mux.savedReq :=
  hp.grant.accessGranted_of_beat hp.not_withdraws hbeat

theorem SimTop.Proceeds.oreq_isWrite (hp : s.Proceeds i) (hbeat : s.top.SingleBeat (s.topIn i)) :
    (s.oreq i).isWrite = ((s.top.core.em.dataMtmp.dreq true).strobe != 0) :=
  congrArg CbusReq.isWrite ((hp.accessGranted hbeat).oreq hbeat.1 hbeat.2.1 i.pins)

/-- An uncached access that leaves `em` reads a device if it is a load. -/
theorem SimTop.Proceeds.readsDevice_access (hp : s.Proceeds i) (hc : s.top.core.Runs x op dev g)
    (hx : Isa.Executes word x op dev) (hbeat : s.top.SingleBeat (s.topIn i))
    (hne : s.top.core.em.pcAndInstr ≠ 0) {acc : Isa.Access} (ha : Isa.access (op g.em) = some acc)
    (hun : isCached ((x g.em).addr (op g.em)) = false) :
    (s.oreq i).isWrite = !(x g.em).readsDevice (op g.em) := by
  rw [hp.oreq_isWrite hbeat, Isa.State.readsDevice, ha]
  cases acc with
  | load msize u =>
    rw [hc.load_strobe hx hp.orderly hne ha]
    simp only [hun]
    rfl
  | store msize =>
    have hal : msize.Aligned _ := (hx.fits g.em).access _ ha
    rw [(hc.store_lanes hx hp.orderly hne ha).2, writedata_aligned hal]
    simpa using hal.strobe_ne_zero

/-- A word that is read from a device is that of a load of the program which leaves `em`. -/
theorem SimTop.Proceeds.readsDevice_iff (hp : s.Proceeds i) (hc : s.top.core.Runs x op dev g)
    (hx : Isa.Executes word x op dev) :
    s.ReadsDevice i ↔ s.top.core.Leaves (s.top.coreIn (s.topIn i)) ∧
      s.top.core.em.pcAndInstr ≠ 0 ∧ (x g.em).readsDevice (op g.em) = true := by
  have hiff := hp.grant.leaves_iff_beat (i := s.topIn i) hp.not_withdraws hp.spaced hp.noReset
  constructor
  · rintro ⟨hbeat, hread⟩
    obtain ⟨hl, hm, hun⟩ := hiff.mpr hbeat
    obtain ⟨hne, acc, ha⟩ := hc.access hx hp.orderly hm
    rw [(hc.em_access hx hp.orderly hne ha).1] at hun
    refine ⟨hl, hne, ?_⟩
    rw [hp.readsDevice_access hc hx hbeat hne ha hun] at hread
    simpa using hread
  · rintro ⟨hl, hne, hread⟩
    obtain ⟨acc, ha, hun⟩ := Isa.State.access_of_readsDevice hread
    have hm : s.top.core.em.instr.ctl.isMem = true := by
      rw [hc.em_isMem hx hp.orderly hne, ha]
      rfl
    have hbeat := hiff.mp ⟨hl, hm, by rwa [(hc.em_access hx hp.orderly hne ha).1]⟩
    refine ⟨hbeat, ?_⟩
    rw [hp.readsDevice_access hc hx hbeat hne ha hun, hread]
    rfl

/-- The devices have been read as often as the program has read them. -/
theorem SimTop.Proceeds.reads (hp : s.Proceeds i) (hc : s.top.core.Runs x op dev g)
    (hx : Isa.Executes word x op dev) :
    (x (g.step s.top.core (s.top.coreIn (s.topIn i))).em).reads =
      (x g.em).reads + if s.ReadsDevice i then 1 else 0 := by
  rw [Places.step_em]
  by_cases hread : s.ReadsDevice i
  · obtain ⟨hl, hne, hd⟩ := (hp.readsDevice_iff hc hx).mp hread
    rw [if_pos hread, hl.2, if_neg Bool.false_ne_true, (hc.follows.em.is hne).2, hx.next g.em,
      Isa.State.exec_reads, hd]
    rfl
  · rw [if_neg hread, Nat.add_zero]
    cases hst : s.top.core.stallDataOk (s.top.coreIn (s.topIn i)) with
    | true => rfl
    | false =>
      rw [if_neg Bool.false_ne_true]
      rcases hc.follows.em with ⟨_, hde⟩ | ⟨his, hde⟩
      · rw [hde]
      · have hd : (x g.em).readsDevice (op g.em) = false := by
          by_contra hd
          exact hread ((hp.readsDevice_iff hc hx).mpr
            ⟨⟨hp.pipeReset, hst⟩, his.ne_zero (hx.encodes _), Bool.not_eq_false _ ▸ hd⟩)
        rw [hde, hx.next g.em, Isa.State.exec_reads, hd]
        rfl

/-- A load in `dataM1` has its word: a cached one as it is answered, one from a device in the
record.  Behind it stands a bubble. -/
def SimTop.LoadedM1 (s : SimTop) (x : ℕ → Isa.State) (op : ℕ → Op) (dev : ℕ → BitVec 64)
    (g : Places) : Prop :=
  s.top.core.memory.dataM1.pcAndInstr ≠ 0 → ∀ msize u,
    Isa.access (op g.dataM1) = some (.load msize u) →
      s.top.core.em = 0 ∧
        (s.top.core.memory.state = .idle ∧
            s.top.core.memory.dataM1.memrData = (x g.dataM1).busWord (op g.dataM1) dev ∨
          s.top.core.memory.state = .memory01 ∧
            s.top.dcache.hitRdata = (x g.dataM1).busWord (op g.dataM1) dev)

/-- A load that leaves `em` finds its word. -/
theorem SimTop.Proceeds.step_loadedM1 (hp : s.Proceeds i) (hc : s.top.core.Runs x op dev g)
    (hx : Isa.Executes word x op dev) (hd : s.DataOk (Bytes.words (x g.em).mem))
    (hdev : s.ReadsDevice i → (s.oresp i).data = dev (x g.em).reads)
    (hload : s.LoadedM1 x op dev g) :
    (s.step i).LoadedM1 x op dev (g.step s.top.core (s.top.coreIn (s.topIn i))) := by
  intro hne msize u ha
  have hpc := hp.orderly.lossless.step_dataM1_pcAndInstr hp.pipeReset
  have hne' : (s.top.core.step (s.top.coreIn (s.topIn i))).memory.dataM1.pcAndInstr ≠ 0 := hne
  rw [hpc] at hne'
  rw [Places.step_dataM1] at ha ⊢
  cases hst : s.top.core.stallDataOk (s.top.coreIn (s.topIn i)) with
  | true =>
    -- behind the load nothing waits
    rw [hst, if_pos rfl] at ha hne'
    have hm := hp.spaced.isMem_of_stall hp.pipeReset hst
    rw [(hload hne' msize u ha).1] at hm
    cases hm
  | false =>
    rw [hst, if_neg Bool.false_ne_true] at ha hne'
    rw [if_neg Bool.false_ne_true]
    have hl : s.top.core.Leaves (s.top.coreIn (s.topIn i)) := ⟨hp.pipeReset, hst⟩
    have hm : s.top.core.em.instr.ctl.isMem = true := by
      rw [hc.em_isMem hx hp.orderly hne', ha]
      rfl
    obtain ⟨hdreq, hh⟩ := request_of_leaves hp.grant.lines hp.spaced hl hm
    have haddr := (hc.em_access hx hp.orderly hne' ha).1
    cases hcached : isCached s.top.core.em.aluout with
    | true =>
      obtain ⟨hmem, hem⟩ := hp.spaced.step_cached hp.orderly.decoded hl hm hcached
      refine ⟨hem, .inr ⟨congrArg Memory.state hmem, ?_⟩⟩
      rw [hd.step_hitRdata (hd.inRange hc hx hp) (hh.trans hcached), hdreq,
        Isa.State.busWord, ← haddr, hcached]
      rfl
    | false =>
      have hread : s.ReadsDevice i := by
        refine (hp.readsDevice_iff hc hx).mpr ⟨hl, hne', ?_⟩
        rw [Isa.State.readsDevice, ha, ← haddr, hcached]
        rfl
      obtain ⟨hb, hj, _, hready⟩ := hread.1
      obtain ⟨hmem, hem⟩ := (hp.accessGranted hread.1).step_memory (i := s.topIn i) hp.spaced
        hp.orderly.decoded hp.noReset hb hj hready
      refine ⟨hem, .inl ⟨congrArg Memory.state hmem, ?_⟩⟩
      rw [Isa.State.busWord, ← haddr, hcached, if_neg Bool.false_ne_true, ← hdev hread]
      exact congrArg (fun m => m.dataM1.memrData) hmem

/-- A load in `dataM1` has its address. -/
theorem Core.Runs.dataM1_address {c : Core} {j : CoreIn} (h : c.Runs x op dev g)
    (hx : Isa.Executes word x op dev) (ho : c.Orderly j) (hne : c.memory.dataM1.pcAndInstr ≠ 0)
    {acc : Isa.Access} (ha : Isa.access (op g.dataM1) = some acc) :
    c.memory.dataM1.aluout = (x g.dataM1).addr (op g.dataM1) := by
  obtain ⟨his, _⟩ := h.follows.dataM1.is hne
  rw [(ho.inOrder (h.isCsr hx ho.decoded)).dataM1, h.valueW hx ho, h.valueW hx ho]
  exact his.address (hx.encodes _) (hx.fits _) ha

/-- The word of a load is the one that is handed on to write-back. -/
theorem SimTop.LoadedM1.dataM_memrData (h : s.LoadedM1 x op dev g) (hp : s.Proceeds i)
    (hne : s.top.core.memory.dataM1.pcAndInstr ≠ 0) {msize : Msize} {u : Bool}
    (ha : Isa.access (op g.dataM1) = some (.load msize u)) :
    (s.top.core.dataM (s.top.coreIn (s.topIn i))).memrData =
      (x g.dataM1).busWord (op g.dataM1) dev := by
  rw [Core.dataM, Memory.dataM]
  rcases (h hne msize u ha).2 with ⟨hs, hword⟩ | ⟨hs, hword⟩
  · simp only [hs, if_true]
    exact hword
  · -- the cache answers the request that is driven once more
    have hd : s.top.core.memory.drivesM1 = true := by
      rw [Memory.drivesM1, hs]
      rfl
    have hdreq : s.top.core.dreq i.pins = s.top.core.memory.dataM1.dreq true := by
      rw [Core.dreq, Memory.dreq, if_pos hd]
    have hskip : Cache.skip s.top.dcache (s.top.core.dreq i.pins) = false := by
      have hcached : isCached (s.top.core.memory.dataM1.dreq true).addr = true :=
        hp.grant.driven hd
      rw [hdreq, Cache.skip, hcached]
      rfl
    have hresp : (s.top.coreIn (s.topIn i)).dresp.data = s.top.dcache.hitRdata := by
      change (Cache.dresp s.top.dcache (s.top.core.dreq i.pins) _ _).data = _
      rw [Cache.dresp, hskip]
      rfl
    simp only [hs]
    exact hresp.trans hword

/-- A load takes its value to write-back. -/
theorem SimTop.LoadedM1.step_loadedW (h : s.LoadedM1 x op dev g) (hp : s.Proceeds i)
    (hc : s.top.core.Runs x op dev g) (hx : Isa.Executes word x op dev) :
    (s.step i).top.core.LoadedW x op dev (g.step s.top.core (s.top.coreIn (s.topIn i))) := by
  intro hne msize u ha
  rw [Places.step_mw] at ha ⊢
  have hmw : (s.step i).top.core.mw =
      if s.top.core.stallDataOk (s.top.coreIn (s.topIn i)) then 0
      else s.top.core.dataM (s.top.coreIn (s.topIn i)) := Core.step_mw hp.pipeReset
  rw [hmw] at hne ⊢
  split at hne
  · exact absurd rfl hne
  · rename_i hst
    rw [if_neg hst]
    have hne' : s.top.core.memory.dataM1.pcAndInstr ≠ 0 := hne
    obtain ⟨his, _⟩ := hc.follows.dataM1.is hne'
    have hinstr : (s.top.core.dataM (s.top.coreIn (s.topIn i))).instr =
        (load (x g.dataM1).instr (op g.dataM1) msize u).instr := by
      rw [← Op.control_load ha, ← (his.instr (hx.encodes _) (hx.fits _)).2]
      exact hp.orderly.decoded.dataM1.instr
    have haddr : (s.top.core.dataM (s.top.coreIn (s.topIn i))).aluout =
        (x g.dataM1).addr (op g.dataM1) := hc.dataM1_address hx hp.orderly hne' ha
    rw [MemoryData.lanes, h.dataM_memrData hp hne' ha, hinstr, haddr]
    exact Isa.State.readdata_busWord ((hx.fits _).access _ ha) u

end Cycle

end RiscvCpu
