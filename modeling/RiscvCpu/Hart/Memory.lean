import RiscvCpu.Hart.Core

/-!
# The system on a stretch

An access in `em` belongs to the stretch, so it takes effect on the memory of the hart.  In a
cycle without a redirect the system moves on along the stretch; in one with a redirect the
data port rests, and memory stays as the instruction in write-back left it.
-/

namespace RiscvCpu

/-! ## Accesses -/

section Access

variable {x : ℕ → Isa.State} {op : ℕ → Op} {dev : ℕ → BitVec 64} {c : Core} {i : CoreIn}
  {g : Places} {msize : Msize} {u : Bool}

/-- A record in `em` is a load or store exactly if its instruction makes an access. -/
theorem Core.Hosts.em_isMem (h : c.Hosts x op dev g) (hx : Isa.Stretch x op dev)
    (ho : c.Orderly i) (hf : c.csrFlush i.pins = false) (hne : c.em.pcAndInstr ≠ 0) :
    c.em.instr.ctl.isMem = (Isa.access (op g.em)).isSome := by
  have hahead := h.ahead_em hx ho hf hne
  obtain ⟨his, _⟩ := h.em_is hx ho hf hne
  have hinstr := (his.decodes (hx.encodes _ hahead) (hx.inBounds _ hahead)).2.1
  rw [ho.decoded.em.instr, hinstr, Control.isMem]
  cases ha : Isa.access (op g.em) with
  | none =>
    obtain ⟨hr, hw⟩ := Op.control_noAccess (w := (x g.em).instr) ha
    rw [hr, hw]
    rfl
  | some acc =>
    cases acc with
    | load msize u =>
      rw [Op.control_load ha]
      rfl
    | store msize =>
      rw [Op.control_store ha]
      rfl

/-- A load or store in `em` is an access of its instruction. -/
theorem Core.Hosts.access (h : c.Hosts x op dev g) (hx : Isa.Stretch x op dev)
    (ho : c.Orderly i) (hf : c.csrFlush i.pins = false) (hm : c.em.instr.ctl.isMem = true) :
    c.em.pcAndInstr ≠ 0 ∧ ∃ acc, Isa.access (op g.em) = some acc := by
  have hne : c.em.pcAndInstr ≠ 0 := by
    intro h0
    rw [ho.decoded.em.instr, h0, FetchData.instr_zero] at hm
    cases hm
  rw [h.em_isMem hx ho hf hne] at hm
  exact ⟨hne, Option.isSome_iff_exists.mp hm⟩

/-- The request of a load has no strobe. -/
theorem Core.Hosts.load_strobe (h : c.Hosts x op dev g) (hx : Isa.Stretch x op dev)
    (ho : c.Orderly i) (hf : c.csrFlush i.pins = false) (hne : c.em.pcAndInstr ≠ 0)
    (ha : Isa.access (op g.em) = some (.load msize u)) :
    (c.em.dataMtmp.dreq true).strobe = 0 := by
  have hahead := h.ahead_em hx ho hf hne
  obtain ⟨his, _⟩ := h.em_is hx ho hf hne
  have hno : c.em.dataMtmp.instr.ctl.memwEn = false := by
    change c.em.instr.ctl.memwEn = false
    rw [ho.decoded.em.instr,
      (his.decodes (hx.encodes _ hahead) (hx.inBounds _ hahead)).2.1, Op.control_load ha]
    rfl
  rw [MemoryData.dreq, hno]
  rfl

/-- The request of a store has the lanes of its value. -/
theorem Core.Hosts.store_lanes (h : c.Hosts x op dev g) (hx : Isa.Stretch x op dev)
    (ho : c.Orderly i) (hf : c.csrFlush i.pins = false) (hne : c.em.pcAndInstr ≠ 0)
    (ha : Isa.access (op g.em) = some (.store msize)) :
    let lanes := writedata (((x g.em).addr (op g.em)).extractLsb' 0 3) (x g.em).rs2 msize
    (c.em.dataMtmp.dreq true).data = lanes.wd ∧
      (c.em.dataMtmp.dreq true).strobe = lanes.strobe := by
  have hahead := h.ahead_em hx ho hf hne
  obtain ⟨his, _⟩ := h.em_is hx ho hf hne
  obtain ⟨haddr, hdata⟩ := h.em_access hx ho hf hne ha
  have hinstr : c.em.instr = ((op g.em).control (x g.em).instr).instr := by
    rw [ho.decoded.em.instr]
    exact (his.decodes (hx.encodes _ hahead) (hx.inBounds _ hahead)).2.1
  have hsize : c.em.instr.ctl.msize = msize ∧ c.em.instr.ctl.memwEn = true := by
    rw [hinstr, Op.control_store ha]
    exact ⟨rfl, rfl⟩
  have hen : c.em.dataMtmp.instr.ctl.memwEn = true := hsize.2
  rw [MemoryData.dreq, hen, if_pos rfl, ← haddr, ← hdata msize rfl, ← hsize.1]
  exact ⟨rfl, rfl⟩

/-- A cached access changes the words of memory as its instruction does. -/
theorem Core.Hosts.storeWord (h : c.Hosts x op dev g) (hx : Isa.Stretch x op dev)
    (ho : c.Orderly i) (hf : c.csrFlush i.pins = false) (hne : c.em.pcAndInstr ≠ 0)
    {acc : Isa.Access} (ha : Isa.access (op g.em) = some acc)
    (hc : isCached ((x g.em).addr (op g.em)) = true) :
    RiscvCpu.storeWord (Bytes.words (x g.em).mem) (c.em.dataMtmp.dreq true) =
      Bytes.words ((x g.em).memNxt (op g.em)) := by
  have haddr : (c.em.dataMtmp.dreq true).addr = (x g.em).addr (op g.em) :=
    (h.em_access hx ho hf hne ha).1
  rw [RiscvCpu.storeWord, haddr, Isa.State.memNxt, ha]
  cases acc with
  | load msize u =>
    rw [h.load_strobe hx ho hf hne ha, mergeBytes_none, Function.update_eq_self]
  | store msize =>
    obtain ⟨hdata, hstrobe⟩ := h.store_lanes hx ho hf hne ha
    have hb := hx.inBounds _ (h.ahead_em hx ho hf hne)
    rw [hdata, hstrobe]
    simp only [hc, if_true]
    exact (Isa.State.words_store (hb.access _ ha) _).symm

/-- A load in `dataM1` has its address. -/
theorem Core.Hosts.dataM1_address (h : c.Hosts x op dev g) (hx : Isa.Stretch x op dev)
    (ho : c.Orderly i) (hf : c.csrFlush i.pins = false)
    (hne : c.memory.dataM1.pcAndInstr ≠ 0) {acc : Isa.Access}
    (ha : Isa.access (op g.dataM1) = some acc) :
    c.memory.dataM1.aluout = (x g.dataM1).addr (op g.dataM1) := by
  have hahead := h.ahead_dataM1 hx ho hf
  obtain ⟨his, _⟩ := h.tracks.dataM1.is hahead hne
  have hW := h.valueW hx ho hahead
  rw [(ho.settled hf).dataM1, hW, hW]
  exact his.address (hx.encodes _ hahead) (hx.fits_access hahead ha) ha

/-- Memory before the instruction in `em` is that of a state of the stretch. -/
theorem Core.Tracks.em_mem (h : c.Tracks x op g) (hx : Isa.Stretch x op dev) :
    ∃ n, Isa.Ahead op n ∧ (x g.em).mem = (x n).mem := by
  have hlast : ∀ n, Isa.Ahead op n → ¬Isa.Ahead op (n + 1) →
      (x (n + 1)).mem = (x n).mem := by
    intro n hn hn'
    have hs : (op n).isSystem = true := by
      by_contra hs
      exact hn' (hn.succ (Bool.not_eq_true _ ▸ hs))
    rw [hx.next n]
    exact (Isa.State.exec_noAccess (Op.access_of_isSystem hs)).1
  by_cases hem : Isa.Ahead op g.em
  · exact ⟨g.em, hem, rfl⟩
  · by_cases hm1 : Isa.Ahead op g.dataM1
    · rcases h.dataM1.spans hm1 with ⟨_, hg⟩ | ⟨_, hg⟩
      · rw [hg] at hem
        exact absurd hm1 hem
      · rw [hg] at hem ⊢
        exact ⟨g.dataM1, hm1, hlast _ hm1 hem⟩
    · rcases h.mw with ⟨_, hg⟩ | ⟨_, hg⟩
      · rw [hg] at hm1
        exact absurd h.ahead hm1
      · rw [h.dataM1.behind hm1, hg]
        rw [hg] at hm1
        exact ⟨g.mw, h.ahead, hlast _ h.ahead hm1⟩

end Access

/-! ## The invariant -/

/-- The words `C` are the code, and no state of the stretch has others in their place. -/
structure Isa.Loaded (x : ℕ → Isa.State) (op : ℕ → Op) (C : BitVec 64 → BitVec 32 → Prop) :
    Prop where
  own : ∀ n, Isa.Ahead op n → C (x n).pc (x n).instr
  aligned : ∀ pc w, C pc w → pc.extractLsb' 0 2 = 0
  range : ∀ pc w, C pc w → 0x80000000 ≤ pc.toNat ∧ pc.toNat < 0x100000000
  fixed : ∀ n, Isa.Ahead op n → ∀ pc w, C pc w → (x n).wordAt pc = w

/-- The system is in the middle of the stretch. -/
structure SimTop.Hosts (s : SimTop) (x : ℕ → Isa.State) (op : ℕ → Op) (dev : ℕ → BitVec 64)
    (C : BitVec 64 → BitVec 32 → Prop) (g : Places) : Prop where
  core : s.top.core.Hosts x op dev g
  grant : s.top.GrantOk s.ram.beat
  code : s.CodeOk C
  ram : s.ram.HasCode C
  data : s.DataOk (Bytes.words (x g.em).mem)
  loaded : s.LoadedM1 x op dev g

section Cycle

variable {x : ℕ → Isa.State} {op : ℕ → Op} {dev : ℕ → BitVec 64}
  {C : BitVec 64 → BitVec 32 → Prop} {s : SimTop} {i : SimTopIn} {g : Places}

theorem Isa.Loaded.cached (hC : Isa.Loaded x op C) {pc : BitVec 64} {w : BitVec 32}
    (h : C pc w) : isCached pc = true ∧ pc.toNat < 0x100000000 :=
  ⟨isCached_of_range (hC.range pc w h).1 (hC.range pc w h).2, (hC.range pc w h).2⟩

/-- The code is in memory at all times. -/
theorem SimTop.Hosts.halfAt_words (h : s.Hosts x op dev C g) (hx : Isa.Stretch x op dev)
    (hC : Isa.Loaded x op C) {pc : BitVec 64} {w : BitVec 32} (hw : C pc w) :
    halfAt (Bytes.words (x g.em).mem (wordOf pc)) pc = w := by
  obtain ⟨n, hn, hmem⟩ := h.core.tracks.em_mem hx
  rw [hmem, (x n).halfAt_words (hC.aligned pc w hw)]
  exact hC.fixed n hn pc w hw

/-- Requests that hit are in range. -/
theorem SimTop.Hosts.inRange (h : s.Hosts x op dev C g) (hx : Isa.Stretch x op dev)
    (hp : s.Proceeds i) : s.DataInRange i := by
  intro hh
  rcases hp.hit_cases hh with ⟨hd, hdreq⟩ | ⟨hl, hm, hcached⟩
  · rw [hdreq]
    exact (h.data.again hd).1
  · obtain ⟨hne, acc, ha⟩ := h.core.access hx hp.orderly hp.noFlush hm
    have haddr := (h.core.em_access hx hp.orderly hp.noFlush hne ha).1
    rw [(request_of_leaves hp.grant.lines hp.spaced hl hm).1]
    change s.top.core.em.aluout.toNat < _
    rw [haddr] at hcached ⊢
    have := (hx.inBounds _ (h.core.ahead_em hx hp.orderly hp.noFlush hne)).data acc ha hcached
    omega

/-- An access that leaves `em` changes the values as its instruction does. -/
theorem SimTop.Hosts.dataNxt_access (h : s.Hosts x op dev C g) (hx : Isa.Stretch x op dev)
    (hp : s.Proceeds i) (hl : s.top.core.Leaves (s.top.coreIn (s.topIn i)))
    (hm : s.top.core.em.instr.ctl.isMem = true) :
    s.dataNxt i (Bytes.words (x g.em).mem) = Bytes.words ((x g.em).memNxt (op g.em)) := by
  obtain ⟨hne, acc, ha⟩ := h.core.access hx hp.orderly hp.noFlush hm
  obtain ⟨hdreq, hh⟩ := request_of_leaves hp.grant.lines hp.spaced hl hm
  rw [dataNxt, hh, hdreq, (h.core.em_access hx hp.orderly hp.noFlush hne ha).1]
  cases hcached : isCached ((x g.em).addr (op g.em)) with
  | true => exact h.core.storeWord hx hp.orderly hp.noFlush hne ha hcached
  | false =>
    rw [if_neg Bool.false_ne_true, Isa.State.memNxt, ha]
    cases acc with
    | load msize u => rfl
    | store msize => simp only [hcached, Bool.false_eq_true, if_false]

/-- What moves on from `em` without an access leaves memory and devices alone. -/
theorem SimTop.Hosts.noAccess (h : s.Hosts x op dev C g) (hx : Isa.Stretch x op dev)
    (hp : s.Proceeds i) (hm : s.top.core.em.instr.ctl.isMem = false) :
    (x g.de).mem = (x g.em).mem ∧ (x g.de).reads = (x g.em).reads := by
  by_cases hahead : Isa.Ahead op g.em
  · rcases h.core.tracks.em.spans hahead with ⟨_, hde⟩ | ⟨his, hde⟩
    · rw [hde]
      exact ⟨rfl, rfl⟩
    · have hsome := h.core.em_isMem hx hp.orderly hp.noFlush
        (his.ne_zero (hx.encodes _ hahead))
      rw [hm] at hsome
      have hna : Isa.access (op g.em) = none := by simpa using hsome.symm
      rw [hde, hx.next g.em]
      exact Isa.State.exec_noAccess hna
  · rw [h.core.tracks.em.behind hahead]
    exact ⟨rfl, rfl⟩

/-- The values go on as the memory of the stretch does. -/
theorem SimTop.Hosts.dataNxt (h : s.Hosts x op dev C g) (hx : Isa.Stretch x op dev)
    (hp : s.Proceeds i) :
    s.dataNxt i (Bytes.words (x g.em).mem) =
      Bytes.words (x (g.next op s.top.core (s.top.coreIn (s.topIn i))).em).mem := by
  rw [Places.next_em]
  cases hst : s.top.core.stallDataOk (s.top.coreIn (s.topIn i)) with
  | true => rw [SimTop.dataNxt, hp.stall_no_hit hst, if_neg Bool.false_ne_true, if_pos rfl]
  | false =>
    rw [if_neg Bool.false_ne_true]
    cases hm : s.top.core.em.instr.ctl.isMem with
    | true =>
      have hne := (h.core.access hx hp.orderly hp.noFlush hm).1
      rw [h.dataNxt_access hx hp ⟨hp.pipeReset, hst⟩ hm,
        (h.core.em_is hx hp.orderly hp.noFlush hne).2, hx.next g.em]
      rfl
    | false => rw [h.data.dataNxt_keep hp hm, (h.noAccess hx hp hm).1]

/-! ## Devices -/

/-- An uncached access that leaves `em` reads a device if it is a load. -/
theorem SimTop.Hosts.readsDevice_access (h : s.Hosts x op dev C g) (hx : Isa.Stretch x op dev)
    (hp : s.Proceeds i) (hbeat : s.top.SingleBeat (s.topIn i))
    (hne : s.top.core.em.pcAndInstr ≠ 0) {acc : Isa.Access}
    (ha : Isa.access (op g.em) = some acc)
    (hun : isCached ((x g.em).addr (op g.em)) = false) :
    (s.oreq i).isWrite = !(x g.em).readsDevice (op g.em) := by
  rw [hp.oreq_isWrite hbeat, Isa.State.readsDevice, ha]
  cases acc with
  | load msize u =>
    rw [h.core.load_strobe hx hp.orderly hp.noFlush hne ha]
    simp only [hun]
    rfl
  | store msize =>
    have hb := hx.inBounds _ (h.core.ahead_em hx hp.orderly hp.noFlush hne)
    have hal : msize.Aligned _ := hb.access _ ha
    rw [(h.core.store_lanes hx hp.orderly hp.noFlush hne ha).2, writedata_aligned hal]
    simpa using hal.strobe_ne_zero

/-- A word that is read from a device is that of a load of the stretch which leaves `em`. -/
theorem SimTop.Hosts.readsDevice_iff (h : s.Hosts x op dev C g) (hx : Isa.Stretch x op dev)
    (hp : s.Proceeds i) :
    s.ReadsDevice i ↔ s.top.core.Leaves (s.top.coreIn (s.topIn i)) ∧
      s.top.core.em.pcAndInstr ≠ 0 ∧ (x g.em).readsDevice (op g.em) = true := by
  have hiff := hp.grant.leaves_iff_beat (i := s.topIn i) hp.not_withdraws hp.spaced hp.noReset
  constructor
  · rintro ⟨hbeat, hread⟩
    obtain ⟨hl, hm, hun⟩ := hiff.mpr hbeat
    obtain ⟨hne, acc, ha⟩ := h.core.access hx hp.orderly hp.noFlush hm
    rw [(h.core.em_access hx hp.orderly hp.noFlush hne ha).1] at hun
    refine ⟨hl, hne, ?_⟩
    rw [h.readsDevice_access hx hp hbeat hne ha hun] at hread
    simpa using hread
  · rintro ⟨hl, hne, hread⟩
    obtain ⟨acc, ha, hun⟩ := Isa.State.access_of_readsDevice hread
    have hm : s.top.core.em.instr.ctl.isMem = true := by
      rw [h.core.em_isMem hx hp.orderly hp.noFlush hne, ha]
      rfl
    have haddr := (h.core.em_access hx hp.orderly hp.noFlush hne ha).1
    have hbeat := hiff.mp ⟨hl, hm, by rwa [haddr]⟩
    refine ⟨hbeat, ?_⟩
    rw [h.readsDevice_access hx hp hbeat hne ha hun, hread]
    rfl

/-- The devices have been read as often as the stretch has read them. -/
theorem SimTop.Hosts.reads (h : s.Hosts x op dev C g) (hx : Isa.Stretch x op dev)
    (hp : s.Proceeds i) :
    (x (g.next op s.top.core (s.top.coreIn (s.topIn i))).em).reads =
      (x g.em).reads + if s.ReadsDevice i then 1 else 0 := by
  rw [Places.next_em]
  by_cases hread : s.ReadsDevice i
  · obtain ⟨hl, hne, hd⟩ := (h.readsDevice_iff hx hp).mp hread
    rw [if_pos hread, hl.2, if_neg Bool.false_ne_true,
      (h.core.em_is hx hp.orderly hp.noFlush hne).2, hx.next g.em, Isa.State.exec_reads, hd]
    rfl
  · rw [if_neg hread, Nat.add_zero]
    cases hst : s.top.core.stallDataOk (s.top.coreIn (s.topIn i)) with
    | true => rfl
    | false =>
      rw [if_neg Bool.false_ne_true]
      cases hm : s.top.core.em.instr.ctl.isMem with
      | false => exact (h.noAccess hx hp hm).2
      | true =>
        have hne := (h.core.access hx hp.orderly hp.noFlush hm).1
        have hd : (x g.em).readsDevice (op g.em) = false := by
          by_contra hd
          exact hread ((h.readsDevice_iff hx hp).mpr
            ⟨⟨hp.pipeReset, hst⟩, hne, Bool.not_eq_false _ ▸ hd⟩)
        rw [(h.core.em_is hx hp.orderly hp.noFlush hne).2, hx.next g.em,
          Isa.State.exec_reads, hd]
        rfl

/-! ## Loads -/

/-- A load that leaves `em` finds its word. -/
theorem SimTop.Hosts.step_loadedM1 (h : s.Hosts x op dev C g) (hx : Isa.Stretch x op dev)
    (hp : s.Proceeds i)
    (hdev : s.ReadsDevice i → (s.oresp i).data = dev (x g.em).reads) :
    (s.step i).LoadedM1 x op dev (g.next op s.top.core (s.top.coreIn (s.topIn i))) := by
  intro hne msize u ha
  have hpc := hp.orderly.lossless.step_dataM1_pcAndInstr hp.pipeReset
  have hne' : (s.top.core.step (s.top.coreIn (s.topIn i))).memory.dataM1.pcAndInstr ≠ 0 := hne
  rw [hpc] at hne'
  rw [Places.next_dataM1] at ha ⊢
  cases hst : s.top.core.stallDataOk (s.top.coreIn (s.topIn i)) with
  | true =>
    -- behind the load nothing waits
    rw [hst, if_pos rfl] at ha hne'
    have hm := hp.spaced.isMem_of_stall hp.pipeReset hst
    rw [(h.loaded hne' msize u ha).1] at hm
    cases hm
  | false =>
    rw [hst, if_neg Bool.false_ne_true] at ha hne'
    rw [if_neg Bool.false_ne_true]
    have hl : s.top.core.Leaves (s.top.coreIn (s.topIn i)) := ⟨hp.pipeReset, hst⟩
    have hm : s.top.core.em.instr.ctl.isMem = true := by
      rw [h.core.em_isMem hx hp.orderly hp.noFlush hne', ha]
      rfl
    obtain ⟨hdreq, hh⟩ := request_of_leaves hp.grant.lines hp.spaced hl hm
    have haddr := (h.core.em_access hx hp.orderly hp.noFlush hne' ha).1
    cases hcached : isCached s.top.core.em.aluout with
    | true =>
      obtain ⟨hmem, hem⟩ := hp.spaced.step_cached hp.orderly.decoded hl hm hcached
      refine ⟨hem, .inr ⟨congrArg Memory.state hmem, ?_⟩⟩
      rw [h.data.step_hitRdata (h.inRange hx hp) (hh.trans hcached), hdreq,
        Isa.State.busWord, ← haddr, hcached]
      rfl
    | false =>
      have hread : s.ReadsDevice i := by
        refine (h.readsDevice_iff hx hp).mpr ⟨hl, hne', ?_⟩
        rw [Isa.State.readsDevice, ha, ← haddr, hcached]
        rfl
      obtain ⟨hb, hj, _, hready⟩ := hread.1
      obtain ⟨hmem, hem⟩ := (hp.accessGranted hread.1).step_memory (i := s.topIn i) hp.spaced
        hp.orderly.decoded hp.noReset hb hj hready
      refine ⟨hem, .inl ⟨congrArg Memory.state hmem, ?_⟩⟩
      rw [Isa.State.busWord, ← haddr, hcached, if_neg Bool.false_ne_true, ← hdev hread]
      exact congrArg (fun m => m.dataM1.memrData) hmem

/-- A load takes its value to write-back. -/
theorem SimTop.Hosts.step_loadedW (h : s.Hosts x op dev C g) (hx : Isa.Stretch x op dev)
    (hp : s.Proceeds i) :
    (s.step i).top.core.LoadedW x op dev
      (g.next op s.top.core (s.top.coreIn (s.topIn i))) := by
  intro hne msize u ha
  rw [Places.next_mw] at ha ⊢
  have hmw : (s.step i).top.core.mw =
      if s.top.core.stallDataOk (s.top.coreIn (s.topIn i)) then 0
      else s.top.core.dataM (s.top.coreIn (s.topIn i)) := Core.step_mw hp.pipeReset
  rw [hmw] at hne ⊢
  split at hne
  · exact absurd rfl hne
  · rename_i hst
    rw [if_neg hst]
    have hne' : s.top.core.memory.dataM1.pcAndInstr ≠ 0 := hne
    have hahead := h.core.ahead_dataM1 hx hp.orderly hp.noFlush
    obtain ⟨his, _⟩ := h.core.tracks.dataM1.is hahead hne'
    have hb := hx.inBounds _ hahead
    have hinstr : (s.top.core.dataM (s.top.coreIn (s.topIn i))).instr =
        (load (x g.dataM1).instr (op g.dataM1) msize u).instr := by
      rw [← Op.control_load ha, ← (his.decodes (hx.encodes _ hahead) hb).2.1]
      exact hp.orderly.decoded.dataM1.instr
    have haddr : (s.top.core.dataM (s.top.coreIn (s.topIn i))).aluout =
        (x g.dataM1).addr (op g.dataM1) :=
      h.core.dataM1_address hx hp.orderly hp.noFlush hne' ha
    rw [MemoryData.lanes, h.loaded.dataM_memrData hp hne' ha, hinstr, haddr]
    exact Isa.State.readdata_busWord (hb.access _ ha) u

/-! ## One cycle -/

/-- A cycle without a redirect moves the system on along the stretch. -/
theorem SimTop.Hosts.step (h : s.Hosts x op dev C g) (hx : Isa.Stretch x op dev)
    (hC : Isa.Loaded x op C) (hp : s.Proceeds i)
    (hdev : s.ReadsDevice i → (s.oresp i).data = dev (x g.em).reads) :
    (s.step i).Hosts x op dev C (g.next op s.top.core (s.top.coreIn (s.topIn i))) := by
  have ha := answered hp.grant i hp.not_withdraws
  have hclean := h.code.clean.creq_isWrite (s.top.core.ireq i.pins)
  refine ⟨?_, ?_, ?_, ?_, ?_, h.step_loadedM1 hx hp hdev⟩
  · refine h.core.step hx hp.orderly hp.spaced hp.pipeReset (fun n hn hok hpc => ?_)
      (h.step_loadedW hx hp)
    refine h.code.dataFRawInstr (fun pc w hw => (hC.cached hw).1) hp.noFlush hok ?_
    rw [hpc]
    exact hC.own n hn
  · have hbeat : (s.step i).ram.beat = nextBeat s.ram.beat (s.oresp i) := by
      simp [SimTop.step, Ram.step, hp.noReset]
    rw [hbeat]
    exact hp.grant.step ha hp.noReset hp.not_withdraws
  · exact h.code.step hp.grant ha h.ram (fun pc w hw => hC.cached hw) hp.noReset
  · refine h.data.step_hasCode hp.grant hp.noReset hclean (fun pc w hw => ?_) h.ram
    obtain ⟨hc, hlt⟩ := hC.cached hw
    exact ⟨hc, hlt, h.halfAt_words hx hC hw⟩
  · rw [← h.dataNxt hx hp]
    exact h.data.step hp.grant ha hp.noReset hp.pipeReset hclean (h.inRange hx hp) hp.spaced

end Cycle

end RiscvCpu
