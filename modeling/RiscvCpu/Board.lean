import RiscvCpu.SimTop

/-!
# The board memory

`mycpu_top.sv` and `bram_wrapper.sv`: the port of the core on the board, and the memory
behind it.  `bram_0` is a block RAM with one port, byte enables and a registered output.

The wrapper knows bursts of type `INCR` alone.  A burst of any other type is over with
its first beat, which is right for a single beat (`Served`), and not for the sixteen
beats a cache asks for.
-/

namespace RiscvCpu

/-! ## The port -/

/-- The outputs of `mycpu_top`, but for `size`, which nothing reads. -/
structure MycpuPort where
  valid : Bool
  addr : BitVec 64
  wdata : BitVec 64
  wstrobe : BitVec 8
  burst : AxiBurst
  len : Mlen
deriving DecidableEq, Repr

/-- The port that carries a request. -/
def CbusReq.port (oreq : CbusReq) : MycpuPort :=
  ⟨oreq.valid, oreq.addr, oreq.data, if oreq.isWrite then oreq.strobe else 0, oreq.burst, oreq.len⟩

/-- `is_incr`. -/
def MycpuPort.isIncr (p : MycpuPort) : Bool := p.burst == .incr

/-- The word of the RAM an address names. -/
def bramWord (addr : BitVec 64) : BitVec 18 := addr.extractLsb' 3 18

/-- `base_addr`. -/
def MycpuPort.baseAddr (p : MycpuPort) : BitVec 18 := bramWord p.addr

/-! ## The memory -/

/-- `bram_0`. -/
structure Bram where
  word : BitVec 18 → BitVec 64
  douta : BitVec 64

/-- The clock edge of `bram_0`.  The output follows a write. -/
def Bram.step (m : Bram) (ena : Bool) (wea : BitVec 8) (addra : BitVec 18) (dina : BitVec 64) :
    Bram :=
  if ena then
    let x := mergeBytes (m.word addra) dina wea
    ⟨Function.update m.word addra x, x⟩
  else m

/-- The registers of `bram_wrapper`. -/
structure BramWrapper where
  counter : BitVec 16
  realValid : Bool
  burstCounter : BitVec 18
  bram : Bram
  readyRead : Bool
  lastRead : Bool

/-- `BRAM_DELAY`. -/
def bramDelay (simulation : Bool) : BitVec 16 := if simulation then 2 else 32

section BramWrapper

variable (simulation : Bool) (w : BramWrapper) (p : MycpuPort)

/-- `last_write`. -/
def BramWrapper.lastWrite : Bool :=
  if !p.isIncr then w.realValid else w.realValid && w.burstCounter == p.len.setWidth 18

/-- `ready`. -/
def BramWrapper.ready : Bool := if p.wstrobe != 0 then w.realValid else w.readyRead

/-- `last`. -/
def BramWrapper.last : Bool := if p.wstrobe != 0 then w.lastWrite p else w.lastRead

/-- `rdata`. -/
def BramWrapper.rdata : BitVec 64 := w.bram.douta

/-- `addra`. -/
def BramWrapper.addra : BitVec 18 :=
  if p.isIncr then p.baseAddr + w.burstCounter else p.baseAddr

/-- The clock edge of `bram_wrapper`. -/
def BramWrapper.step (reset : Bool) : BramWrapper where
  counter :=
    if reset || !p.valid || w.last p then 0
    else if w.counter ≠ bramDelay simulation then w.counter + 1
    else w.counter
  realValid := !(reset || w.counter != bramDelay simulation || !p.valid || w.last p)
  burstCounter := if w.realValid && p.isIncr && !reset then w.burstCounter + 1 else 0
  bram := w.bram.step w.realValid p.wstrobe (w.addra p) p.wdata
  readyRead := w.realValid
  lastRead := w.lastWrite p

end BramWrapper

/-- `w` is a run of the wrapper from reset under the requests `i`. -/
def BramWrapper.IsRun (simulation : Bool) (w : ℕ → BramWrapper) (i : ℕ → CbusReq) : Prop :=
  Sync.FromReset (fun w (x : Bool × CbusReq) => w.step simulation x.2.port x.1)
    (fun x => x.1 = true) w fun t => (false, i t)

/-! ## Requests -/

/-- The requests a cache puts on the bus. -/
inductive CbusReq.FromCache (r : CbusReq) : Prop where
/-- One beat, for an uncached access. -/
| single :
  r.burst = .fixed →
  r.len = mlen1 →
  r.isWrite = (r.strobe != 0) →
  FromCache r
/-- Sixteen words from some word of a line on. -/
| line :
  r.burst = .wrap →
  r.len = mlen16 →
  r.size = .msize8 →
  r.addr.extractLsb' 0 3 = 0 →
  r.isWrite = (r.strobe != 0) →
  FromCache r

/-- The two requests differ in nothing but the data of the beat. -/
def CbusReq.SameRequest (a b : CbusReq) : Prop := { a with data := b.data } = b

/-- The requests of a cache come one after the other, each held until `last` and followed
by a cycle without one. -/
structure BramWrapper.Requested (w : ℕ → BramWrapper) (i : ℕ → CbusReq) : Prop where
  first : (i 0).valid = false
  fromCache : ∀ t, (i t).valid = true → (i t).FromCache
  held : ∀ t, (i t).valid = true → (w t).last (i t).port = false → (i (t + 1)).SameRequest (i t)
  gap : ∀ t, (i t).valid = true → (w t).last (i t).port = true → (i (t + 1)).valid = false

/-- The beats from cycle `a` up to, not including, cycle `b`. -/
def BramWrapper.beats (w : ℕ → BramWrapper) (i : ℕ → CbusReq) (a b : ℕ) : ℕ :=
  (Sync.window (fun t => (w t).ready (i t).port) a b).count true

/-- The request of cycle `g` is served by cycle `e`: as many beats as it asks for, `last`
with the last one alone, and beat `k` for the word at address `k` of the burst. -/
structure BramWrapper.Served (w : ℕ → BramWrapper) (i : ℕ → CbusReq) (g e : ℕ) : Prop where
  ready : (w e).ready (i e).port = true
  last : ∀ t, g ≤ t → t ≤ e → ((w t).last (i t).port = true ↔ t = e)
  count : beats w i g (e + 1) = (i g).len.toNat + 1
  read : (i g).isWrite = false → ∀ t, g ≤ t → t ≤ e → (w t).ready (i t).port = true →
    (w t).rdata = (w g).bram.word (bramWord ((i g).beatAddr (beats w i g t)))
  write : (i g).isWrite = true → ∀ t, g ≤ t → t ≤ e → (w t).ready (i t).port = true →
    let a := bramWord ((i g).beatAddr (beats w i g t))
    (w (t + 1)).bram.word =
      Function.update (w t).bram.word a (mergeBytes ((w t).bram.word a) (i t).data (i g).strobe)
  quiet : ∀ t, g ≤ t → t ≤ e → (i g).isWrite = false ∨ (w t).ready (i t).port = false →
    (w (t + 1)).bram.word = (w t).bram.word

/-! ## One request -/

section Request

variable {simulation : Bool} {w : BramWrapper} {p : MycpuPort} {k : ℕ}

/-- `k` cycles into the delay, with nothing left of the request before. -/
structure BramWrapper.Counting (w : BramWrapper) (k : ℕ) : Prop where
  counter : w.counter = BitVec.ofNat 16 k
  realValid : w.realValid = false
  burstCounter : w.burstCounter = 0
  readyRead : w.readyRead = false
  lastRead : w.lastRead = false

/-- The delay is over, and the RAM is accessed. -/
structure BramWrapper.Accessing (w : BramWrapper) : Prop where
  realValid : w.realValid = true
  burstCounter : w.burstCounter = 0
  readyRead : w.readyRead = false
  lastRead : w.lastRead = false

theorem BramWrapper.Counting.silent (h : w.Counting k) :
    w.ready p = false ∧ w.last p = false ∧ w.lastWrite p = false := by
  have hl : w.lastWrite p = false := by simp [lastWrite, h.realValid]
  refine ⟨by simp [ready, h.realValid, h.readyRead], ?_, hl⟩
  simp [last, hl, h.lastRead]

/-- A request in the first cycles of its delay. -/
theorem BramWrapper.Counting.step (h : w.Counting k) (hv : p.valid = true)
    (hk : k < (bramDelay simulation).toNat) :
    (w.step simulation p false).Counting (k + 1) ∧ (w.step simulation p false).bram = w.bram := by
  have hne : BitVec.ofNat 16 k ≠ bramDelay simulation := by
    intro he
    have := (bramDelay simulation).isLt
    rw [← he, BitVec.toNat_ofNat] at hk this
    omega
  obtain ⟨_, hl, hlw⟩ := h.silent (p := p)
  refine ⟨⟨?_, ?_, ?_, h.realValid, hlw⟩, ?_⟩
  · simp [BramWrapper.step, hv, hl, h.counter, hne, BitVec.ofNat_add]
  · simp [BramWrapper.step, h.counter, hne]
  · simp [BramWrapper.step, h.realValid]
  · simp [BramWrapper.step, Bram.step, h.realValid]

/-- A request at the end of its delay. -/
theorem BramWrapper.Counting.access (h : w.Counting (bramDelay simulation).toNat)
    (hv : p.valid = true) :
    (w.step simulation p false).Accessing ∧ (w.step simulation p false).bram = w.bram := by
  have he : w.counter = bramDelay simulation := by
    rw [h.counter, BitVec.ofNat_toNat, BitVec.setWidth_eq]
  obtain ⟨_, hl, hlw⟩ := h.silent (p := p)
  refine ⟨⟨?_, ?_, h.realValid, hlw⟩, ?_⟩
  · simp [BramWrapper.step, he, hv, hl]
  · simp [BramWrapper.step, h.realValid]
  · simp [BramWrapper.step, Bram.step, h.realValid]

/-- A write is done in the cycle of the access. -/
theorem BramWrapper.Accessing.write (simulation : Bool) (h : w.Accessing) (hi : p.isIncr = false)
    (hw : p.wstrobe ≠ 0) :
    w.ready p = true ∧ w.last p = true ∧
      (w.step simulation p false).bram.word =
        Function.update w.bram.word p.baseAddr
          (mergeBytes (w.bram.word p.baseAddr) p.wdata p.wstrobe) := by
  have hw' : ¬p.wstrobe = 0#8 := hw
  refine ⟨by simp [ready, hw', h.realValid], by simp [last, lastWrite, hw', hi, h.realValid], ?_⟩
  simp [BramWrapper.step, Bram.step, addra, hi, h.realValid]

theorem mergeBytes_zero (old new : BitVec 64) : mergeBytes old new 0#8 = old := by
  have h : strobeMask 0#8 = 0#64 := by decide
  rw [mergeBytes, h, BitVec.not_zero, BitVec.and_allOnes, BitVec.and_zero, BitVec.or_zero]

/-- A read leaves the RAM alone. -/
theorem BramWrapper.step_word (hw : p.wstrobe = 0) :
    (w.step simulation p false).bram.word = w.bram.word := by
  cases hr : w.realValid <;> simp [BramWrapper.step, Bram.step, hw, hr, mergeBytes_zero]

/-- A read is answered in the cycle after the access. -/
theorem BramWrapper.Accessing.read (simulation : Bool) (h : w.Accessing) (hi : p.isIncr = false)
    (hw : p.wstrobe = 0) :
    (w.ready p = false ∧ w.last p = false) ∧
      (w.step simulation p false).readyRead = true ∧ (w.step simulation p false).lastRead = true ∧
      (w.step simulation p false).rdata = w.bram.word p.baseAddr := by
  refine ⟨⟨by simp [ready, hw, h.readyRead], by simp [last, hw, h.lastRead]⟩, h.realValid, ?_, ?_⟩
  · simp [BramWrapper.step, lastWrite, hi, h.realValid]
  · simp [BramWrapper.step, BramWrapper.rdata, Bram.step, addra, hi, hw, h.realValid,
      mergeBytes_zero]

/-- What is left of a request after its last beat is gone after a cycle without one. -/
theorem BramWrapper.step_idle (hv : p.valid = false) (hr : w.realValid = false) :
    (w.step simulation p false).Counting 0 := by
  refine ⟨?_, ?_, ?_, hr, ?_⟩ <;> simp [BramWrapper.step, hv, hr, lastWrite]

end Request

/-! ## Runs -/

section Run

variable {simulation : Bool} {w : ℕ → BramWrapper} {i : ℕ → CbusReq} {g e t : ℕ}

theorem BramWrapper.IsRun.step (h : IsRun simulation w i) (t : ℕ) :
    w (t + 1) = (w t).step simulation (i t).port false := h.next t

/-- A cycle without a request finds no access under way. -/
theorem BramWrapper.IsRun.realValid (h : IsRun simulation w i) (hi : Requested w i)
    (hv : (i t).valid = false) : (w t).realValid = false := by
  cases t with
  | zero =>
    obtain ⟨x, j, hj, hs⟩ := h.start
    rw [hs]
    simp [BramWrapper.step, hj]
  | succ t =>
    rw [h.step t]
    cases hp : (i t).valid with
    | false => simp [BramWrapper.step, CbusReq.port, hp]
    | true =>
      cases hl : (w t).last (i t).port with
      | true => simp [BramWrapper.step, hl]
      | false =>
        have hsame := congrArg CbusReq.valid (hi.held t hp hl)
        change (i (t + 1)).valid = (i t).valid at hsame
        rw [hv, hp] at hsame
        cases hsame

/-- A request begins with the delay. -/
theorem BramWrapper.IsRun.begins (h : IsRun simulation w i) (hi : Requested w i)
    (hv : (i t).valid = false) : (w (t + 1)).Counting 0 := by
  rw [h.step t]
  exact step_idle hv (h.realValid hi hv)

theorem CbusReq.SameRequest.trans {a b c : CbusReq} (h : a.SameRequest b) (h' : b.SameRequest c) :
    a.SameRequest c := by
  unfold SameRequest at *
  rw [← h', ← h]

theorem CbusReq.SameRequest.fields {a b : CbusReq} (h : a.SameRequest b) :
    a.valid = b.valid ∧ a.addr = b.addr ∧ a.strobe = b.strobe := by
  unfold SameRequest at h
  rw [← h]
  exact ⟨rfl, rfl, rfl⟩

/-- The delay of a held request, cycle by cycle. -/
theorem BramWrapper.IsRun.counting (h : IsRun simulation w i) (hi : Requested w i)
    (hv : (i g).valid = true) (hg : (w g).Counting 0) {k : ℕ}
    (hk : k ≤ (bramDelay simulation).toNat) :
    (w (g + k)).Counting k ∧ (i (g + k)).SameRequest (i g) ∧
      (w (g + k)).bram.word = (w g).bram.word := by
  induction k with
  | zero => exact ⟨hg, rfl, rfl⟩
  | succ k ih =>
    obtain ⟨hc, hs, hm⟩ := ih (by omega)
    have hvk : (i (g + k)).valid = true := hs.fields.1.trans hv
    obtain ⟨hc', hm'⟩ := hc.step (p := (i (g + k)).port) hvk hk
    rw [← h.step] at hc' hm'
    refine ⟨hc', (hi.held (g + k) hvk hc.silent.2.1).trans hs, ?_⟩
    rw [Nat.add_assoc] at hm'
    rw [hm', hm]

/-- The request of cycle `g` is answered with one beat, in cycle `e`. -/
structure BramWrapper.Answered (w : ℕ → BramWrapper) (i : ℕ → CbusReq) (g e : ℕ) : Prop where
  le : g ≤ e
  beat : (w e).ready (i e).port = true ∧ (w e).last (i e).port = true
  silent : ∀ t, g ≤ t → t < e → (w t).ready (i t).port = false ∧ (w t).last (i t).port = false
  kept : ∀ t, g ≤ t → t ≤ e → (w t).bram.word = (w g).bram.word
  read : (i g).isWrite = false →
    (w e).rdata = (w g).bram.word (bramWord (i g).addr) ∧
      (w (e + 1)).bram.word = (w g).bram.word
  write : (i g).isWrite = true →
    (w (e + 1)).bram.word =
      Function.update (w e).bram.word (bramWord (i g).addr)
        (mergeBytes ((w e).bram.word (bramWord (i g).addr)) (i e).data (i g).strobe)

theorem CbusReq.FromCache.isIncr {r : CbusReq} (h : r.FromCache) : r.port.isIncr = false := by
  cases h with
  | single hb => simp [port, MycpuPort.isIncr, hb]
  | line hb => simp [port, MycpuPort.isIncr, hb]

theorem CbusReq.FromCache.wstrobe {r : CbusReq} (h : r.FromCache) :
    r.port.wstrobe = r.strobe ∧ r.isWrite = (r.strobe != 0) := by
  have hw : r.isWrite = (r.strobe != 0) := by
    cases h with
    | single _ _ hw => exact hw
    | line _ _ _ _ hw => exact hw
  refine ⟨?_, hw⟩
  by_cases hs : r.strobe = 0
  · simp [port, hw, hs]
  · have hne : (r.strobe != 0) = true := by simpa using hs
    rw [port, hw, hne]
    rfl

/-- The access of a held request. -/
theorem BramWrapper.IsRun.accessing (h : IsRun simulation w i) (hi : Requested w i)
    (hv : (i g).valid = true) (hg : (w g).Counting 0) :
    ∃ e, g < e ∧ (w e).Accessing ∧ (i e).SameRequest (i g) ∧
      (∀ t, g ≤ t → t < e → (w t).ready (i t).port = false ∧ (w t).last (i t).port = false) ∧
      ∀ t, g ≤ t → t ≤ e → (w t).bram.word = (w g).bram.word := by
  obtain ⟨hc, hs, hm⟩ := h.counting hi hv hg (Nat.le_refl _)
  have hvD : (i (g + (bramDelay simulation).toNat)).valid = true :=
    hs.fields.1.trans hv
  obtain ⟨hacc, hm'⟩ := hc.access (p := (i (g + (bramDelay simulation).toNat)).port) hvD
  rw [← h.step] at hacc hm'
  refine ⟨g + (bramDelay simulation).toNat + 1, by omega, hacc,
    (hi.held _ hvD hc.silent.2.1).trans hs, fun t h1 h2 => ?_, fun t h1 h2 => ?_⟩
  · obtain ⟨k, rfl⟩ := Nat.exists_eq_add_of_le h1
    have hk := (h.counting hi hv hg (k := k) (by omega)).1
    exact ⟨hk.silent.1, hk.silent.2.1⟩
  · rcases Nat.lt_or_ge t (g + (bramDelay simulation).toNat + 1) with hlt | hge
    · obtain ⟨k, rfl⟩ := Nat.exists_eq_add_of_le h1
      exact (h.counting hi hv hg (by omega)).2.2
    · obtain rfl : t = g + (bramDelay simulation).toNat + 1 := by omega
      rw [hm', hm]

/-- Every request of a cache is answered with one beat. -/
theorem BramWrapper.IsRun.answered (h : IsRun simulation w i) (hi : Requested w i)
    (hv : (i g).valid = true) (hg : (w g).Counting 0) : ∃ e, Answered w i g e := by
  obtain ⟨e, hge, hacc, hs, hsilent, hkept⟩ := h.accessing hi hv hg
  have hcls := hi.fromCache g hv
  have hve : (i e).valid = true := hs.fields.1.trans hv
  have haddr : (i e).port.baseAddr = bramWord (i g).addr :=
    congrArg bramWord hs.fields.2.1
  have hstrobe : (i e).port.wstrobe = (i g).strobe :=
    ((hi.fromCache e hve).wstrobe.1).trans hs.fields.2.2
  have hincr := (hi.fromCache e hve).isIncr
  cases hw : (i g).isWrite with
  | true =>
    have hne : (i e).port.wstrobe ≠ 0 := by
      rw [hcls.wstrobe.2] at hw
      rw [hstrobe]
      simpa using hw
    obtain ⟨hr, hl, hword⟩ := hacc.write simulation hincr hne
    refine ⟨e, hge.le, ⟨hr, hl⟩, hsilent, hkept, fun h0 => by simp [hw] at h0, fun _ => ?_⟩
    rw [h.step e, hword, haddr, hstrobe]
    rfl
  | false =>
    have hz : (i e).port.wstrobe = 0 := by
      rw [hcls.wstrobe.2] at hw
      rw [hstrobe]
      simpa using hw
    obtain ⟨⟨hr, hl⟩, hready, hlast, hdata⟩ := hacc.read simulation hincr hz
    have hs' := (hi.held e hve hl).trans hs
    have hz' : (i (e + 1)).port.wstrobe = 0 := by
      have hve' : (i (e + 1)).valid = true := hs'.fields.1.trans hv
      rw [(hi.fromCache _ hve').wstrobe.1, hs'.fields.2.2]
      exact hstrobe.symm.trans hz
    have hword : (w (e + 1)).bram.word = (w g).bram.word := by
      rw [h.step e, step_word hz, hkept e hge.le (Nat.le_refl e)]
    rw [← h.step e] at hready hlast hdata
    refine ⟨e + 1, by omega, ?_, fun t h1 h2 => ?_, fun t h1 h2 => ?_, fun _ => ⟨?_, ?_⟩,
      fun h0 => by simp [hw] at h0⟩
    · simp [BramWrapper.ready, BramWrapper.last, hz', hready, hlast]
    · rcases Nat.lt_or_ge t e with hlt | hte
      · exact hsilent t h1 hlt
      · obtain rfl : t = e := by omega
        exact ⟨hr, hl⟩
    · rcases Nat.lt_or_ge e t with hlt | hte
      · obtain rfl : t = e + 1 := by omega
        exact hword
      · exact hkept t h1 hte
    · rw [hdata, haddr, hkept e hge.le (Nat.le_refl e)]
    · rw [h.step (e + 1), step_word hz', hword]

/-- The beats of an answered request. -/
theorem BramWrapper.Answered.beats (h : Answered w i g e) :
    beats w i g e = 0 ∧ beats w i g (e + 1) = 1 := by
  have h0 : BramWrapper.beats w i g e = 0 := by
    refine List.count_eq_zero.mpr fun hm => ?_
    obtain ⟨t, ht, hr⟩ := List.mem_map.mp hm
    obtain ⟨h1, h2⟩ := List.mem_range'_1.mp ht
    have := (h.silent t h1 (by have := h.le; omega)).1
    rw [this] at hr
    cases hr
  refine ⟨h0, ?_⟩
  rw [BramWrapper.beats, Sync.window_succ h.le, List.count_append]
  change BramWrapper.beats w i g e + _ = 1
  rw [h0, h.beat.1]
  rfl

theorem BramWrapper.Answered.eq_of_ready (h : Answered w i g e) (h1 : g ≤ t) (h2 : t ≤ e)
    (hr : (w t).ready (i t).port = true) : t = e := by
  by_contra hne
  have := (h.silent t h1 (by omega)).1
  rw [hr] at this
  cases this

/-- A served request is served in the cycle of its answer. -/
theorem BramWrapper.Answered.served_eq {e' : ℕ} (h : Answered w i g e) (hge : g ≤ e')
    (hs : Served w i g e') : e' = e := by
  rcases Nat.lt_or_ge e e' with hlt | hle
  · exact ((hs.last e h.le hlt.le).mp h.beat.2).symm
  · exact h.eq_of_ready hge hle hs.ready

/-- A single beat is served by its answer. -/
theorem BramWrapper.Answered.served (h : Answered w i g e) (hlen : (i g).len = mlen1)
    (hb : (i g).beatAddr 0 = (i g).addr) : Served w i g e where
  ready := h.beat.1
  last t h1 h2 := by
    refine ⟨fun hl => ?_, fun ht => ht ▸ h.beat.2⟩
    by_contra hne
    have := (h.silent t h1 (by omega)).2
    rw [hl] at this
    cases this
  count := by
    rw [h.beats.2, hlen]
    rfl
  read hw t h1 h2 hr := by
    rw [h.eq_of_ready h1 h2 hr, h.beats.1, hb]
    exact (h.read hw).1
  write hw t h1 h2 hr := by
    rw [h.eq_of_ready h1 h2 hr, h.beats.1, hb]
    exact h.write hw
  quiet t h1 h2 hq := by
    rcases Nat.lt_or_ge t e with hlt | hge
    · rw [h.kept (t + 1) (by omega) hlt, h.kept t h1 h2]
    · obtain rfl : t = e := by omega
      rcases hq with hw | hr
      · rw [(h.read hw).2, h.kept t h1 h2]
      · rw [h.beat.1] at hr
        cases hr

/-- The wrapper serves a request of a cache if and only if the request is for a single
beat. -/
theorem BramWrapper.IsRun.served_iff (h : IsRun simulation w i) (hi : Requested w i)
    (hidle : (i g).valid = false) (hv : (i (g + 1)).valid = true) :
    (∃ e, g < e ∧ Served w i (g + 1) e) ↔ (i (g + 1)).len = mlen1 := by
  obtain ⟨e, he⟩ := h.answered hi hv (h.begins hi hidle)
  constructor
  · rintro ⟨e', hge, hs⟩
    have hcount := hs.count
    rw [he.served_eq hge hs, he.beats.2] at hcount
    apply BitVec.eq_of_toNat_eq
    rw [mlen1, BitVec.toNat_ofNat]
    omega
  · intro hlen
    refine ⟨e, he.le, he.served hlen ?_⟩
    cases hi.fromCache (g + 1) hv with
    | single hb => rw [CbusReq.beatAddr, hb]
    | line _ hl =>
      rw [hl] at hlen
      cases hlen

end Run

/-! ## The requests of `VTop` -/

section Top

/-- A cache puts single beats and lines on the bus. -/
theorem Cache.creq_fromCache {ib : ℕ} (c : Cache ib) (dreq : DbusReq) :
    (c.creq dreq).FromCache := by
  rw [Cache.creq]
  split
  · exact .single rfl rfl rfl
  · refine .line rfl rfl rfl ?_ ?_
    · refine BitVec.eq_of_getLsbD_eq fun j hj => ?_
      have h64 : j < 64 := by omega
      simp [creqNoSkip, ReqAddr.addr, BitVec.getLsbD_append, hj]
    · cases hs : c.missState <;> simp [creqNoSkip, hs]

theorem VTop.oreq_fromCache {s : VTop} {pins : Pins} (hv : (s.oreq pins).valid = true) :
    (s.oreq pins).FromCache := by
  rw [VTop.oreq, CBusArbiter.oreq] at hv ⊢
  split
  · rw [VTop.ireqs]
    split
    · exact Cache.creq_fromCache _ _
    · exact Cache.creq_fromCache _ _
  · rw [if_neg ‹_›] at hv
    cases hv

/-- A granted request is over with `last`, and the arbiter takes a cycle for the next. -/
theorem VTop.oreq_gap {s : VTop} {i : VTopIn} {pins : Pins} (hr : i.reset = false)
    (hv : (s.oreq i.pins).valid = true) (hl : i.oresp.last = true) :
    ((s.step i).oreq pins).valid = false := by
  have hb : s.mux.busy = true := by
    by_contra hb
    rw [VTop.oreq, CBusArbiter.oreq, if_neg hb] at hv
    cases hv
  have hb' : (s.step i).mux.busy = false := by
    simp [VTop.step, CBusArbiter.step, hr, hb, hl]
  simp [VTop.oreq, CBusArbiter.oreq, hb']

/-- The requests of `VTop` are those the wrapper is asked to serve, if each is held until
`last`. -/
theorem VTop.IsRun.requested {s : ℕ → VTop} {i : ℕ → VTopIn} (h : VTop.IsRun s i)
    {w : ℕ → BramWrapper}
    (hlast : ∀ t, (i t).oresp.last = (w t).last ((s t).oreq (i t).pins).port)
    (hheld : ∀ t, ((s t).oreq (i t).pins).valid = true → (i t).oresp.last = false →
      ((s (t + 1)).oreq (i (t + 1)).pins).SameRequest ((s t).oreq (i t).pins)) :
    BramWrapper.Requested w fun t => (s t).oreq (i t).pins where
  first := by
    obtain ⟨x, j, hj, hs⟩ := h.start
    rw [hs]
    simp [VTop.oreq, CBusArbiter.oreq, VTop.step, CBusArbiter.step, hj]
  fromCache _ := VTop.oreq_fromCache
  held t hv hl := hheld t hv ((hlast t).trans hl)
  gap t hv hl := by
    rw [h.next t]
    exact VTop.oreq_gap (Bool.eq_false_iff.mpr (h.noReset t)) hv ((hlast t).trans hl)

end Top

/-! ## A line and a word -/

/-- The read request `r` for five cycles, after one without a request. -/
def CbusReq.once (r : CbusReq) (t : ℕ) : CbusReq := if 1 ≤ t ∧ t ≤ 5 then r else 0

/-- The wrapper under that request, with the delay of the simulation. -/
def BramWrapper.serve (r : CbusReq) : ℕ → BramWrapper :=
  Sync.runFrom (fun w x => w.step true x.port false)
    ((⟨0, false, 0, ⟨fun _ => 0, 0⟩, false, false⟩ : BramWrapper).step true (0 : CbusReq).port true)
    r.once

/-- The refill of the first line, as the instruction cache asks for it. -/
def lineRead : CbusReq := ⟨true, false, .msize8, pcInit, 0, 0, mlen16, .wrap⟩

/-- An uncached read of one word. -/
def wordRead : CbusReq := ⟨true, false, .msize8, 0x40600008#64, 0, 0, mlen1, .fixed⟩

theorem serve_isRun (r : CbusReq) : BramWrapper.IsRun true (.serve r) r.once where
  start := ⟨⟨0, false, 0, ⟨fun _ => 0, 0⟩, false, false⟩, (true, 0), rfl, rfl⟩
  noReset _ := Bool.false_ne_true
  next _ := rfl

/-- The contract of a requester, for a request that is over by cycle five. -/
theorem once_requested {r : CbusReq} (hr : r.FromCache)
    (hcycles : ∀ t < 6, (r.once t).valid = true →
      ((BramWrapper.serve r t).last (r.once t).port = false ∧
        { r.once (t + 1) with data := (r.once t).data } = r.once t) ∨
      ((BramWrapper.serve r t).last (r.once t).port = true ∧ (r.once (t + 1)).valid = false)) :
    BramWrapper.Requested (.serve r) r.once := by
  have honce : ∀ {t}, (r.once t).valid = true → t < 6 ∧ r.once t = r := by
    intro t hv
    unfold CbusReq.once at hv ⊢
    split at hv
    · exact ⟨by omega, if_pos ‹_›⟩
    · cases hv
  refine ⟨rfl, fun t hv => ?_, fun t hv hl => ?_, fun t hv hl => ?_⟩
  · rw [(honce hv).2]
    exact hr
  · rcases hcycles t (honce hv).1 hv with ⟨_, hs⟩ | ⟨hl', _⟩
    · exact hs
    · rw [hl] at hl'
      cases hl'
  · rcases hcycles t (honce hv).1 hv with ⟨hl', _⟩ | ⟨_, hg⟩
    · rw [hl] at hl'
      cases hl'
    · exact hg

/-- The refill of a line is over after one beat of sixteen. -/
theorem lineRead_not_served :
    (SimTop.boot [] .low 2).top.oreq .low = lineRead ∧
    BramWrapper.IsRun true (.serve lineRead) lineRead.once ∧
    BramWrapper.Requested (.serve lineRead) lineRead.once ∧
    BramWrapper.beats (.serve lineRead) lineRead.once 1 6 = 1 ∧
    (BramWrapper.serve lineRead 5).last (lineRead.once 5).port = true ∧
    ¬∃ e, 0 < e ∧ BramWrapper.Served (.serve lineRead) lineRead.once 1 e := by
  have hlast : (BramWrapper.serve lineRead 5).last (lineRead.once 5).port = true := by
    decide +kernel
  refine ⟨by decide +kernel, serve_isRun lineRead,
    once_requested (.line rfl rfl rfl (by decide) rfl) (by decide +kernel), by decide +kernel,
    hlast, ?_⟩
  rintro ⟨e, he, hs⟩
  have hle : e ≤ 5 := by
    by_contra hgt
    have := (hs.last 5 (by decide) (by omega)).mp hlast
    omega
  have hcount : ∀ e ≤ 5, BramWrapper.beats (.serve lineRead) lineRead.once 1 (e + 1) ≠ 16 := by
    decide +kernel
  exact hcount e hle hs.count

theorem wordRead_served : ∃ e, 0 < e ∧ BramWrapper.Served (.serve wordRead) wordRead.once 1 e :=
  ((serve_isRun wordRead).served_iff
    (once_requested (.single rfl rfl rfl) (by decide +kernel)) rfl rfl).mpr rfl

end RiscvCpu
