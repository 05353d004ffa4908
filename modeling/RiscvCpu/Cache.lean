import RiscvCpu.Common

/-!
# The caches

`DCache.sv` and `ICache.sv` with the dual-port RAM of `RAM_TrueDualPort.sv`.
The two caches are one design: eight ways of 128-byte lines, replaced by tree
pseudo-LRU, write-back, refilled critical word first by a wrapping burst.  They
differ in the number of sets, in the test that keeps an uncached request from
missing, and in the handshake of an uncached request.  `Cache` is the common
part with the number of index bits as a parameter.

A request with bit 31 of its address clear is uncached.  It skips an idle cache
and goes to the bus as it is (`skip`).

The tag and select RAMs are read and written at the index of the request in the
same cycle, so they are functions of the index.  A word of the data RAM is
addressed by way, index and offset.
-/

namespace RiscvCpu

/-! ## Addresses -/

/-- `cache_addr_t`: a word of the data RAM. -/
structure CacheAddr (ib : Nat) where
  idx : BitVec 3
  index : BitVec ib
  offset : BitVec 4
deriving DecidableEq, Repr

/-- `req_addr_t` without its byte offset: a word of memory. -/
structure ReqAddr (ib : Nat) where
  tag : BitVec 18
  index : BitVec ib
  offset : BitVec 4
deriving DecidableEq, Repr

/-- `req_addr`: the used bits of an address. -/
def reqAddr (ib : Nat) (addr : BitVec 64) : ReqAddr ib :=
  ⟨addr.extractLsb' (7 + ib) 18, addr.extractLsb' 7 ib, addr.extractLsb' 3 4⟩

/-- The byte address of a word, `{0, tag, index, offset, 000}`. -/
def ReqAddr.addr {ib : Nat} (a : ReqAddr ib) : BitVec 64 :=
  (a.tag ++ a.index ++ a.offset ++ 0#3).setWidth 64

/-- Is bit 31 of an address set? -/
def isCached (addr : BitVec 64) : Bool := addr.getLsbD 31

/-! ## Registers -/

/-- `meta_t`. -/
structure Meta where
  valid : Bool
  dirty : Bool
deriving DecidableEq, Repr

/-- The values of `miss_state`. -/
inductive MissState where
  | idle
  | load
  | writeback
deriving DecidableEq, Repr

/-- The registers and RAMs of a cache. -/
structure Cache (ib : Nat) where
  tagRam : BitVec ib → BitVec 3 → BitVec 18
  selectRam : BitVec ib → BitVec 7
  metadata : BitVec ib → BitVec 3 → Meta
  dataRam : CacheAddr ib → BitVec 64
  /-- `reads_1` of the data RAM, `hit_rdata`. -/
  hitRdata : BitVec 64
  /-- `reads_2` of the data RAM, `miss_rdata`. -/
  missRdata : BitVec 64
  missState : MissState
  missAddr : CacheAddr ib
  creqAddr : ReqAddr ib
  missDataLoaded : BitVec 4 → Bool
  writebuffer : BitVec 4 → BitVec 64
  wbOffset : BitVec 4
  wbTag : BitVec 18
  wbMeta : Meta
  wbWen : Bool
  drespDataOk : Bool

/-! ## Byte strobes -/

/-- The bits a strobe enables: eight for each byte. -/
def strobeMask (strobe : BitVec 8) : BitVec 64 :=
  let lane (i : Nat) : BitVec 8 := if strobe.getLsbD i then 0xff#8 else 0#8
  lane 7 ++ lane 6 ++ lane 5 ++ lane 4 ++ lane 3 ++ lane 2 ++ lane 1 ++ lane 0

/-- `old` with the bytes `strobe` enables taken from `new`. -/
def mergeBytes (old new : BitVec 64) (strobe : BitVec 8) : BitVec 64 :=
  (old &&& ~~~strobeMask strobe) ||| (new &&& strobeMask strobe)

/-! ## Combinational signals -/

section Signals

variable {ib : Nat} (s : Cache ib) (dreq : DbusReq) (cresp : CbusResp)

/-- `skip`: an uncached request at an idle cache. -/
def Cache.skip : Bool := !isCached dreq.addr && dreq.valid && s.missState == .idle

/-- `hit_bits`. -/
def Cache.hitBits (w : BitVec 3) : Bool :=
  let a := reqAddr ib dreq.addr
  (s.metadata a.index w).valid && a.tag == s.tagRam a.index w

/-- `is_hit`. -/
def Cache.isHit : Bool :=
  let h := s.hitBits dreq
  h 0 || h 1 || h 2 || h 3 || h 4 || h 5 || h 6 || h 7

/-- `idx`: the number of the way that hits. -/
def Cache.idx : BitVec 3 :=
  let h := s.hitBits dreq
  BitVec.ofBool (h 4 || h 5 || h 6 || h 7) ++ BitVec.ofBool (h 2 || h 3 || h 6 || h 7) ++
    BitVec.ofBool (h 1 || h 3 || h 5 || h 7)

/-- `cache_addr`. -/
def Cache.cacheAddr : CacheAddr ib :=
  let a := reqAddr ib dreq.addr
  ⟨s.idx dreq, a.index, a.offset⟩

/-- The way the select bits point at. -/
def plruVictim (selects : BitVec 7) : BitVec 3 :=
  let b2 := !selects.getLsbD 6
  let b1 := if b2 then !selects.getLsbD 5 else !selects.getLsbD 4
  let b0 := !selects.getLsbD (2 * (!b2).toNat + (!b1).toNat)
  BitVec.ofBool b2 ++ BitVec.ofBool b1 ++ BitVec.ofBool b0

/-- `miss_idx`: the highest invalid way, or the pseudo-LRU way of a full set. -/
def Cache.missIdx : BitVec 3 :=
  let index := (reqAddr ib dreq.addr).index
  [0, 1, 2, 3, 4, 5, 6, 7].foldl
    (fun way i => if (s.metadata index i).valid then way else i) (plruVictim (s.selectRam index))

/-- `selects_nxt` of a hit in way `idx`. -/
def selectsNxt (selects : BitVec 7) (idx : BitVec 3) : BitVec 7 :=
  let i2 := idx.getLsbD 2
  let i1 := idx.getLsbD 1
  let i0 := idx.getLsbD 0
  let leaf (b2 b1 : Bool) (k : Nat) : Bool :=
    if i2 == b2 && i1 == b1 then i0 else selects.getLsbD k
  BitVec.ofBool i2 ++
    BitVec.ofBool (if i2 then selects.getLsbD 5 else i1) ++
    BitVec.ofBool (if i2 then i1 else selects.getLsbD 5) ++
    BitVec.ofBool (leaf false false 3) ++ BitVec.ofBool (leaf false true 2) ++
    BitVec.ofBool (leaf true false 1) ++ BitVec.ofBool (leaf true true 0)

/-- `fsm_in_miss`: the request is for the line named by the miss registers. -/
def Cache.fsmInMiss : Bool :=
  let a := reqAddr ib dreq.addr
  s.missState != .idle && a.tag == s.creqAddr.tag && s.missAddr.index == a.index

/-- `is_miss_data_loaded`. -/
def Cache.isMissDataLoaded : Bool :=
  !s.fsmInMiss dreq || s.missDataLoaded (reqAddr ib dreq.addr).offset

/-- `fsm_to_hit`. -/
def Cache.fsmToHit : Bool :=
  s.isHit dreq && !s.skip dreq && (dreq.valid && s.isMissDataLoaded dreq)

/-- The states in which a miss may start. -/
def Cache.missReady : Bool :=
  s.missState == .idle || (s.missState == .writeback && cresp.last)

/-- `creq_no_skip`: the burst of the miss registers. -/
def Cache.creqNoSkip : CbusReq where
  valid := s.missState != .idle
  isWrite := s.missState == .writeback
  size := .msize8
  addr := s.creqAddr.addr
  strobe := if s.missState = .writeback then 0xff#8 else 0
  data := s.writebuffer s.missAddr.offset
  len := mlen16
  burst := .wrap

/-- `creq_skip`: an uncached request as a burst of one beat. -/
def DbusReq.creqSkip (dreq : DbusReq) : CbusReq where
  valid := dreq.valid
  isWrite := dreq.strobe != 0
  size := dreq.size
  addr := dreq.addr
  strobe := dreq.strobe
  data := dreq.data
  len := mlen1
  burst := .fixed

/-- `creq`. -/
def Cache.creq : CbusReq := if s.skip dreq then dreq.creqSkip else s.creqNoSkip

variable {s dreq cresp}

theorem Cache.creq_of_skip (h : s.skip dreq = true) : s.creq dreq = dreq.creqSkip := by
  rw [creq, if_pos h]

theorem Cache.ne_idle_of_load (hs : s.missState = .load) : s.missState ≠ .idle := by
  rw [hs]
  simp

theorem Cache.ne_idle_of_writeback (hs : s.missState = .writeback) : s.missState ≠ .idle := by
  rw [hs]
  simp

/-- The cache drives the burst of its miss registers while it has one. -/
theorem Cache.creq_of_miss (hn : s.missState ≠ .idle) :
    s.creq dreq = s.creqNoSkip := by
  rw [creq, if_neg]
  simp [skip, hn]

/-- An idle cache passes on uncached requests alone. -/
theorem Cache.creq_of_idle (hs : s.missState = .idle) :
    (s.creq dreq).valid = true → s.creq dreq = dreq.creqSkip ∧ isCached dreq.addr = false := by
  unfold creq
  split
  · rename_i hk
    simp only [skip, Bool.and_eq_true, Bool.not_eq_true'] at hk
    exact fun _ => ⟨rfl, hk.1.1⟩
  · intro hv
    simp [creqNoSkip, hs] at hv

variable (s dreq cresp)

/-- `dresp`.  `skipAddrOk` accepts an uncached request. -/
def Cache.dresp (skipAddrOk : Bool) : DbusResp where
  addrOk := if s.skip dreq then skipAddrOk else s.isHit dreq && s.isMissDataLoaded dreq
  dataOk :=
    if s.skip dreq then cresp.last
    else s.drespDataOk && s.isHit dreq && s.isMissDataLoaded dreq
  data := if s.skip dreq then cresp.data else s.hitRdata

variable {s dreq}

/-- An uncached request is answered by the bus. -/
theorem Cache.dresp_of_skip (h : s.skip dreq = true) (b : Bool) :
    s.dresp dreq cresp b = ⟨b, cresp.last, cresp.data⟩ := by
  simp [dresp, h]

end Signals

/-! ## The clock edge -/

section Step

variable {ib : Nat} (s : Cache ib) (dreq : DbusReq) (cresp : CbusResp) (fsmToMiss : Bool)

/-- `tags_nxt`, `metadatai_nxt` and `selects_nxt` written back at the index of the
request. -/
def Cache.tagRamNxt : BitVec ib → BitVec 3 → BitVec 18 :=
  let a := reqAddr ib dreq.addr
  if !s.fsmToHit dreq && fsmToMiss then
    Function.update s.tagRam a.index
      (Function.update (s.tagRam a.index) (s.missIdx dreq) a.tag)
  else s.tagRam

/-- `metadata` after the edge.  A store that hits dirties its way, and a miss
makes its victim valid and clean. -/
def Cache.metadataNxt : BitVec ib → BitVec 3 → Meta :=
  let a := reqAddr ib dreq.addr
  if s.fsmToHit dreq then
    if dreq.strobe != 0 then
      Function.update s.metadata a.index
        (Function.update (s.metadata a.index) (s.idx dreq)
          ⟨(s.metadata a.index (s.idx dreq)).valid, true⟩)
    else s.metadata
  else if fsmToMiss then
    Function.update s.metadata a.index
      (Function.update (s.metadata a.index) (s.missIdx dreq) ⟨true, false⟩)
  else s.metadata

/-- `select_ram` after the edge. -/
def Cache.selectRamNxt : BitVec ib → BitVec 7 :=
  let a := reqAddr ib dreq.addr
  if s.fsmToHit dreq then
    Function.update s.selectRam a.index (selectsNxt (s.selectRam a.index) (s.idx dreq))
  else s.selectRam

/-- The data RAM after the edge.  Port 1 writes a store that hits, port 2 a beat
of the refill.  Port 2 wins where both write. -/
def Cache.dataRamNxt : CacheAddr ib → BitVec 64 := fun x =>
  let port1 :=
    if s.fsmToHit dreq && x = s.cacheAddr dreq then mergeBytes (s.dataRam x) dreq.data dreq.strobe
    else s.dataRam x
  if s.missState == .load && cresp.ready && x = s.missAddr then mergeBytes port1 cresp.data 0xff#8
  else port1

/-- The miss registers loaded by `fsm_to_miss`. -/
def Cache.startMiss : Cache ib :=
  let a := reqAddr ib dreq.addr
  { s with
    missState := .load
    creqAddr := a
    missAddr := ⟨s.missIdx dreq, a.index, a.offset⟩
    missDataLoaded := fun _ => false
    wbMeta := s.metadata a.index (s.missIdx dreq)
    wbTag := s.tagRam a.index (s.missIdx dreq) }

/-- `miss_addr` moved to the next word of the line. -/
def CacheAddr.next (x : CacheAddr ib) : CacheAddr ib := { x with offset := x.offset + 1 }

/-- The miss state machine without `fsm_to_miss`. -/
def Cache.missFsm : Cache ib :=
  match s.missState with
  | .load =>
    { s with
      wbWen := cresp.ready
      wbOffset := s.missAddr.offset
      missAddr := if cresp.ready then s.missAddr.next else s.missAddr
      missDataLoaded :=
        if cresp.ready then Function.update s.missDataLoaded s.missAddr.offset true
        else s.missDataLoaded
      missState :=
        if cresp.last then
          if s.wbMeta.valid && s.wbMeta.dirty then .writeback else .idle
        else .load
      creqAddr := if cresp.last then { s.creqAddr with tag := s.wbTag } else s.creqAddr }
  | .writeback =>
    { s with
      wbWen := false
      missAddr := if cresp.ready then s.missAddr.next else s.missAddr
      missState := if cresp.last then .idle else .writeback }
  | .idle => s

/-- The clock edge of a cache.  The RAMs are not reset. -/
def Cache.step (reset : Bool) : Cache ib :=
  let fsm := s.missFsm cresp
  -- the assignments of `fsm_to_miss` stand last and win
  let fsm := if fsmToMiss then { s.startMiss dreq with wbWen := fsm.wbWen, wbOffset := fsm.wbOffset }
    else fsm
  let fsm : Cache ib :=
    if reset then
      { s with
        drespDataOk := false
        missState := .idle
        missAddr := ⟨0, 0, 0⟩
        missDataLoaded := fun _ => false
        wbTag := 0
        wbMeta := ⟨false, false⟩
        wbWen := false
        wbOffset := 0 }
    else
      { fsm with
        drespDataOk := if s.drespDataOk then false else s.fsmToHit dreq
        writebuffer :=
          if s.wbWen then Function.update s.writebuffer s.wbOffset s.missRdata
          else s.writebuffer }
  { fsm with
    tagRam := s.tagRamNxt dreq fsmToMiss
    selectRam := s.selectRamNxt dreq
    metadata := if reset then fun _ _ => ⟨false, false⟩ else s.metadataNxt dreq fsmToMiss
    dataRam := s.dataRamNxt dreq cresp
    hitRdata := s.dataRam (s.cacheAddr dreq)
    missRdata := s.dataRam s.missAddr }

end Step

/-! ## The data cache -/

/-- `DCache`. -/
abbrev DCache := Cache 8

/-- `fsm_to_miss` of `DCache`. -/
def DCache.fsmToMiss (s : DCache) (dreq : DbusReq) (cresp : CbusResp) : Bool :=
  !s.isHit dreq && !(!isCached dreq.addr && dreq.valid) && dreq.valid && s.missReady cresp

/-- `dresp` of `DCache`. -/
def DCache.dresp (s : DCache) (dreq : DbusReq) (cresp : CbusResp) : DbusResp :=
  Cache.dresp s dreq cresp cresp.ready

/-- The clock edge of `DCache`. -/
def DCache.step (s : DCache) (reset : Bool) (dreq : DbusReq) (cresp : CbusResp) : DCache :=
  Cache.step s dreq cresp (DCache.fsmToMiss s dreq cresp) reset

/-! ## The instruction cache -/

/-- `ICache`. -/
abbrev ICache := Cache 7

/-- `fsm_to_miss` of `ICache`.  The uncached test is `skip`, which asks for an idle
cache as well. -/
def ICache.fsmToMiss (s : ICache) (ireq : IbusReq) (cresp : CbusResp) : Bool :=
  !s.isHit ireq.toDreq && !s.skip ireq.toDreq && ireq.valid && s.missReady cresp

/-- `creq` of `ICache`. -/
def ICache.creq (s : ICache) (ireq : IbusReq) : CbusReq := Cache.creq s ireq.toDreq

/-- `iresp` of `ICache`. -/
def ICache.iresp (s : ICache) (ireq : IbusReq) (cresp : CbusResp) : IbusResp :=
  (Cache.dresp s ireq.toDreq cresp cresp.last).toIresp ireq

/-- The clock edge of `ICache`. -/
def ICache.step (s : ICache) (reset : Bool) (ireq : IbusReq) (cresp : CbusResp) : ICache :=
  Cache.step s ireq.toDreq cresp (ICache.fsmToMiss s ireq cresp) reset

end RiscvCpu
