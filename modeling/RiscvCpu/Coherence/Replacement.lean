import RiscvCpu.Coherence.Reachable

/-!
# Replacement

Tree pseudo-LRU keeps at each node of a tree over the ways of a set the side of the most
recent access below it, and gives away the way reached by going to the other side.  Here
this is stated for a history of accesses (`treeVictim`), and compared with the select bits
of the caches.

The bit of the lower second-level node is looked at when the upper half is to be replaced,
and the bit of the upper one for the lower half, since the two indices are crossed in
`miss_idx`.  What the caches go by at the second level is the most recent access of all
(`plruVictim_selectsAfter`).
-/

namespace RiscvCpu

/-! ## Trees over a history -/

/-- At a node with the ways of `p` below it: the side, by bit `k`, away from the most
recent access below the node, and side 1 without one. -/
def away (accesses : List (BitVec 3)) (p : BitVec 3 → Bool) (k : Nat) : Bool :=
  match accesses.find? p with
  | some w => !w.getLsbD k
  | none => true

/-- The leaf below the second-level node `b2` and its child `b1`. -/
def leafOf (accesses : List (BitVec 3)) (b2 b1 : Bool) : BitVec 3 :=
  BitVec.ofBool b2 ++ BitVec.ofBool b1 ++
    BitVec.ofBool (away accesses (fun w => w.getLsbD 2 == b2 && w.getLsbD 1 == b1) 0)

/-- The victim of tree pseudo-LRU after some accesses, the most recent one first. -/
def treeVictim (accesses : List (BitVec 3)) : BitVec 3 :=
  let b2 := away accesses (fun _ => true) 2
  leafOf accesses b2 (away accesses (fun w => w.getLsbD 2 == b2) 1)

/-- The most recent access and the most recent one in the other half lie on the same side
of their second-level nodes, side 0 where there has been none. -/
def SidesAgree : List (BitVec 3) → Prop
  | [] => True
  | w :: accesses =>
    match accesses.find? (fun v => v.getLsbD 2 != w.getLsbD 2) with
    | some v => v.getLsbD 1 = w.getLsbD 1
    | none => w.getLsbD 1 = false

instance SidesAgree.instDecidable : ∀ accesses, Decidable (SidesAgree accesses)
  | [] => .isTrue trivial
  | w :: accesses =>
    match h : accesses.find? (fun v => v.getLsbD 2 != w.getLsbD 2) with
    | some v => decidable_of_iff (v.getLsbD 1 = w.getLsbD 1) (by rw [SidesAgree, h])
    | none => decidable_of_iff (w.getLsbD 1 = false) (by rw [SidesAgree, h])

/-! ## The select bits -/

/-- The select bits of a set after some hits, the most recent one first. -/
def selectsAfter : List (BitVec 3) → BitVec 7
  | [] => 0
  | w :: hits => selectsNxt (selectsAfter hits) w

section Selects

variable {hits : List (BitVec 3)} {w : BitVec 3}

theorem away_cons (p : BitVec 3 → Bool) (k : Nat) :
    away (w :: hits) p k = if p w then !w.getLsbD k else away hits p k := by
  rw [away, List.find?_cons]
  cases p w <;> rfl

theorem away_root (k : Nat) : away (w :: hits) (fun _ => true) k = !w.getLsbD k := rfl

/-- The bits of the nodes after a hit.  That of node 4 is taken from node 5 by a hit in
the lower half. -/
theorem selectsNxt_bits : ∀ (selects : BitVec 7) (w : BitVec 3),
    (selectsNxt selects w).getLsbD 6 = w.getLsbD 2 ∧
    (selectsNxt selects w).getLsbD 5 = (if w.getLsbD 2 then selects.getLsbD 5 else w.getLsbD 1) ∧
    (selectsNxt selects w).getLsbD 4 = (if w.getLsbD 2 then w.getLsbD 1 else selects.getLsbD 5) ∧
    ∀ b2 b1 : Bool, (selectsNxt selects w).getLsbD (2 * (!b2).toNat + (!b1).toNat) =
      if w.getLsbD 2 == b2 && w.getLsbD 1 == b1 then w.getLsbD 0
      else selects.getLsbD (2 * (!b2).toNat + (!b1).toNat) := by
  decide +kernel

/-- A repeated access is as good as one. -/
theorem away_replicate (n : ℕ) (p : BitVec 3 → Bool) (k : Nat) :
    away (List.replicate (n + 1) w ++ hits) p k = away (w :: hits) p k := by
  induction n with
  | zero => rfl
  | succ n ih =>
    rw [List.replicate_succ, List.cons_append, away_cons, ih, away_cons]
    cases p w <;> rfl

/-- The root. -/
theorem selectsAfter_root (hits : List (BitVec 3)) :
    (selectsAfter hits).getLsbD 6 = !away hits (fun _ => true) 2 := by
  cases hits with
  | nil => rfl
  | cons w hits => rw [selectsAfter, (selectsNxt_bits _ w).1, away_root, Bool.not_not]

/-- The node of the lower half. -/
theorem selectsAfter_lower (hits : List (BitVec 3)) :
    (selectsAfter hits).getLsbD 5 = !away hits (fun w => !w.getLsbD 2) 1 := by
  induction hits with
  | nil => rfl
  | cons w hits ih =>
    rw [selectsAfter, (selectsNxt_bits _ w).2.1, away_cons, ih]
    cases w.getLsbD 2 <;> simp

/-- The nodes of the pairs. -/
theorem selectsAfter_pair (hits : List (BitVec 3)) (b2 b1 : Bool) :
    (selectsAfter hits).getLsbD (2 * (!b2).toNat + (!b1).toNat) =
      !away hits (fun w => w.getLsbD 2 == b2 && w.getLsbD 1 == b1) 0 := by
  induction hits with
  | nil => cases b2 <;> cases b1 <;> rfl
  | cons w hits ih =>
    rw [selectsAfter, (selectsNxt_bits _ w).2.2.2, away_cons, ih]
    split <;> simp

/-- The victim by the select bits goes away from the most recent hit at the second level
too. -/
theorem plruVictim_selectsAfter (hits : List (BitVec 3)) :
    plruVictim (selectsAfter hits) =
      leafOf hits (away hits (fun _ => true) 2) (away hits (fun _ => true) 1) := by
  have hside : (if away hits (fun _ => true) 2 then !(selectsAfter hits).getLsbD 5
      else !(selectsAfter hits).getLsbD 4) = away hits (fun _ => true) 1 := by
    cases hits with
    | nil => rfl
    | cons w hits =>
      rw [selectsAfter_lower, selectsAfter, (selectsNxt_bits _ w).2.2.1, away_root, away_root,
        away_cons]
      cases w.getLsbD 2 <;> simp
  rw [plruVictim, selectsAfter_root, Bool.not_not, hside, selectsAfter_pair, Bool.not_not]
  rfl

/-- It depends on the sides of the nodes alone. -/
theorem plruVictim_congr {hits' : List (BitVec 3)} (h : ∀ p k, away hits p k = away hits' p k) :
    plruVictim (selectsAfter hits) = plruVictim (selectsAfter hits') := by
  simp only [plruVictim_selectsAfter, leafOf, h]

theorem ofBools_bits : ∀ b2 b1 b0 : Bool,
    (BitVec.ofBool b2 ++ BitVec.ofBool b1 ++ BitVec.ofBool b0).getLsbD 2 = b2 ∧
    (BitVec.ofBool b2 ++ BitVec.ofBool b1 ++ BitVec.ofBool b0).getLsbD 1 = b1 ∧
    (BitVec.ofBool b2 ++ BitVec.ofBool b1 ++ BitVec.ofBool b0).getLsbD 0 = b0 := by
  decide

/-- Leaves differ where their parents do. -/
theorem leafOf_inj {b2 b1 b1' : Bool} : leafOf hits b2 b1 = leafOf hits b2 b1' ↔ b1 = b1' := by
  constructor
  · intro h
    have hbit := congrArg (fun x : BitVec 3 => x.getLsbD 1) h
    simp only [leafOf, (ofBools_bits _ _ _).2.1] at hbit
    exact hbit
  · rintro rfl
    rfl

/-- The select bits name the victim of the tree if and only if the sides agree. -/
theorem plruVictim_eq_iff (hits : List (BitVec 3)) :
    plruVictim (selectsAfter hits) = treeVictim hits ↔ SidesAgree hits := by
  rw [plruVictim_selectsAfter, treeVictim, leafOf_inj]
  cases hits with
  | nil => exact ⟨fun _ => trivial, fun _ => rfl⟩
  | cons w hits =>
    have hhalf : (fun v : BitVec 3 => v.getLsbD 2 == !w.getLsbD 2) =
        fun v => v.getLsbD 2 != w.getLsbD 2 := by
      funext v
      cases v.getLsbD 2 <;> cases w.getLsbD 2 <;> rfl
    have hself : (w.getLsbD 2 == !w.getLsbD 2) = false := by
      cases w.getLsbD 2 <;> rfl
    simp only [away_cons, if_true]
    rw [hself, if_neg Bool.false_ne_true, hhalf, away, SidesAgree]
    cases hits.find? (fun v => v.getLsbD 2 != w.getLsbD 2) with
    | none => simp
    | some v => simp [eq_comm]

/-- Two misses later the victim lies in the same pair again, on its other side. -/
theorem plruVictim_twice {v v' : BitVec 3} (hv' : v' = plruVictim (selectsAfter (v :: hits))) :
    plruVictim (selectsAfter (v' :: v :: hits)) =
      BitVec.ofBool (v.getLsbD 2) ++ BitVec.ofBool (v.getLsbD 1) ++ BitVec.ofBool (!v.getLsbD 0) := by
  have hbits : v'.getLsbD 2 = !v.getLsbD 2 ∧ v'.getLsbD 1 = !v.getLsbD 1 := by
    rw [hv', plruVictim_selectsAfter, leafOf, away_root, away_root]
    exact ⟨(ofBools_bits _ _ _).1, (ofBools_bits _ _ _).2.1⟩
  have hpair : (v'.getLsbD 2 == v.getLsbD 2 && v'.getLsbD 1 == v.getLsbD 1) = false := by
    rw [hbits.1]
    cases v.getLsbD 2 <;> rfl
  have hself : (v.getLsbD 2 == v.getLsbD 2 && v.getLsbD 1 == v.getLsbD 1) = true := by
    rw [beq_self_eq_true, beq_self_eq_true]
    rfl
  rw [plruVictim_selectsAfter, leafOf, away_root, away_root, hbits.1, hbits.2, Bool.not_not,
    Bool.not_not, away_cons, hpair, if_neg Bool.false_ne_true, away_cons, hself, if_pos rfl]

/-- A way from its bits. -/
theorem ofBools_getLsbD : ∀ v : BitVec 3,
    BitVec.ofBool (v.getLsbD 2) ++ BitVec.ofBool (v.getLsbD 1) ++ BitVec.ofBool (v.getLsbD 0) = v := by
  decide

/-- Four misses later it is the same way. -/
theorem plruVictim_fifth {v0 v1 v2 v3 : BitVec 3} (h1 : v1 = plruVictim (selectsAfter (v0 :: hits)))
    (h2 : v2 = plruVictim (selectsAfter (v1 :: v0 :: hits)))
    (h3 : v3 = plruVictim (selectsAfter (v2 :: v1 :: v0 :: hits))) :
    plruVictim (selectsAfter (v3 :: v2 :: v1 :: v0 :: hits)) = v0 := by
  rw [plruVictim_twice h1] at h2
  have hbits := ofBools_bits (v0.getLsbD 2) (v0.getLsbD 1) (!v0.getLsbD 0)
  rw [← h2] at hbits
  rw [plruVictim_twice h3, hbits.1, hbits.2.1, hbits.2.2, Bool.not_not, ofBools_getLsbD]

end Selects

/-! ## Runs -/

section Runs

variable {ib : Nat}

/-- The hits in a set before cycle `t`, the most recent one first. -/
def Cache.hitsIn (s : ℕ → Cache ib) (dreq : ℕ → DbusReq) (index : BitVec ib) : ℕ → List (BitVec 3)
  | 0 => []
  | t + 1 =>
    if (s t).fsmToHit (dreq t) = true ∧ (reqAddr ib (dreq t).addr).index = index then
      (s t).idx (dreq t) :: hitsIn s dreq index t
    else hitsIn s dreq index t

/-- All ways of a set are valid. -/
def Cache.Full (s : Cache ib) (index : BitVec ib) : Prop := ∀ w, (s.metadata index w).valid = true

/-- `s` runs since power-up as far as the select RAM is concerned. -/
structure Cache.SelectsRun (s : ℕ → Cache ib) (dreq : ℕ → DbusReq) : Prop where
  powerUp : ∀ index, (s 0).selectRam index = 0
  next : ∀ t, (s (t + 1)).selectRam = (s t).selectRamNxt (dreq t)

/-- How a cache replaces. -/
structure Cache.Replaces (s : ℕ → Cache ib) (dreq : ℕ → DbusReq) : Prop where
  /-- The victim of a full set is that of the tree if and only if the sides agree. -/
  victim : ∀ t (d : DbusReq), (s t).Full (reqAddr ib d.addr).index →
    ((s t).missIdx d = treeVictim (hitsIn s dreq (reqAddr ib d.addr).index t) ↔
      SidesAgree (hitsIn s dreq (reqAddr ib d.addr).index t))
  /-- The fifth of consecutive misses, each followed only by hits on the line it brought in,
  one or more, evicts the line of the first. -/
  fifth : ∀ (index : BitVec ib) (T : ℕ → ℕ) (d : ℕ → DbusReq),
    (∀ j ≤ 4, (reqAddr ib (d j).addr).index = index ∧ (s (T j)).Full index) →
    (∀ j < 4, ∃ n, hitsIn s dreq index (T (j + 1)) =
      List.replicate (n + 1) ((s (T j)).missIdx (d j)) ++ hitsIn s dreq index (T j)) →
    (s (T 4)).missIdx (d 4) = (s (T 0)).missIdx (d 0)

variable {s : ℕ → Cache ib} {dreq : ℕ → DbusReq}

theorem Cache.SelectsRun.selectRam (h : Cache.SelectsRun s dreq) (index : BitVec ib) (t : ℕ) :
    (s t).selectRam index = selectsAfter (hitsIn s dreq index t) := by
  induction t with
  | zero => exact h.powerUp index
  | succ t ih =>
    rw [h.next t, selectRamNxt, hitsIn]
    cases hh : (s t).fsmToHit (dreq t) with
    | false =>
      rw [if_neg Bool.false_ne_true, if_neg fun hc => Bool.false_ne_true hc.1]
      exact ih
    | true =>
      rw [if_pos rfl]
      by_cases hi : (reqAddr ib (dreq t).addr).index = index
      · subst hi
        rw [if_pos ⟨rfl, rfl⟩, Function.update_self, ih]
        rfl
      · rw [if_neg fun hc => hi hc.2, Function.update_of_ne (Ne.symm hi)]
        exact ih

/-- In a full set the select bits choose the victim. -/
theorem Cache.missIdx_of_full {s : Cache ib} {d : DbusReq} (h : s.Full (reqAddr ib d.addr).index) :
    s.missIdx d = plruVictim (s.selectRam (reqAddr ib d.addr).index) := by
  simp only [missIdx, List.foldl_cons, List.foldl_nil, h _, if_true]

theorem Cache.SelectsRun.replaces (h : Cache.SelectsRun s dreq) : Cache.Replaces s dreq where
  victim t d hfull := by
    rw [missIdx_of_full hfull, h.selectRam]
    exact plruVictim_eq_iff _
  fifth index T d hd hhits := by
    have hv : ∀ j ≤ 4,
        (s (T j)).missIdx (d j) = plruVictim (selectsAfter (hitsIn s dreq index (T j))) := by
      intro j hj
      obtain ⟨hindex, hfull⟩ := hd j hj
      rw [missIdx_of_full (by rw [hindex]; exact hfull), hindex, h.selectRam]
    -- the hits after a miss count as one
    have hone : ∀ j < 4, ∀ hits, (∀ p k, away (hitsIn s dreq index (T j)) p k = away hits p k) →
        ∀ p k, away (hitsIn s dreq index (T (j + 1))) p k =
          away ((s (T j)).missIdx (d j) :: hits) p k := by
      intro j hj hits hsame p k
      obtain ⟨n, hn⟩ := hhits j hj
      rw [hn, away_replicate, away_cons, away_cons, hsame]
    have a1 := hone 0 (by decide) _ fun _ _ => rfl
    have a2 := hone 1 (by decide) _ a1
    have a3 := hone 2 (by decide) _ a2
    have a4 := hone 3 (by decide) _ a3
    have h1 := (hv 1 (by decide)).trans (plruVictim_congr a1)
    have h2 := (hv 2 (by decide)).trans (plruVictim_congr a2)
    have h3 := (hv 3 (by decide)).trans (plruVictim_congr a3)
    have h4 := (hv 4 (by decide)).trans (plruVictim_congr a4)
    exact h4.trans (plruVictim_fifth h1 h2 h3)

end Runs

/-- `s` runs from power-up, with the select RAM clear, under any inputs. -/
structure DCache.FromPowerUp (s : ℕ → DCache) (i : ℕ → DCacheIn) : Prop where
  powerUp : ∀ index, (s 0).selectRam index = 0
  next : ∀ t, s (t + 1) = DCache.next (s t) (i t)

/-- `s` runs from power-up, with the select RAM clear, under any inputs. -/
structure ICache.FromPowerUp (s : ℕ → ICache) (i : ℕ → ICacheIn) : Prop where
  powerUp : ∀ index, (s 0).selectRam index = 0
  next : ∀ t, s (t + 1) = ICache.next (s t) (i t)

/-- Both caches name the victim of the tree if and only if the sides agree, and evict the
same way again with the fifth of consecutive misses. -/
theorem Cache.replaces_iff {s : ℕ → DCache} {i : ℕ → DCacheIn} {s' : ℕ → ICache}
    {i' : ℕ → ICacheIn} (h : DCache.FromPowerUp s i) (h' : ICache.FromPowerUp s' i') :
    (Cache.Replaces s fun t => (i t).dreq) ∧ Cache.Replaces s' fun t => (i' t).ireq.toDreq := by
  constructor
  · refine Cache.SelectsRun.replaces ⟨h.powerUp, fun t => ?_⟩
    rw [h.next t]
    rfl
  · refine Cache.SelectsRun.replaces ⟨h'.powerUp, fun t => ?_⟩
    rw [h'.next t]
    rfl

/-! ## Filling a set -/

/-- The line asked for in a cycle: eight lines after another, the first of them again, and
then a ninth. -/
def fillLine (t : ℕ) : ℕ := if t < 136 then t / 17 else if t = 136 then 0 else 8

/-- The answers of the bus: a miss, then sixteen beats. -/
def fillResp (t : ℕ) : CbusResp :=
  if t % 17 = 0 then ⟨false, false, 0⟩ else ⟨true, t % 17 == 16, 0⟩

/-- Loads from eight lines of a set and from a ninth. -/
def fillLoads (t : ℕ) : DCacheIn :=
  ⟨false, ⟨true, BitVec.ofNat 64 (0x80000000 + fillLine t * 0x8000), .msize8, 0, 0⟩, fillResp t⟩

/-- Fetches from eight lines of a set and from a ninth. -/
def fillFetches (t : ℕ) : ICacheIn :=
  ⟨false, ⟨true, BitVec.ofNat 64 (0x80000000 + fillLine t * 0x4000)⟩, fillResp t⟩

instance Cache.Full.instDecidable {ib : Nat} (s : Cache ib) (index : BitVec ib) :
    Decidable (s.Full index) := inferInstanceAs (Decidable (∀ _, _))

theorem fillLoads_fromPowerUp : DCache.FromPowerUp (DCache.runOf fillLoads) fillLoads :=
  ⟨fun _ => rfl, fun _ => rfl⟩

theorem fillFetches_fromPowerUp : ICache.FromPowerUp (ICache.runOf fillFetches) fillFetches :=
  ⟨fun _ => rfl, fun _ => rfl⟩

/-- With a second load from the first line, in way 7, the most recent access below the
root is on side 1 of its node, and the most recent one in the other half, in way 0, on
side 0.  The tree gives way 3 away, the cache way 1. -/
theorem fillLoads_victim :
    DCache.FromPowerUp (DCache.runOf fillLoads) fillLoads ∧
    Cache.Full (DCache.runOf fillLoads 137) 0 ∧
    (DCache.runOf fillLoads 137).missIdx (fillLoads 137).dreq = 1 ∧
    treeVictim (Cache.hitsIn (DCache.runOf fillLoads) (fun t => (fillLoads t).dreq) 0 137) = 3 := by
  refine ⟨fillLoads_fromPowerUp, ?_, ?_, ?_⟩
  · decide +kernel
  · decide +kernel
  · decide +kernel

/-- Loads from one line of a set after another. -/
def missLoads (t : ℕ) : DCacheIn :=
  ⟨false, ⟨true, BitVec.ofNat 64 (0x80000000 + t / 17 * 0x8000), .msize8, 0, 0⟩, fillResp t⟩

/-- Their run from a power-up with the sets full of other lines. -/
def missRun : ℕ → DCache :=
  Sync.runFrom DCache.next
    { Cache.clear 8 with
      metadata := fun _ _ => ⟨true, false⟩
      tagRam := fun _ w => 0x100#18 + w.setWidth 18 }
    missLoads

theorem missRun_fromPowerUp : DCache.FromPowerUp missRun missLoads :=
  ⟨fun _ => rfl, fun _ => rfl⟩

/-- Before that load the most recent accesses, in ways 0 and 4, lie on one side, and the
ninth line would have gone where the tree wants it, in either cache.  Of five misses in a full
set, each with fifteen hits behind it, the last evicts the line of the first. -/
theorem fill_replaces :
    (DCache.runOf fillLoads 136).missIdx (fillLoads 137).dreq =
      treeVictim (Cache.hitsIn (DCache.runOf fillLoads) (fun t => (fillLoads t).dreq) 0 136) ∧
    (ICache.runOf fillFetches 136).missIdx (fillFetches 137).ireq.toDreq =
      treeVictim (Cache.hitsIn (ICache.runOf fillFetches)
        (fun t => (fillFetches t).ireq.toDreq) 0 136) ∧
    (missRun 68).missIdx (missLoads 68).dreq = (missRun 0).missIdx (missLoads 0).dreq := by
  obtain ⟨hd, hi⟩ := Cache.replaces_iff fillLoads_fromPowerUp fillFetches_fromPowerUp
  obtain ⟨hm, _⟩ := Cache.replaces_iff missRun_fromPowerUp fillFetches_fromPowerUp
  refine ⟨(hd.victim 136 (fillLoads 137).dreq (by decide +kernel)).mpr (by decide +kernel),
    (hi.victim 136 (fillFetches 137).ireq.toDreq (by decide +kernel)).mpr (by decide +kernel),
    hm.fifth 0 (fun j => 17 * j) (fun j => (missLoads (17 * j)).dreq) ?_ fun j hj => ⟨14, ?_⟩⟩
  · decide +kernel
  · revert j
    decide +kernel

end RiscvCpu
