import RiscvCpu.Lossless

/-!
# Records in program order

Every fetched word that enters the pipeline is tagged with the cycle in which it
does, and its record carries the tag from register to register (`Tags.step`).  The
tag is a name for the instruction and its place in program order.

As long as no record is lost (`Core.Lossless`), older instructions stand further down
the pipeline, one that has left its front never returns, and one that is not flushed
reaches write-back before the younger ones do.
-/

namespace RiscvCpu

instance Tags.instZero : Zero (Option ℕ) := ⟨none⟩

/-- The tags of the records in the pipeline registers, `none` for a bubble. -/
structure Tags where
  fd : Option ℕ
  de : Option ℕ
  em : Option ℕ
  dataM1 : Option ℕ
  mw : Option ℕ
deriving DecidableEq, Repr

/-- Every register holds a bubble. -/
def Tags.empty : Tags := ⟨none, none, none, none, none⟩

/-- The tags after cycle `now`.  They move with the enables of the registers. -/
def Tags.step (g : Tags) (c : Core) (i : CoreIn) (now : ℕ) : Tags where
  fd := pipereg (c.pipeReset i) (c.regflushEn i).fd (!(c.regstallEn i).fd) (some now) g.fd
  de := pipereg (c.pipeReset i) (c.regflushEn i).de (!(c.regstallEn i).de) g.fd g.de
  em := pipereg (c.pipeReset i) (c.regflushEn i).em (!(c.regstallEn i).em) g.de g.em
  dataM1 :=
    if c.pipeReset i then none
    else if c.memory.keeps c.em (c.csrFlush i.pins) i.dresp then g.dataM1
    else g.em
  mw := pipereg (c.pipeReset i) (c.regflushEn i).mw (!(c.regstallEn i).mw) g.dataM1 g.mw

/-- The tags of a run. -/
def Core.tags (s : ℕ → Core) (i : ℕ → CoreIn) : ℕ → Tags
  | 0 => .empty
  | t + 1 => (tags s i t).step (s t) (i t) t

/-! ## What a tag names -/

section Named

variable {s : ℕ → Core} {i : ℕ → CoreIn} {t : ℕ}

/-- The word `d` is the one that entered the pipeline in the cycle of the tag. -/
def Core.Named (s : ℕ → Core) (i : ℕ → CoreIn) (tag : Option ℕ) (d : FetchData) : Prop :=
  (tag = none → d = 0) ∧
    ∀ n, tag = some n → (s n).Captures (i n) ∧ d = (s n).dataF (i n)

theorem Core.named_bubble : Named s i none 0 := ⟨fun _ => rfl, fun _ h => by cases h⟩

theorem Core.Named.pipereg {tin tout : Option ℕ} {din dout : FetchData} {r f e : Bool}
    (hin : Named s i tin din) (hout : Named s i tout dout) :
    Named s i (pipereg r f e tin tout) (pipereg r f e din dout) := by
  cases r with
  | true => exact named_bubble
  | false =>
    cases e with
    | false => exact hout
    | true =>
      cases f with
      | true => exact named_bubble
      | false => exact hin

/-- Every record carries the word its tag names. -/
structure Core.TagsOk (s : ℕ → Core) (i : ℕ → CoreIn) (t : ℕ) : Prop where
  fd : Named s i (tags s i t).fd (s t).fd
  de : Named s i (tags s i t).de (s t).de.pcAndInstr
  em : Named s i (tags s i t).em (s t).em.pcAndInstr
  dataM1 : Named s i (tags s i t).dataM1 (s t).memory.dataM1.pcAndInstr
  mw : Named s i (tags s i t).mw (s t).mw.pcAndInstr

theorem Core.pcAndInstr_de (c : Core) (j : CoreIn) :
    (c.step j).de.pcAndInstr = pipereg (c.pipeReset j) (c.regflushEn j).de
      (!(c.regstallEn j).de) c.fd c.de.pcAndInstr := by
  simp only [step, pipereg]
  split_ifs <;> rfl

theorem Core.pcAndInstr_em (c : Core) (j : CoreIn) :
    (c.step j).em.pcAndInstr = pipereg (c.pipeReset j) (c.regflushEn j).em
      (!(c.regstallEn j).em) c.de.pcAndInstr c.em.pcAndInstr := by
  simp only [step, pipereg]
  split_ifs <;> rfl

theorem Core.pcAndInstr_mw (c : Core) (j : CoreIn) :
    (c.step j).mw.pcAndInstr = pipereg (c.pipeReset j) (c.regflushEn j).mw
      (!(c.regstallEn j).mw) c.memory.dataM1.pcAndInstr c.mw.pcAndInstr := by
  simp only [step, pipereg]
  split_ifs <;> rfl

theorem Core.TagsOk.step_fd (h : TagsOk s i t) :
    Named s i ((tags s i t).step (s t) (i t) t).fd ((s t).step (i t)).fd := by
  cases hr : (s t).pipeReset (i t) with
  | true =>
    simp only [Tags.step, Core.step, hr, pipereg_reset]
    exact named_bubble
  | false =>
    cases he : ((s t).regstallEn (i t)).fd with
    | true => simpa [Tags.step, Core.step, hr, he] using h.fd
    | false =>
      cases hf : ((s t).regflushEn (i t)).fd with
      | true =>
        simp only [Tags.step, Core.step, hr, he, hf, Bool.not_false, pipereg_flush]
        exact named_bubble
      | false =>
        simp only [Tags.step, Core.step, hr, he, hf, Bool.not_false, pipereg_load]
        refine ⟨fun hn => absurd hn (Option.some_ne_none t), fun n hn => ?_⟩
        cases hn
        exact ⟨⟨hr, he, hf⟩, rfl⟩

theorem Core.TagsOk.step (h : TagsOk s i t) (hn : s (t + 1) = (s t).step (i t)) :
    TagsOk s i (t + 1) := by
  refine ⟨?_, ?_, ?_, ?_, ?_⟩ <;> rw [hn]
  · exact h.step_fd
  · rw [pcAndInstr_de]
    exact h.fd.pipereg h.de
  · rw [pcAndInstr_em]
    exact h.de.pipereg h.em
  · change Named s i (if _ then none else _) (Memory.step _ _ _ _ _ _).dataM1.pcAndInstr
    cases hr : (s t).pipeReset (i t) with
    | true => exact named_bubble
    | false =>
      rw [Memory.step_pcAndInstr, if_neg Bool.false_ne_true]
      split
      · exact h.dataM1
      · exact h.em
  · rw [pcAndInstr_mw]
    exact h.dataM1.pipereg h.mw

theorem Core.IsRun.tagsOk (h : Core.IsRun s i) (t : ℕ) : TagsOk s i t := by
  induction t with
  | zero =>
    obtain ⟨x, j, hj, hs⟩ := h.start
    obtain ⟨hfd, hde, hem, hm, hmw⟩ := step_pipeReset (c := x) (pipeReset_of_reset hj)
    refine ⟨?_, ?_, ?_, ?_, ?_⟩ <;> rw [hs]
    · rw [hfd]
      exact named_bubble
    · rw [hde]
      exact named_bubble
    · rw [hem]
      exact named_bubble
    · rw [hm]
      exact named_bubble
    · rw [hmw]
      exact named_bubble
  | succ t ih => exact ih.step (h.next t)

end Named

/-! ## The moves of the tags -/

section Moves

variable {c : Core} {i : CoreIn} {g : Tags} {now x : ℕ}

/-- A tag in front of the memory stage. -/
def Tags.Front (g : Tags) (x : ℕ) : Prop := g.fd = some x ∨ g.de = some x ∨ g.em = some x

/-- A tag in front of write-back. -/
def Tags.Holds (g : Tags) (x : ℕ) : Prop := g.Front x ∨ g.dataM1 = some x

/-- A tag in the pipeline. -/
def Tags.InFlight (g : Tags) (x : ℕ) : Prop := g.Holds x ∨ g.mw = some x

theorem pipereg_eq_some {r f e : Bool} {inp out : Option ℕ}
    (h : pipereg r f e inp out = some x) : inp = some x ∨ out = some x := by
  unfold pipereg at h
  split at h
  · cases h
  · split at h
    · exact .inr h
    · split at h
      · cases h
      · exact .inl h

/-- Tags enter through `fd`. -/
theorem Tags.step_front (h : (g.step c i now).Front x) : g.Front x ∨ x = now := by
  rcases h with h | h | h
  · rcases pipereg_eq_some h with h' | h'
    · cases h'
      exact .inr rfl
    · exact .inl (.inl h')
  · rcases pipereg_eq_some h with h' | h'
    · exact .inl (.inl h')
    · exact .inl (.inr (.inl h'))
  · rcases pipereg_eq_some h with h' | h'
    · exact .inl (.inr (.inl h'))
    · exact .inl (.inr (.inr h'))

theorem Tags.step_holds (h : (g.step c i now).Holds x) : g.Holds x ∨ x = now := by
  rcases h with h | h
  · rcases step_front h with h' | h'
    · exact .inl (.inl h')
    · exact .inr h'
  · simp only [step] at h
    split at h
    · cases h
    · split at h
      · exact .inl (.inr h)
      · exact .inl (.inl (.inr (.inr h)))

/-- Write-back takes its record from `dataM1` in every cycle. -/
theorem Tags.step_mw (h : (g.step c i now).mw = some x) : g.dataM1 = some x := by
  have hno : (c.regstallEn i).mw = false := rfl
  simp only [step, hno, pipereg] at h
  split at h
  · cases h
  · split at h
    · contradiction
    · split at h
      · cases h
      · exact h

/-- A reset or a redirect leaves bubbles. -/
theorem Tags.step_pipeReset (hr : c.pipeReset i = true) : g.step c i now = .empty := by
  simp only [step, hr, pipereg_reset, if_true]
  rfl

/-- The moves of the tags. -/
theorem Core.Lossless.step_tags (h : c.Lossless i) (hr : c.pipeReset i = false) :
    g.step c i now =
      { fd := if c.frontStall i then g.fd else if c.jumpFlush then none else some now
        de := if c.stallDataOk i || c.multicycleDoing then g.de
          else if c.operandStall || !c.iDataOk i then none else g.fd
        em := if c.stallDataOk i then g.em else if c.multicycleDoing then none else g.de
        dataM1 := if c.stallDataOk i then g.dataM1 else g.em
        mw := if c.stallDataOk i then none else g.dataM1 } := by
  have hzero : (0 : Option ℕ) = none := rfl
  simp [Tags.step, hr, h hr, pipereg, regstallEn, regflushEn, HazardIn.regstallEn,
    HazardIn.regflushEn, hazard, frontStall, operandStall, HazardIn.operandStall, iDataOk, jumpFlush,
    hzero]

/-! The words of the records move in the same way. -/

theorem Core.step_de_pcAndInstr (hr : c.pipeReset i = false) :
    (c.step i).de.pcAndInstr =
      if c.stallDataOk i || c.multicycleDoing then c.de.pcAndInstr
      else if c.operandStall || !c.iDataOk i then 0 else c.fd := by
  rw [step_de hr]
  split_ifs <;> rfl

theorem Core.step_em_pcAndInstr (hr : c.pipeReset i = false) :
    (c.step i).em.pcAndInstr =
      if c.stallDataOk i then c.em.pcAndInstr
      else if c.multicycleDoing then 0 else c.de.pcAndInstr := by
  rw [step_em hr]
  split_ifs <;> rfl

theorem Core.Lossless.step_dataM1_pcAndInstr (h : c.Lossless i)
    (hr : c.pipeReset i = false) :
    (c.step i).memory.dataM1.pcAndInstr =
      if c.stallDataOk i then c.memory.dataM1.pcAndInstr else c.em.pcAndInstr := by
  change (Memory.step _ _ _ (c.pipeReset i) _ _).dataM1.pcAndInstr = _
  rw [hr, Memory.step_pcAndInstr, h hr]

theorem Core.Lossless.step_dataM1_aluout (h : c.Lossless i) (hr : c.pipeReset i = false) :
    (c.step i).memory.dataM1.aluout =
      if c.stallDataOk i then c.memory.dataM1.aluout else c.em.aluout := by
  change (Memory.step _ _ _ (c.pipeReset i) _ _).dataM1.aluout = _
  rw [hr, Memory.step_aluout, h hr]

theorem Core.step_mw_pcAndInstr (hr : c.pipeReset i = false) :
    (c.step i).mw.pcAndInstr =
      if c.stallDataOk i then 0 else c.memory.dataM1.pcAndInstr := by
  rw [step_mw hr]
  split <;> rfl

/-! ## Program order -/

/-- The record tagged `a`, if any, is older than the one tagged `b`, if any. -/
def Older (a b : Option ℕ) : Prop := ∀ m, a = some m → ∀ n, b = some n → m < n

theorem older_bubble (a : Option ℕ) : Older a none := fun _ _ _ h => by cases h

theorem bubble_older (a : Option ℕ) : Older none a := fun _ h => by cases h

theorem older_now (now : ℕ) : Older (some now) (some (now + 1)) := by
  intro m hm n hn
  cases hm
  cases hn
  omega

theorem Older.later {a : Option ℕ} (h : Older a (some now)) : Older a (some (now + 1)) := by
  intro m hm n hn
  cases hn
  have := h m hm now rfl
  omega

/-- Older records stand further down the pipeline, and no tag is from the future. -/
structure Tags.Ordered (g : Tags) (now : ℕ) : Prop where
  fd : Older g.fd (some now)
  de : Older g.de (some now)
  em : Older g.em (some now)
  dataM1 : Older g.dataM1 (some now)
  de_fd : Older g.de g.fd
  em_fd : Older g.em g.fd
  em_de : Older g.em g.de
  dataM1_fd : Older g.dataM1 g.fd
  dataM1_de : Older g.dataM1 g.de
  dataM1_em : Older g.dataM1 g.em

theorem Tags.ordered_empty (now : ℕ) : Tags.empty.Ordered now where
  fd := bubble_older _
  de := bubble_older _
  em := bubble_older _
  dataM1 := bubble_older _
  de_fd := bubble_older _
  em_fd := bubble_older _
  em_de := bubble_older _
  dataM1_fd := bubble_older _
  dataM1_de := bubble_older _
  dataM1_em := bubble_older _

/-- What stands in `dataM1` stands nowhere in front of it. -/
theorem Tags.Ordered.not_front (h : g.Ordered now) {y : ℕ} (hy : g.dataM1 = some y)
    (hxy : x ≤ y) : ¬g.Front x := by
  rintro (hh | hh | hh)
  · have := h.dataM1_fd y hy x hh
    omega
  · have := h.dataM1_de y hy x hh
    omega
  · have := h.dataM1_em y hy x hh
    omega

/-- Records do not overtake each other. -/
theorem Tags.Ordered.step (h : g.Ordered now) (hs : c.Lossless i) :
    (g.step c i now).Ordered (now + 1) := by
  cases hr : c.pipeReset i with
  | true =>
    rw [step_pipeReset hr]
    exact ordered_empty _
  | false =>
    rw [hs.step_tags hr]
    cases hst : c.stallDataOk i with
    | true =>
      simp only [Core.frontStall, hst, Bool.true_or, if_true]
      exact { h with
        fd := h.fd.later, de := h.de.later, em := h.em.later, dataM1 := h.dataM1.later }
    | false =>
      cases hmul : c.multicycleDoing with
      | true =>
        simp only [Core.frontStall, hst, hmul, Bool.or_true, if_true, Bool.false_eq_true,
          if_false]
        exact ⟨h.fd.later, h.de.later, bubble_older _, h.em.later, h.de_fd, bubble_older _,
          bubble_older _, h.em_fd, h.em_de, older_bubble _⟩
      | false =>
        cases hop : c.operandStall || !c.iDataOk i with
        | true =>
          have hfront : c.frontStall i = true := by
            rw [Core.frontStall_eq, hop, Bool.or_true]
          simp only [hfront, Bool.or_false, if_true, Bool.false_eq_true, if_false]
          exact ⟨h.fd.later, bubble_older _, h.de.later, h.em.later, bubble_older _, h.de_fd,
            older_bubble _, h.em_fd, older_bubble _, h.em_de⟩
        | false =>
          have hfront : c.frontStall i = false := by
            rw [Core.frontStall_eq, hst, hmul, hop]
            rfl
          simp only [hfront, Bool.or_false, Bool.false_eq_true, if_false]
          cases c.jumpFlush with
          | true =>
            exact ⟨bubble_older _, h.fd.later, h.de.later, h.em.later, older_bubble _,
              older_bubble _, h.de_fd, older_bubble _, h.em_fd, h.em_de⟩
          | false =>
            exact ⟨older_now _, h.fd.later, h.de.later, h.em.later, h.fd, h.de, h.de_fd, h.em,
              h.em_fd, h.em_de⟩

/-- What reaches write-back is older than everything behind it. -/
theorem Tags.Ordered.step_mw_older (h : g.Ordered now) (hl : c.Lossless i) {y : ℕ}
    (hx : (g.step c i now).mw = some x) (hy : (g.step c i now).Holds y) : x < y := by
  have hm1 := step_mw hx
  have hr : c.pipeReset i = false := by
    by_contra hc
    rw [step_pipeReset (Bool.not_eq_false _ ▸ hc)] at hx
    cases hx
  rw [hl.step_tags hr] at hx
  have hgo : c.stallDataOk i = false := by
    by_contra hc
    rw [Bool.not_eq_false] at hc
    rw [hc] at hx
    cases hx
  have hback : g.Front y ∨ y = now := by
    rcases hy with hy | hy
    · exact step_front hy
    · rw [hl.step_tags hr, hgo] at hy
      exact .inl (.inr (.inr hy))
  rcases hback with (hy | hy | hy) | rfl
  · exact h.dataM1_fd x hm1 y hy
  · exact h.dataM1_de x hm1 y hy
  · exact h.dataM1_em x hm1 y hy
  · exact h.dataM1 x hm1 y rfl

/-- No record is lost: what is not flushed stays in the pipeline or reaches write-back. -/
theorem Tags.Holds.step (h : g.Holds x) (hl : c.Lossless i) (hr : c.pipeReset i = false) :
    (g.step c i now).Holds x ∨ (g.step c i now).mw = some x := by
  rw [hl.step_tags hr]
  cases hst : c.stallDataOk i with
  | true =>
    simp only [Core.frontStall, hst, Bool.true_or, if_true]
    exact .inl h
  | false =>
    rcases h with (h | h | h) | h
    · cases hf : c.frontStall i with
      | true => exact .inl (.inl (.inl h))
      | false =>
        have hgo := hf
        rw [Core.frontStall_eq, Bool.or_eq_false_iff, Bool.or_eq_false_iff] at hgo
        refine .inl (.inl (.inr (.inl ?_)))
        simp [hgo.1.2, hgo.2, h]
    · cases hmul : c.multicycleDoing with
      | true => exact .inl (.inl (.inr (.inl h)))
      | false => exact .inl (.inl (.inr (.inr h)))
    · exact .inl (.inr h)
    · exact .inr h

end Moves

/-! ## Runs -/

section Run

variable {s : ℕ → Core} {i : ℕ → CoreIn} {c t x : ℕ}

theorem Core.tags_ordered (hl : ∀ u, (s u).Lossless (i u)) (t : ℕ) : (tags s i t).Ordered t := by
  induction t with
  | zero => exact Tags.ordered_empty 0
  | succ t ih => exact ih.step (hl t)

/-- A tag that has left the front of the pipeline does not come back. -/
theorem Core.tags_front_gone (hx : x < t) (hno : ¬(tags s i t).Front x) {u : ℕ} (hu : t ≤ u) :
    ¬(tags s i u).Front x := by
  induction u, hu using Nat.le_induction with
  | base => exact hno
  | succ u hu ih =>
    intro hh
    rcases Tags.step_front hh with h' | h'
    · exact ih h'
    · omega

theorem Core.tags_gone (hx : x < t) (hno : ¬(tags s i t).Holds x) {u : ℕ} (hu : t ≤ u) :
    ¬(tags s i u).Holds x := by
  induction u, hu using Nat.le_induction with
  | base => exact hno
  | succ u hu ih =>
    intro hh
    rcases Tags.step_holds hh with h' | h'
    · exact ih h'
    · omega

/-- After a flush only younger tags are found in the pipeline. -/
theorem Core.tags_after (hr : (s c).pipeReset (i c) = true) (ht : c < t)
    (hx : (tags s i t).Holds x) : c < x := by
  induction t, ht using Nat.le_induction with
  | base =>
    rw [tags, Tags.step_pipeReset hr] at hx
    rcases hx with (h | h | h) | h <;> cases h
  | succ t ht ih =>
    rcases Tags.step_holds hx with h' | h'
    · exact ih h'
    · omega

theorem Core.tags_mw_after (hr : (s c).pipeReset (i c) = true) (ht : c < t)
    (hx : (tags s i t).mw = some x) : c < x := by
  obtain ⟨u, rfl⟩ : ∃ u, t = u + 1 := ⟨t - 1, by omega⟩
  rcases Nat.lt_or_ge c u with h | h
  · exact tags_after hr h (.inr (Tags.step_mw hx))
  · obtain rfl : u = c := by omega
    rw [tags, Tags.step_pipeReset hr] at hx
    cases hx

section Lossless

variable (hl : ∀ u, (s u).Lossless (i u))

include hl

theorem Core.tags_holds_lt (h : (tags s i t).Holds x) : x < t := by
  have hord := tags_ordered hl t
  rcases h with (h | h | h) | h
  · exact hord.fd x h t rfl
  · exact hord.de x h t rfl
  · exact hord.em x h t rfl
  · exact hord.dataM1 x h t rfl

theorem Core.tags_mw_older {y : ℕ} (hx : (tags s i t).mw = some x)
    (hy : (tags s i t).Holds y) : x < y := by
  cases t with
  | zero => cases hx
  | succ t => exact (tags_ordered hl t).step_mw_older (hl t) hx hy

theorem Core.tags_mw_lt (hx : (tags s i t).mw = some x) : x < t := by
  cases t with
  | zero => cases hx
  | succ t =>
    have := tags_holds_lt hl (.inr (Tags.step_mw hx))
    omega

/-- What stands in front of an instruction in write-back has reached it before. -/
theorem Core.tags_mw_before {u y : ℕ} (hx : (tags s i t).mw = some x)
    (hy : (tags s i u).mw = some y) (hxy : x < y) : t < u := by
  have hno : ¬(tags s i u).Holds x := by
    intro h
    have := tags_mw_older hl hy h
    omega
  by_contra hc
  have hlt := tags_mw_lt hl hy
  rcases Nat.eq_or_lt_of_le (Nat.not_lt.mp hc) with rfl | hut
  · rw [hx] at hy
    cases hy
    omega
  · obtain ⟨v, rfl⟩ : ∃ v, t = v + 1 := ⟨t - 1, by omega⟩
    exact tags_gone (by omega) hno (u := v) (by omega) (.inr (Tags.step_mw hx))

/-- An instruction is in write-back for one cycle. -/
theorem Core.tags_mw_once {u : ℕ} (ht : (tags s i t).mw = some x)
    (hu : (tags s i u).mw = some x) : t = u := by
  have hle : ∀ {a b : ℕ}, (tags s i a).mw = some x → (tags s i b).mw = some x → b ≤ a := by
    intro a b ha hb
    by_contra hc
    obtain ⟨v, rfl⟩ : ∃ v, b = v + 1 := ⟨b - 1, by omega⟩
    refine tags_gone (tags_mw_lt hl ha) (fun h => ?_) (u := v) (by omega) (.inr (Tags.step_mw hb))
    have := tags_mw_older hl ha h
    omega
  exact Nat.le_antisymm (hle hu ht) (hle ht hu)

/-- What is not flushed stays in the pipeline until it reaches write-back. -/
theorem Core.tags_stays {u : ℕ} (hx : (tags s i u).Holds x) (hut : u ≤ t)
    (hno : ∀ v, u ≤ v → v < t → (s v).pipeReset (i v) = false) :
    (∃ w, (tags s i w).mw = some x) ∨ (tags s i t).Holds x := by
  induction t, hut using Nat.le_induction with
  | base => exact .inr hx
  | succ v huv ih =>
    rcases ih fun w h1 h2 => hno w h1 (by omega) with h | h
    · exact .inl h
    · have hnext : (tags s i (v + 1)).Holds x ∨ (tags s i (v + 1)).mw = some x :=
        h.step (hl v) (hno v huv (by omega))
      rcases hnext with h' | h'
      · exact .inr h'
      · exact .inl ⟨v + 1, h'⟩

/-- Instructions reach write-back in program order, and no older one is passed over. -/
theorem Core.tags_arrives {u y p : ℕ} (hy : (tags s i u).Holds y) (hp : (tags s i u).InFlight p)
    (hpy : p < y) (ht : (tags s i t).mw = some y) : ∃ w < t, (tags s i w).mw = some p := by
  have hnone : ∀ v, u ≤ v → v < t → (s v).pipeReset (i v) = false := by
    intro v huv hvt
    by_contra hc
    have := tags_mw_after (Bool.not_eq_false _ ▸ hc) hvt ht
    have := tags_holds_lt hl hy
    omega
  have hut : u ≤ t := by
    by_contra hc
    refine tags_gone (tags_mw_lt hl ht) (fun hh => ?_) (by omega : t ≤ u) hy
    have := tags_mw_older hl ht hh
    omega
  have hrun : (∃ w, (tags s i w).mw = some p) ∨ (tags s i t).Holds p := by
    rcases hp with hp | hp
    · exact tags_stays hl hp hut hnone
    · exact .inl ⟨u, hp⟩
  rcases hrun with ⟨w, hw⟩ | hh
  · exact ⟨w, tags_mw_before hl hw ht hpy, hw⟩
  · have := tags_mw_older hl ht hh
    omega

end Lossless

end Run

end RiscvCpu
