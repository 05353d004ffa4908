import Mathlib

/-!
# Progress

What happens again and again along a sequence of cycles.  `∃ᶠ t in atTop` says that
a condition holds in infinitely many cycles, and `∀ᶠ t in atTop` that it holds from
some cycle on.

`frequently_of_rank` is the rule by which a goal is reached under a fairness
assumption: while the goal is missed a rank does not rise, and it falls in the cycles
that the assumption promises.
-/

namespace Sync

open Filter

variable {P Q tick : ℕ → Prop}

/-- A rank that never rises and falls in infinitely many cycles does not exist. -/
theorem not_forever_falling (fair : ∃ᶠ t in atTop, tick t) (rank : ℕ → ℕ) {t₀ : ℕ}
    (le : ∀ t, t₀ ≤ t → rank (t + 1) ≤ rank t)
    (lt : ∀ t, t₀ ≤ t → tick t → rank (t + 1) < rank t) : False := by
  have descent : ∀ n t, t₀ ≤ t → rank t = n → False := by
    intro n
    induction n using Nat.strong_induction_on with
    | h n ih =>
      intro t ht hn
      obtain ⟨u, hu, htick⟩ := frequently_atTop.mp fair t
      have hdown : rank u ≤ rank t :=
        Nat.le_induction (Nat.le_refl _) (fun v hv hle => (le v (by omega)).trans hle) u hu
      have hlt := lt u (by omega) htick
      exact ih (rank (u + 1)) (by omega) (u + 1) (by omega) rfl
  exact descent _ t₀ (Nat.le_refl _) rfl

/-- The ranking rule. -/
theorem frequently_of_rank (fair : ∃ᶠ t in atTop, tick t) (rank : ℕ → ℕ)
    (step : ∀ᶠ t in atTop,
      ¬Q t → rank (t + 1) ≤ rank t ∧ (tick t → rank (t + 1) < rank t)) :
    ∃ᶠ t in atTop, Q t := by
  by_contra hno
  obtain ⟨t₀, h⟩ := eventually_atTop.mp (step.and (not_frequently.mp hno))
  exact not_forever_falling fair rank (fun t ht => ((h t ht).1 (h t ht).2).1)
    fun t ht => ((h t ht).1 (h t ht).2).2

/-- What a cycle brings about that comes again and again, and what is then kept, holds
from some cycle on. -/
theorem eventually_of_kept (again : ∃ᶠ t in atTop, Q t)
    (reached : ∀ᶠ t in atTop, Q t → P (t + 1)) (kept : ∀ᶠ t in atTop, P t → P (t + 1)) :
    ∀ᶠ t in atTop, P t := by
  obtain ⟨t₀, h⟩ := eventually_atTop.mp (reached.and kept)
  obtain ⟨u, hu, hq⟩ := frequently_atTop.mp again t₀
  exact eventually_atTop.mpr ⟨u + 1, fun t ht =>
    Nat.le_induction ((h u hu).1 hq) (fun v hv hp => (h v (by omega)).2 hp) t ht⟩

/-- What holds from some cycle on holds one cycle later, too. -/
theorem eventually_succ (h : ∀ᶠ t in atTop, P t) : ∀ᶠ t in atTop, P (t + 1) :=
  (tendsto_add_atTop_nat 1).eventually h

/-- What holds from some cycle on has held in the cycles after some cycle. -/
theorem eventually_of_succ (h : ∀ᶠ t in atTop, P (t + 1)) : ∀ᶠ t in atTop, P t := by
  obtain ⟨t₀, h⟩ := eventually_atTop.mp h
  refine eventually_atTop.mpr ⟨t₀ + 1, fun t ht => ?_⟩
  have hp := h (t - 1) (by omega)
  rwa [show t - 1 + 1 = t by omega] at hp

/-- What comes again and again comes a next time, and what the cycles before keep holds then. -/
theorem exists_next (again : ∃ᶠ t in atTop, Q t) {t₀ : ℕ} (start : P t₀)
    (kept : ∀ t, t₀ ≤ t → ¬Q t → P t → P (t + 1)) :
    ∃ t, t₀ ≤ t ∧ Q t ∧ P t ∧ ∀ u, t₀ ≤ u → u < t → ¬Q u := by
  classical
  have hex := frequently_atTop.mp again t₀
  obtain ⟨hle, hq⟩ := Nat.find_spec hex
  have hno : ∀ u, t₀ ≤ u → u < Nat.find hex → ¬Q u := by
    intro u hu hlt hqu
    exact Nat.find_min hex hlt ⟨hu, hqu⟩
  have hp : ∀ u, t₀ ≤ u → u ≤ Nat.find hex → P u := by
    intro u hu
    induction u, hu using Nat.le_induction with
    | base => exact fun _ => start
    | succ u hu ih => exact fun hlt => kept u hu (hno u hu hlt) (ih (Nat.le_of_lt hlt))
  exact ⟨Nat.find hex, hle, hq, hp _ hle (Nat.le_refl _), hno⟩

/-- What is held until it is passed on, and is passed on again and again, is seen behind. -/
theorem eventually_not_of_passes (fair : ∃ᶠ t in atTop, tick t)
    (held : ∀ᶠ t in atTop, P t → ¬tick t → P (t + 1))
    (passes : ∀ᶠ t in atTop, P t → tick t → Q (t + 1)) (never : ∀ᶠ t in atTop, ¬Q t) :
    ∀ᶠ t in atTop, ¬P t := by
  obtain ⟨t₀, h⟩ := eventually_atTop.mp (held.and (passes.and (eventually_succ never)))
  refine eventually_atTop.mpr ⟨t₀, fun t ht hp => ?_⟩
  have hpast : ∀ v, t ≤ v → P v ∧ ¬tick v := by
    intro v hv
    induction v, hv using Nat.le_induction with
    | base => exact ⟨hp, fun htick => (h t ht).2.2 ((h t ht).2.1 hp htick)⟩
    | succ v hv ih =>
      have hv₀ : t₀ ≤ v := by omega
      have hnext : P (v + 1) := (h v hv₀).1 ih.1 ih.2
      exact ⟨hnext, fun htick =>
        (h (v + 1) (by omega)).2.2 ((h (v + 1) (by omega)).2.1 hnext htick)⟩
  obtain ⟨u, hu, htick⟩ := frequently_atTop.mp fair t
  exact (hpast u hu).2 htick

/-- A counter that never falls and rises in infinitely many cycles passes every number. -/
theorem exists_le_of_frequently_lt {count : ℕ → ℕ} (mono : ∀ t, count t ≤ count (t + 1))
    (rises : ∃ᶠ t in atTop, count t < count (t + 1)) (n : ℕ) : ∃ t, n ≤ count t := by
  induction n with
  | zero => exact ⟨0, Nat.zero_le _⟩
  | succ n ih =>
    obtain ⟨t, ht⟩ := ih
    obtain ⟨u, hu, hlt⟩ := frequently_atTop.mp rises t
    have hle : count t ≤ count u := monotone_nat_of_le_succ mono hu
    exact ⟨u + 1, by omega⟩

/-- A counter that starts at zero and moves by one at most shows every number it passes. -/
theorem exists_eq_of_le {count : ℕ → ℕ} (zero : count 0 = 0)
    (one : ∀ t, count (t + 1) ≤ count t + 1) {n t : ℕ} (h : n ≤ count t) :
    ∃ u, count u = n := by
  induction t with
  | zero => exact ⟨0, by omega⟩
  | succ t ih =>
    rcases Nat.lt_or_ge (count t) n with hlt | hge
    · exact ⟨t + 1, by have := one t; omega⟩
    · exact ih hge

end Sync
