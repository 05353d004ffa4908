import Mathlib

/-!
# Runs of synchronous machines

A synchronous machine is a step function `step : σ → ι → σ`: the state after a
clock edge from the state and the inputs before it.  The reset is a condition on
the inputs.  A run starts in the state some reset cycle leaves behind, whatever
the state before it, and is not reset again.

`FromReset.invariant` is the rule by which a property of every state of a run is
proved from one cycle.
-/

namespace Sync

universe u v

variable {σ : Type u} {ι : Type v}

/-- `s` is the run of `step` under the inputs `i` after a reset. -/
structure FromReset (step : σ → ι → σ) (isReset : ι → Prop) (s : ℕ → σ) (i : ℕ → ι) : Prop where
  /-- The first state is one a reset cycle leaves behind. -/
  start : ∃ x j, isReset j ∧ s 0 = step x j
  /-- The run is not reset again. -/
  noReset : ∀ t, ¬isReset (i t)
  /-- One clock edge. -/
  next : ∀ t, s (t + 1) = step (s t) (i t)

section Rules

variable {step : σ → ι → σ} {isReset : ι → Prop} {s : ℕ → σ} {i : ℕ → ι}

/-- The invariant rule.  `A` is what the inputs are assumed to do in each cycle
before `t`. -/
theorem FromReset.invariant (h : FromReset step isReset s i) {A : σ → ι → Prop} {P : σ → Prop}
    (start : ∀ x j, isReset j → P (step x j))
    (preserved : ∀ x j, ¬isReset j → A x j → P x → P (step x j))
    (t : ℕ) (assumed : ∀ u < t, A (s u) (i u)) : P (s t) := by
  induction t with
  | zero =>
    obtain ⟨x, j, hj, hs⟩ := h.start
    rw [hs]
    exact start x j hj
  | succ t ih =>
    have ht := ih fun u hu => assumed u (by omega)
    rw [h.next t]
    exact preserved (s t) (i t) (h.noReset t) (assumed t (by omega)) ht

/-- The invariant rule without an assumption on the inputs. -/
theorem FromReset.always (h : FromReset step isReset s i) {P : σ → Prop}
    (start : ∀ x j, isReset j → P (step x j))
    (preserved : ∀ x j, ¬isReset j → P x → P (step x j)) (t : ℕ) : P (s t) :=
  h.invariant (A := fun _ _ => True) start (fun x j hj _ hx => preserved x j hj hx) t
    (fun _ _ => trivial)

/-- A machine driven by its environment: the run of the whole projects to a run of
the part, under the inputs the whole hands to it. -/
theorem FromReset.project {σ' : Type*} {ι' : Type*} {step' : σ' → ι' → σ'}
    {isReset' : ι' → Prop} (h : FromReset step isReset s i) (part : σ → σ') (inp : σ → ι → ι')
    (step_part : ∀ x j, part (step x j) = step' (part x) (inp x j))
    (reset_part : ∀ x j, isReset' (inp x j) ↔ isReset j) :
    FromReset step' isReset' (fun t => part (s t)) (fun t => inp (s t) (i t)) where
  start := by
    obtain ⟨x, j, hj, hs⟩ := h.start
    exact ⟨part x, inp x j, (reset_part x j).mpr hj, by rw [hs, step_part]⟩
  noReset t := fun ht => h.noReset t ((reset_part _ _).mp ht)
  next t := by rw [h.next t, step_part]

end Rules

/-! ## Running a machine -/

/-- The run from `x` under given inputs. -/
def runFrom (step : σ → ι → σ) (x : σ) (i : ℕ → ι) : ℕ → σ
  | 0 => x
  | t + 1 => step (runFrom step x i t) (i t)

/-! ## Intervals of a run -/

/-- A condition that holds in cycle `t` but not in cycle `0` has risen: there is a
last cycle before `t` in which it did not hold. -/
theorem exists_rise {P : ℕ → Prop} {t : ℕ} (h0 : ¬P 0) (ht : P t) :
    ∃ g, g < t ∧ ¬P g ∧ ∀ u, g < u → u ≤ t → P u := by
  induction t with
  | zero => exact absurd ht h0
  | succ t ih =>
    by_cases hp : P t
    · obtain ⟨g, hg, hgp, hall⟩ := ih hp
      refine ⟨g, by omega, hgp, fun u hu hut => ?_⟩
      rcases Nat.lt_or_ge t u with h | h
      · have : u = t + 1 := by omega
        exact this ▸ ht
      · exact hall u hu h
    · refine ⟨t, by omega, hp, fun u hu hut => ?_⟩
      have : u = t + 1 := by omega
      exact this ▸ ht

/-- What a signal shows from cycle `a` up to, not including, cycle `b`. -/
def window {α : Type*} (f : ℕ → α) (a b : ℕ) : List α := (List.range' a (b - a)).map f

theorem window_succ {α : Type*} {f : ℕ → α} {a b : ℕ} (h : a ≤ b) :
    window f a (b + 1) = window f a b ++ [f b] := by
  obtain ⟨n, rfl⟩ := Nat.exists_eq_add_of_le h
  rw [window, window, Nat.add_assoc, Nat.add_sub_cancel_left, Nat.add_sub_cancel_left,
    List.range'_1_concat, List.map_append]
  rfl

theorem window_congr {α : Type*} {f g : ℕ → α} {a b : ℕ}
    (h : ∀ u, a ≤ u → u < b → f u = g u) : window f a b = window g a b := by
  refine List.map_congr_left fun u hu => ?_
  obtain ⟨h1, h2⟩ := List.mem_range'_1.mp hu
  exact h u h1 (by omega)

end Sync
