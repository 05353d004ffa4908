import RiscvCpu.Sync.Run

/-!
# Refinement of synchronous machines

A machine refines another one under an abstraction function if the image of each of its runs
is a run of the other.  Cycle by cycle this may need what only holds of the other machine in
the middle of a run.  `FromReset.refines` allows that: the cycle has to be matched only where
the other machine, on a run of its own, has been in the images of the states so far.
-/

namespace Sync

universe u v w z

variable {σ : Type u} {ι : Type v} {σ' : Type w} {ι' : Type z}

variable {step : σ → ι → σ} {isReset : ι → Prop} {step' : σ' → ι' → σ'} {isReset' : ι' → Prop}
  {s : ℕ → σ} {i : ℕ → ι}

/-- Refinement of a run.  To match cycle `t` one may use a run of the refined machine that has
agreed with the images so far. -/
theorem FromReset.refines (h : FromReset step isReset s i) (abs : σ → σ') (inp : σ → ι → ι')
    (start : ∃ x j, isReset' j ∧ abs (s 0) = step' x j)
    (noReset : ∀ x j, ¬isReset j → ¬isReset' (inp x j))
    (next : ∀ a, FromReset step' isReset' a (fun t => inp (s t) (i t)) →
      ∀ t, (∀ u ≤ t, a u = abs (s u)) → abs (s (t + 1)) = step' (a t) (inp (s t) (i t))) :
    FromReset step' isReset' (fun t => abs (s t)) fun t => inp (s t) (i t) := by
  have hrun : FromReset step' isReset'
      (runFrom step' (abs (s 0)) fun t => inp (s t) (i t)) fun t => inp (s t) (i t) :=
    { start := start
      noReset := fun t => noReset _ _ (h.noReset t)
      next := fun _ => rfl }
  have hagree : ∀ t, ∀ u ≤ t, runFrom step' (abs (s 0)) (fun t => inp (s t) (i t)) u =
      abs (s u) := by
    intro t
    induction t with
    | zero =>
      intro u hu
      obtain rfl := Nat.le_zero.mp hu
      rfl
    | succ t ih =>
      intro u hu
      rcases Nat.le_succ_iff.mp hu with hle | rfl
      · exact ih u hle
      · exact (next _ hrun t ih).symm
  have heq : (runFrom step' (abs (s 0)) fun t => inp (s t) (i t)) = fun t => abs (s t) :=
    funext fun t => hagree t t (Nat.le_refl t)
  rwa [heq] at hrun

end Sync
