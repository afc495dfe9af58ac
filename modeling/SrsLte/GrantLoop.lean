import Mathlib.Order.OrderIsoNat
import Mathlib.Order.Monotone.Basic
import Mathlib.Tactic.Common

/-!
# Grants of the size that was reported

A sender reports how many bytes it needs and is then served a grant of that size, over and over
again. The report may change the state. A sender that reports nothing is not served.
-/

structure Granting (σ α : Type*) where
  report : σ → σ × ℕ
  serve : ℕ → σ → ℕ → σ × List α
  Done : σ → Prop

namespace Granting

variable {σ α : Type*} (m : Granting σ α)

def sent (i : ℕ) (s : σ) : List α := (m.serve i (m.report s).1 (m.report s).2).2

def next (i : ℕ) (s : σ) : σ :=
  if (m.report s).2 = 0 then (m.report s).1 else (m.serve i (m.report s).1 (m.report s).2).1

def after (s : σ) : ℕ → σ
  | 0 => s
  | i + 1 => m.next i (after s i)

/-- The reports suffice: they are zero exactly when all is done, every grant is used, and all gets
done. -/
structure Drains (s : σ) : Prop where
  zero_iff : ∀ i, (m.report (m.after s i)).2 = 0 ↔ m.Done (m.after s i)
  sent : ∀ i, ¬ m.Done (m.after s i) → m.sent i (m.after s i) ≠ []
  done : ∃ i, m.Done (m.after s i)

/-- What one opportunity does in the state `s`. -/
structure Advances (weight : σ → ℕ) (i : ℕ) (s : σ) : Prop where
  zero_iff : (m.report s).2 = 0 ↔ m.Done s
  sent : ¬ m.Done s → m.sent i s ≠ []
  weight_lt : ¬ m.Done s → weight (m.next i s) < weight s

variable {m} {weight : σ → ℕ} {s : σ}

theorem after_of_fixed {n : ℕ} (h : ∀ i, m.next i (m.after s n) = m.after s n) {i : ℕ}
    (hi : n ≤ i) : m.after s i = m.after s n := by
  induction i, hi using Nat.le_induction with
  | base => rfl
  | succ i _ ih =>
    rw [after, ih]
    exact h i

theorem drains_of_advances (h : ∀ i, m.Advances weight i (m.after s i)) : m.Drains s := by
  refine ⟨fun i => (h i).zero_iff, fun i => (h i).sent, ?_⟩
  by_contra hnever
  rw [not_exists] at hnever
  have hfalls : StrictAnti fun i => weight (m.after s i) :=
    strictAnti_nat_of_succ_lt fun i => (h i).weight_lt (hnever i)
  exact not_strictAnti_of_wellFoundedLT _ hfalls

theorem drains_of_ready {I Ready : σ → Prop} (hs : I s) (hready : ∀ i, Ready (m.after s i))
    (hstep : ∀ i t, I t → Ready t → m.Advances weight i t ∧ I (m.next i t)) : m.Drains s := by
  have hkeep : ∀ i, I (m.after s i) := by
    intro i
    induction i with
    | zero => exact hs
    | succ i ih => exact (hstep i _ ih (hready i)).2
  exact drains_of_advances fun i => (hstep i _ (hkeep i) (hready i)).1

end Granting
