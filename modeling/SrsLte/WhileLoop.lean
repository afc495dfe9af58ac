import Mathlib.Tactic.Common

/-!
# Loops that end

`WhileLoop.Ends cond body s t` says that the loop `while (cond) body`, started in `s`, ends in `t`.
The body is a relation between the states before and after one round, so that it may contain a loop
itself.
-/

namespace WhileLoop

variable {σ : Type*} {cond : σ → Prop} {body : σ → σ → Prop} {s t : σ}

inductive Ends (cond : σ → Prop) (body : σ → σ → Prop) : σ → σ → Prop
  | exit {s : σ} (h : ¬ cond s) : Ends cond body s s
  | round {s s' t : σ} (h : cond s) (hbody : body s s') (hrest : Ends cond body s' t) :
      Ends cond body s t

theorem Ends.not_cond (h : Ends cond body s t) : ¬ cond t := by
  induction h with
  | exit h => exact h
  | round _ _ _ ih => exact ih

end WhileLoop
