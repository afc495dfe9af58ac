import Mathlib.Data.List.Basic
import Mathlib.Tactic.Common

/-!
# Priority queues

A priority queue holds its elements in a list whose head is the top. How the rest is arranged is
left open: `Valid` is what an implementation keeps between its operations. The order is only asked
to be an order on the elements that are in the queue together, so that it may compare modulo some
number.
-/

/-- On these elements, `lt` compares by a rank. -/
def RankedOn {α : Type*} (lt : α → α → Bool) (q : List α) : Prop :=
  ∃ rank : α → ℕ, ∀ x ∈ q, ∀ y ∈ q, lt x y = true ↔ rank x < rank y

theorem RankedOn.subset {α : Type*} {lt : α → α → Bool} {q r : List α} (h : RankedOn lt q)
    (hsub : r ⊆ q) : RankedOn lt r := by
  obtain ⟨rank, hrank⟩ := h
  exact ⟨rank, fun x hx y hy => hrank x (hsub hx) y (hsub hy)⟩

structure PriorityQueue (α : Type*) (lt : α → α → Bool) where
  Valid : List α → Prop
  push : α → List α → List α
  pop : List α → List α
  valid_nil : Valid []
  push_perm : ∀ x q, (push x q).Perm (x :: q)
  pop_perm : ∀ x q, (pop (x :: q)).Perm q
  head_push : ∀ x y q, lt y x = false → (push x (y :: q)).head? = some y
  valid_push : ∀ x q, RankedOn lt (x :: q) → Valid q → Valid (push x q)
  valid_pop : ∀ x q, RankedOn lt (x :: q) → Valid (x :: q) → Valid (pop (x :: q))
  greatest : ∀ x q, RankedOn lt (x :: q) → Valid (x :: q) → ∀ y ∈ q, lt x y = false

namespace PriorityQueue

variable {α : Type*} {lt : α → α → Bool}

theorem mem_push (Q : PriorityQueue α lt) {x y : α} {q : List α} :
    y ∈ Q.push x q ↔ y = x ∨ y ∈ q :=
  (Q.push_perm x q).mem_iff.trans List.mem_cons

theorem mem_pop (Q : PriorityQueue α lt) {x y : α} {q : List α} : y ∈ Q.pop (x :: q) ↔ y ∈ q :=
  (Q.pop_perm x q).mem_iff

def insert (lt : α → α → Bool) (x : α) : List α → List α
  | [] => [x]
  | y :: q => if lt y x then x :: y :: q else y :: insert lt x q

theorem insert_perm (x : α) (q : List α) : (insert lt x q).Perm (x :: q) := by
  induction q with
  | nil => exact List.Perm.refl _
  | cons y q ih =>
    unfold insert
    split_ifs
    · exact List.Perm.refl _
    · exact (ih.cons y).trans (List.Perm.swap x y q)

theorem pairwise_insert {x : α} {q : List α} (hrank : RankedOn lt (x :: q))
    (hq : q.Pairwise fun a b => lt a b = false) :
    (insert lt x q).Pairwise fun a b => lt a b = false := by
  induction q with
  | nil => exact List.pairwise_singleton _ _
  | cons y q ih =>
    obtain ⟨hy, hq'⟩ := List.pairwise_cons.mp hq
    unfold insert
    split_ifs with hlt
    · refine List.pairwise_cons.mpr ⟨fun z hz => ?_, hq⟩
      obtain ⟨rank, hr⟩ := hrank
      have hx : x ∈ x :: y :: q := List.mem_cons_self
      have hyq : y ∈ x :: y :: q := List.mem_cons_of_mem _ List.mem_cons_self
      have hzq : z ∈ x :: y :: q := List.mem_cons_of_mem _ hz
      have hyx := (hr y hyq x hx).mp hlt
      have hzy : rank z ≤ rank y := by
        rcases List.mem_cons.mp hz with rfl | hz
        · exact Nat.le_refl _
        · refine Nat.not_lt.mp fun hc => ?_
          exact Bool.false_ne_true ((hy z hz).symm.trans ((hr y hyq z hzq).mpr hc))
      exact Bool.eq_false_iff.mpr fun hc => absurd ((hr x hx z hzq).mp hc) (by omega)
    · refine List.pairwise_cons.mpr ⟨fun z hz => ?_, ih (hrank.subset ?_) hq'⟩
      · rcases List.mem_cons.mp ((insert_perm x q).mem_iff.mp hz) with rfl | hz
        · exact Bool.eq_false_iff.mpr hlt
        · exact hy z hz
      · exact List.cons_subset_cons x (List.subset_cons_self y q)

def sorted (lt : α → α → Bool) : PriorityQueue α lt where
  Valid := fun q => q.Pairwise fun a b => lt a b = false
  push := insert lt
  pop := List.tail
  valid_nil := List.Pairwise.nil
  push_perm := insert_perm
  pop_perm := fun _ _ => List.Perm.refl _
  head_push := fun x y q h => by rw [insert, if_neg (Bool.eq_false_iff.mp h)]; rfl
  valid_push := fun _ _ => pairwise_insert
  valid_pop := fun _ _ _ h => (List.pairwise_cons.mp h).2
  greatest := fun _ _ _ h => (List.pairwise_cons.mp h).1

end PriorityQueue
