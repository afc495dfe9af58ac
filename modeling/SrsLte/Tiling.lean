import Mathlib.Data.Set.Basic
import Mathlib.Tactic.Common

/-!
# Tilings

A unit (a list over any type) is cut into pieces, each from an offset `start` to an offset `stop`.
A reassembler that appends the piece that starts where it has got to has always put together the
beginning of the unit, and it stops only when the next piece is missing.
-/

namespace Tiling

variable {ι α : Type*} {start stop : ι → ℕ} {C A A' : Set ι} {m n : ℕ} {c : ι}

def part (u : List α) (a b : ℕ) : List α := (u.drop a).take (b - a)

theorem take_append_part (u : List α) {a b : ℕ} (h : a ≤ b) :
    u.take a ++ part u a b = u.take b := by
  unfold part
  conv_rhs => rw [← Nat.add_sub_cancel' h, List.take_add]

theorem length_part {u : List α} {a b : ℕ} (h : b ≤ u.length) : (part u a b).length = b - a := by
  unfold part
  rw [List.length_take, List.length_drop]
  omega

/-- Pieces that are not empty, do not overlap and lie below `n`. -/
structure Apart (start stop : ι → ℕ) (n : ℕ) (C : Set ι) : Prop where
  lt : ∀ c ∈ C, start c < stop c
  le : ∀ c ∈ C, stop c ≤ n
  eq : ∀ c ∈ C, ∀ d ∈ C, start c ≤ start d → start d < stop c → c = d

/-- The pieces leave no gap below `n`. -/
structure Covers (start stop : ι → ℕ) (n : ℕ) (C : Set ι) : Prop where
  first : ∃ c ∈ C, start c = 0
  next : ∀ c ∈ C, stop c < n → ∃ d ∈ C, start d = stop c

/-- Pieces of `A` lead from the start of the unit to `m`, and no piece of `C` is left out. -/
structure Reaches (start stop : ι → ℕ) (C A : Set ι) (m : ℕ) : Prop where
  boundary : m = 0 ∨ ∃ c ∈ A, stop c = m
  before : ∀ c ∈ C, start c < m → c ∈ A

theorem reaches_zero (C A : Set ι) : Reaches start stop C A 0 :=
  ⟨Or.inl rfl, fun _ _ h => absurd h (Nat.not_lt_zero _)⟩

theorem Reaches.mono (h : Reaches start stop C A m) (hA : A ⊆ A') : Reaches start stop C A' m where
  boundary := h.boundary.imp_right fun ⟨c, hc, hm⟩ => ⟨c, hA hc, hm⟩
  before := fun c hc hlt => hA (h.before c hc hlt)

theorem Reaches.extend (h : Reaches start stop C A m) (hC : Apart start stop n C) (hAC : A ⊆ C)
    (hc : c ∈ A) (hstart : start c = m) : Reaches start stop C A (stop c) where
  boundary := Or.inr ⟨c, hc, rfl⟩
  before := fun d hd hlt => by
    by_cases hm : start d < m
    · exact h.before d hd hm
    · obtain rfl : c = d := hC.eq c (hAC hc) d hd (by omega) hlt
      exact hc

theorem Reaches.complete (h : Reaches start stop C A m) (hC : Covers start stop n C)
    (hall : C ⊆ A) (hAC : A ⊆ C) (hstuck : ∀ c ∈ A, start c ≠ m) : n ≤ m := by
  by_contra hlt
  rcases h.boundary with rfl | ⟨c, hc, rfl⟩
  · obtain ⟨c, hc, hzero⟩ := hC.first
    exact hstuck c (hall hc) hzero
  · obtain ⟨d, hd, hnext⟩ := hC.next c (hAC hc) (not_le.mp hlt)
    exact hstuck d (hall hd) hnext

theorem Reaches.all (h : Reaches start stop C A n) (hC : Apart start stop n C) : C ⊆ A :=
  fun c hc => h.before c hc ((hC.lt c hc).trans_le (hC.le c hc))

end Tiling
