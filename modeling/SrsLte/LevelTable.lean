import Mathlib.Data.Nat.Find
import Mathlib.Order.Monotone.Basic

/-!
# Level tables

The edges of a table cut the numbers into levels: level `k` starts at edge `k` and ends in front
of edge `k + 1`, and the last level has no end. A number is described by its level, and a level
by a number that stands for it.
-/

structure LevelTable where
  edge : ℕ → ℕ
  top : ℕ
  edge_zero : edge 0 = 0
  edge_lt_succ : ∀ k < top, edge k < edge (k + 1)

namespace LevelTable

variable (t : LevelTable) {x y k l : ℕ}

def level (x : ℕ) : ℕ := Nat.findGreatest (fun k => t.edge k ≤ x) t.top

theorem level_le_top (x : ℕ) : t.level x ≤ t.top := Nat.findGreatest_le t.top

theorem edge_level_le (x : ℕ) : t.edge (t.level x) ≤ x :=
  Nat.findGreatest_spec (P := fun k => t.edge k ≤ x) (Nat.zero_le t.top)
    (t.edge_zero.trans_le (Nat.zero_le x))

theorem edge_lt_edge (hkl : k < l) (hl : l ≤ t.top) : t.edge k < t.edge l := by
  induction l, hkl using Nat.le_induction with
  | base => exact t.edge_lt_succ k (Nat.lt_of_succ_le hl)
  | succ l hkl ih =>
    have hprev := ih (Nat.le_of_succ_le hl)
    exact hprev.trans (t.edge_lt_succ l hl)

theorem edge_le_edge (hkl : k ≤ l) (hl : l ≤ t.top) : t.edge k ≤ t.edge l := by
  rcases hkl.eq_or_lt with rfl | hlt
  · exact le_rfl
  · exact (t.edge_lt_edge hlt hl).le

theorem le_level (hk : k ≤ t.top) (hx : t.edge k ≤ x) : k ≤ t.level x :=
  Nat.le_findGreatest hk hx

theorem lt_edge_of_level_lt (h : t.level x < k) (hk : k ≤ t.top) : x < t.edge k := by
  by_contra hge
  exact absurd (t.le_level hk (Nat.le_of_not_lt hge)) (Nat.not_le.mpr h)

theorem level_eq (hk : k ≤ t.top) (hlow : t.edge k ≤ x) (hhigh : k < t.top → x < t.edge (k + 1)) :
    t.level x = k := by
  apply le_antisymm _ (t.le_level hk hlow)
  by_contra hlt
  have hnext : k + 1 ≤ t.level x := Nat.not_le.mp hlt
  have htop := t.level_le_top x
  have hx := hhigh (Nat.lt_of_lt_of_le hnext htop)
  have hedge := t.edge_le_edge hnext htop
  have hle := t.edge_level_le x
  omega

theorem monotone_level : Monotone t.level := by
  intro x y hxy
  exact t.le_level (t.level_le_top x) ((t.edge_level_le x).trans hxy)

theorem level_edge (hk : k ≤ t.top) : t.level (t.edge k) = k := by
  apply t.level_eq hk le_rfl
  intro hlt
  exact t.edge_lt_succ k hlt

end LevelTable
