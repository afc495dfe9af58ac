import Mathlib.Tactic.Common

/-!
# Four columns, written by rows and read by columns

Numbers are written row by row into a matrix of four columns and read column by column. The second
and the fourth column lack their last rows, so that the last rows take two numbers each.
-/

namespace FourColumns

/-- The row of `v`, with `k` of `r` rows that take two numbers. -/
def row (r k v : ℕ) : ℕ := if v < 4 * (r - k) then v / 4 else r - k + (v - 4 * (r - k)) / 2

/-- The column of `v`. -/
def column (r k v : ℕ) : ℕ := if v < 4 * (r - k) then v % 4 else 2 * (v % 2)

/-- The place at which `v` is read. -/
def place (r k v : ℕ) : ℕ :=
  match column r k v with
  | 0 => row r k v
  | 1 => r + row r k v
  | 2 => 2 * r - k + row r k v
  | _ => 3 * r - k + row r k v

/-- The number at the row `i` of the first column or, with `one`, of the third. -/
def longColumn (r k i one : ℕ) : ℕ :=
  if i < r - k then 4 * i + 2 * one else 4 * (r - k) + 2 * (i - (r - k)) + one

/-- The number that is read at the place `p`. -/
def written (r k p : ℕ) : ℕ :=
  if p < r then longColumn r k p 0
  else if p < 2 * r - k then 4 * (p - r) + 1
  else if p < 3 * r - k then longColumn r k (p - (2 * r - k)) 1
  else 4 * (p - (3 * r - k)) + 3

variable {r k v : ℕ}

theorem place_full (hv : v < 4 * (r - k)) :
    (v % 4 = 0 ∧ place r k v = v / 4) ∨ (v % 4 = 1 ∧ place r k v = r + v / 4) ∨
      (v % 4 = 2 ∧ place r k v = 2 * r - k + v / 4) ∨
      (v % 4 = 3 ∧ place r k v = 3 * r - k + v / 4) := by
  have hfour : v % 4 = 0 ∨ v % 4 = 1 ∨ v % 4 = 2 ∨ v % 4 = 3 := by omega
  unfold place column row
  rw [if_pos hv, if_pos hv]
  rcases hfour with h | h | h | h <;> rw [h] <;> simp

theorem place_short (hv : 4 * (r - k) ≤ v) :
    (v % 2 = 0 ∧ place r k v = r - k + (v - 4 * (r - k)) / 2) ∨
      (v % 2 = 1 ∧ place r k v = 2 * r - k + (r - k + (v - 4 * (r - k)) / 2)) := by
  unfold place column row
  rw [if_neg (Nat.not_lt.mpr hv), if_neg (Nat.not_lt.mpr hv)]
  rcases Nat.mod_two_eq_zero_or_one v with h | h <;> rw [h] <;> simp

section

variable (hk : k ≤ r) (hv : v < 4 * r - 2 * k)
include hk hv

theorem place_lt : place r k v < 4 * r - 2 * k := by
  rcases Nat.lt_or_ge v (4 * (r - k)) with hfull | hshort
  · have hplace := place_full hfull
    omega
  · have hplace := place_short hshort
    omega

theorem written_place : written r k (place r k v) = v := by
  unfold written longColumn
  rcases Nat.lt_or_ge v (4 * (r - k)) with hfull | hshort
  · rcases place_full hfull with ⟨hmod, hplace⟩ | ⟨hmod, hplace⟩ | ⟨hmod, hplace⟩ | ⟨hmod, hplace⟩
    all_goals
      rw [hplace]
      split_ifs <;> omega
  · rcases place_short hshort with ⟨hmod, hplace⟩ | ⟨hmod, hplace⟩
    all_goals
      rw [hplace]
      split_ifs <;> omega

theorem place_injective {w : ℕ} (hw : w < 4 * r - 2 * k)
    (heq : place r k v = place r k w) : v = w := by
  rw [← written_place hk hv, heq, written_place hk hw]

end

end FourColumns
