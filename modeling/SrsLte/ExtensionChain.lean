import Mathlib.Data.List.Basic
import Mathlib.Tactic.Common

/-!
# Chains of entries with extension bits

A string begins with entries one behind the other. `width` tells how long the first entry is, and
`more` whether another one follows it; both are read off the string itself.
-/

/-- The string begins with a chain of exactly so many entries and contains all of them. -/
inductive ExtensionChain {α : Type*} (width : List α → ℕ) (more : List α → Bool) : ℕ → List α → Prop
  | last {xs : List α} : width xs ≤ xs.length → more xs = false → ExtensionChain width more 1 xs
  | next {n : ℕ} {xs : List α} : width xs ≤ xs.length → more xs = true →
      ExtensionChain width more n (xs.drop (width xs)) → ExtensionChain width more (n + 1) xs

namespace ExtensionChain

variable {α : Type*} {width : List α → ℕ} {more : List α → Bool} {xs : List α}

/-- The string begins with a chain of at most `room` entries. -/
def Within (width : List α → ℕ) (more : List α → Bool) (room : ℕ) (xs : List α) : Prop :=
  ∃ n ≤ room, ExtensionChain width more n xs

theorem pos {n : ℕ} (h : ExtensionChain width more n xs) : 0 < n := by
  cases h with
  | last => exact Nat.one_pos
  | next => exact Nat.succ_pos _

theorem not_within_zero : ¬ Within width more 0 xs := by
  rintro ⟨n, hn, h⟩
  exact absurd h.pos (Nat.not_lt.mpr hn)

theorem within_succ {room : ℕ} :
    Within width more (room + 1) xs ↔
      width xs ≤ xs.length ∧ (more xs = true → Within width more room (xs.drop (width xs))) := by
  constructor
  · rintro ⟨n, hn, h⟩
    cases h with
    | last hwidth hmore => exact ⟨hwidth, fun h => absurd (h.symm.trans hmore) (by decide)⟩
    | next hwidth hmore h => exact ⟨hwidth, fun _ => ⟨_, Nat.le_of_succ_le_succ hn, h⟩⟩
  · rintro ⟨hwidth, hrest⟩
    cases hmore : more xs with
    | false => exact ⟨1, Nat.succ_le_succ (Nat.zero_le _), last hwidth hmore⟩
    | true =>
      obtain ⟨n, hn, h⟩ := hrest hmore
      exact ⟨n + 1, Nat.succ_le_succ hn, next hwidth hmore h⟩

theorem within_succ_of_width_lt {room : ℕ} (h : xs.length < width xs) :
    ¬ Within width more (room + 1) xs := fun hwithin =>
  absurd (within_succ.mp hwithin).1 (Nat.not_le.mpr h)

end ExtensionChain
