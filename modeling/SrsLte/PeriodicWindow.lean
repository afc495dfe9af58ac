import Mathlib.Data.List.Infix
import Mathlib.Data.Nat.Count
import Mathlib.Tactic.Common

/-!
# Windows of a periodic sequence

How often a window of a sequence with period `L` meets the first `M` places of the period.
-/

namespace PeriodicWindow

variable {α : Type*}

theorem isInfix_map_range_iff {f : ℕ → α} {n : ℕ} {w : List α} :
    w <:+: (List.range n).map f ↔
      ∃ a, a + w.length ≤ n ∧ w = (List.range w.length).map fun i => f (a + i) := by
  constructor
  · rintro ⟨before, after, h⟩
    have hlen := congrArg List.length h
    simp only [List.length_append, List.length_map, List.length_range] at hlen
    refine ⟨before.length, by omega, ?_⟩
    apply List.ext_getElem
    · simp
    · intro i hi _
      have hget : (before ++ w ++ after)[before.length + i]? =
          ((List.range n).map f)[before.length + i]? := by rw [h]
      rw [List.append_assoc, List.getElem?_append_right (Nat.le_add_right _ _),
        Nat.add_sub_cancel_left, List.getElem?_append_left hi, List.getElem?_map,
        List.getElem?_range (by omega), List.getElem?_eq_getElem hi] at hget
      rw [List.getElem_map, List.getElem_range]
      exact Option.some.inj hget
  · rintro ⟨a, hle, hw⟩
    obtain ⟨rest, rfl⟩ := Nat.exists_eq_add_of_le hle
    rw [List.range_add, List.range_add, List.map_append, List.map_append, List.map_map]
    refine ⟨_, _, congrArg₂ _ (congrArg₂ _ rfl hw) rfl⟩

theorem count_map_range [DecidableEq α] (f : ℕ → α) (x : α) (n : ℕ) :
    ((List.range n).map f).count x = Nat.count (fun i => f i = x) n := by
  rw [List.count_eq_countP, List.countP_map, Nat.count]
  rfl

theorem count_period {L M : ℕ} (hM : M ≤ L) (a : ℕ) :
    Nat.count (fun k => (a + k) % L < M) L = M := by
  induction a with
  | zero =>
    obtain ⟨d, rfl⟩ := Nat.exists_eq_add_of_le hM
    have hfirst : Nat.count (fun k => (0 + k) % (M + d) < M) M = M := by
      apply Nat.count_of_forall
      intro k hk
      rw [Nat.zero_add, Nat.mod_eq_of_lt (by omega)]
      exact hk
    have hrest : Nat.count (fun k => (0 + (M + k)) % (M + d) < M) d = 0 := by
      apply Nat.count_of_forall_not
      intro k hk
      rw [Nat.zero_add, Nat.mod_eq_of_lt (by omega)]
      omega
    rw [Nat.count_add, hfirst, hrest, Nat.add_zero]
  | succ a ih =>
    have hshift := Nat.count_succ' (p := fun k => (a + k) % L < M) L
    rw [Nat.count_succ, ih, Nat.add_mod_right, Nat.add_zero] at hshift
    have hsame : Nat.count (fun k => (a + 1 + k) % L < M) L =
        Nat.count (fun k => (a + (k + 1)) % L < M) L := by
      congr 1
      funext k
      rw [Nat.add_assoc, Nat.add_comm 1 k]
    rw [hsame]
    omega

theorem count_period_add {L M : ℕ} (hM : M ≤ L) (a e : ℕ) :
    Nat.count (fun k => (a + k) % L < M) (L + e) = M ↔ ∀ k < e, M ≤ (a + k) % L := by
  rw [Nat.count_add, count_period hM, Nat.add_eq_left, Nat.count_iff_forall_not]
  simp only [Nat.not_lt, Nat.add_left_comm a L, Nat.add_mod_left]

end PeriodicWindow
