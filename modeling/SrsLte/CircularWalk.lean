import Mathlib.Data.List.GetD
import Mathlib.Data.List.Range
import Mathlib.Tactic.Common
import Mathlib.Tactic.Ring

/-!
# Walks around a circular buffer

A loop goes around the places of a buffer, leaves out the ones that are null and does one round of
its body at each of the others, until it has done so often enough. The places it stops at are the
ones that are not null, in order, again and again.
-/

namespace CircularWalk

variable {σ : Type*} {n out : ℕ} {null : ℕ → Bool} {body : σ → ℕ → ℕ → σ}

/-- The place behind `j`. -/
def next (n j : ℕ) : ℕ := if j + 1 = n then 0 else j + 1

/-- `while (k < out) { if (!null(j)) { body; k++; } j = next(j); }` -/
def walk (n out : ℕ) (null : ℕ → Bool) (body : σ → ℕ → ℕ → σ) : ℕ → ℕ → ℕ → σ → Option σ
  | 0, _, k, s => if k < out then none else some s
  | fuel + 1, j, k, s =>
    if k < out then
      if null j then walk n out null body fuel (next n j) k s
      else walk n out null body fuel (next n j) (k + 1) (body s k j)
    else some s

def live (n : ℕ) (null : ℕ → Bool) : List ℕ := (List.range n).filter fun j => !null j

/-- The number of places before `j` that are not null. -/
def below (null : ℕ → Bool) (j : ℕ) : ℕ := (live j null).length

/-- Where a walk that starts at `start` does round `k` of its body. -/
def visit (n : ℕ) (null : ℕ → Bool) (start k : ℕ) : ℕ :=
  (live n null).getD ((below null start + k) % (live n null).length) 0

theorem mem_live {j : ℕ} : j ∈ live n null ↔ j < n ∧ null j = false := by
  simp [live]

theorem below_succ (null : ℕ → Bool) (j : ℕ) :
    below null (j + 1) = if null j then below null j else below null j + 1 := by
  unfold below live
  rw [List.range_succ, List.filter_append]
  cases hnull : null j <;> simp [hnull]

theorem live_eq_append (null : ℕ → Bool) {j : ℕ} (hj : j ≤ n) :
    ∃ rest, live n null = live j null ++ rest := by
  obtain ⟨m, rfl⟩ := Nat.exists_eq_add_of_le hj
  unfold live
  rw [List.range_add, List.filter_append]
  exact ⟨_, rfl⟩

theorem below_le (null : ℕ → Bool) {j : ℕ} (hj : j ≤ n) : below null j ≤ (live n null).length := by
  obtain ⟨rest, hrest⟩ := live_eq_append null hj
  rw [hrest, List.length_append]
  exact Nat.le_add_right _ _

theorem live_below {j : ℕ} (hj : j < n) (hnull : null j = false) :
    below null j < (live n null).length ∧ (live n null)[below null j]? = some j := by
  have hlast : live (j + 1) null = live j null ++ [j] := by
    unfold live
    rw [List.range_succ, List.filter_append]
    simp [hnull]
  obtain ⟨rest, hrest⟩ := live_eq_append null hj
  have hget : (live n null)[below null j]? = some j := by
    rw [hrest, hlast, List.append_assoc]
    exact List.getElem?_append_right le_rfl |>.trans (by simp)
  exact ⟨(List.getElem?_eq_some_iff.mp hget).choose, hget⟩

theorem visit_mem {start : ℕ} (hlive : live n null ≠ []) (k : ℕ) :
    visit n null start k ∈ live n null := by
  have hpos : 0 < (live n null).length := List.length_pos_iff.mpr hlive
  unfold visit
  rw [List.getD_eq_getElem _ _ (Nat.mod_lt _ hpos)]
  exact List.getElem_mem _

theorem visit_congr {null' : ℕ → Bool} {start : ℕ} (h : ∀ j < n, null j = null' j)
    (hstart : start ≤ n) (k : ℕ) : visit n null start k = visit n null' start k := by
  have hlive {m : ℕ} (hm : m ≤ n) : live m null = live m null' := by
    refine List.filter_congr fun j hj => ?_
    rw [h j (Nat.lt_of_lt_of_le (List.mem_range.mp hj) hm)]
  unfold visit below
  rw [hlive le_rfl, hlive hstart]

theorem next_spec (null : ℕ → Bool) {j : ℕ} (q : ℕ) (hj : j < n) :
    ∃ q', next n j < n ∧ q' * n + next n j = q * n + j + 1 ∧
      q' * (live n null).length + below null (next n j) =
        q * (live n null).length + below null (j + 1) := by
  unfold next
  split_ifs with hlast
  · refine ⟨q + 1, by omega, by rw [Nat.succ_mul]; omega, ?_⟩
    rw [hlast, Nat.succ_mul]
    rfl
  · exact ⟨q, by omega, rfl, rfl⟩

/-- What holds between two rounds after `q` times around: the fuel lasts, and `k` counts the places
that were not null. -/
theorem walk_from {start fuel q j k : ℕ} (hlive : live n null ≠ []) (hstart : start < n)
    (hfuel : n * (out + 1) ≤ fuel + q * n + j) (hj : j < n)
    (hk : below null start + k = q * (live n null).length + below null j) (hkout : k ≤ out)
    (s : σ) :
    walk n out null body fuel j k s =
      some ((List.range' k (out - k)).foldl
        (fun s k => body s k (visit n null start k)) s) := by
  induction fuel generalizing q j k s with
  | zero =>
    have hpos : 0 < (live n null).length := List.length_pos_iff.mpr hlive
    have hround : out + 1 ≤ q := by
      by_contra hlt
      have hmul : n * (q + 1) ≤ n * (out + 1) := Nat.mul_le_mul_left n (by omega)
      rw [Nat.mul_succ, Nat.mul_comm n q] at hmul
      omega
    have hall := below_le null hstart.le
    have hmul : (out + 1) * (live n null).length ≤ q * (live n null).length :=
      Nat.mul_le_mul_right _ hround
    have hout : out * 1 ≤ out * (live n null).length := Nat.mul_le_mul_left out hpos
    rw [Nat.succ_mul] at hmul
    have hdone : out = k := by omega
    rw [walk, if_neg (by omega), hdone, Nat.sub_self]
    rfl
  | succ fuel ih =>
    unfold walk
    split_ifs with hout hnull
    · obtain ⟨q', hlt, hround, hcount⟩ := next_spec null q hj
      rw [below_succ, if_pos hnull] at hcount
      exact ih (q := q') (by omega) hlt (by omega) hkout s
    · obtain ⟨q', hlt, hround, hcount⟩ := next_spec null q hj
      rw [below_succ, if_neg hnull] at hcount
      obtain ⟨hbelow, hget⟩ := live_below hj (Bool.eq_false_of_not_eq_true hnull)
      have hvisit : visit n null start k = j := by
        unfold visit
        rw [hk, Nat.mul_comm, Nat.mul_add_mod, Nat.mod_eq_of_lt hbelow, List.getD_eq_getElem?_getD,
          hget]
        rfl
      rw [ih (q := q') (by omega) hlt (by omega) hout, show out - k = out - (k + 1) + 1 by omega,
        List.range'_succ, List.foldl_cons, hvisit]
    · rw [show out - k = 0 by omega]
      rfl

theorem walk_eq {start fuel : ℕ} (hlive : live n null ≠ []) (hstart : start < n)
    (hfuel : n * (out + 1) ≤ fuel) (s : σ) :
    walk n out null body fuel start 0 s =
      some ((List.range out).foldl (fun s k => body s k (visit n null start k)) s) := by
  rw [List.range_eq_range']
  exact walk_from (q := 0) hlive hstart (by omega) hstart (by omega) (Nat.zero_le out) s

theorem foldl_append {α : Type*} (f : ℕ → α) (m : ℕ) :
    (List.range m).foldl (fun output k => output ++ [f k]) [] = (List.range m).map f := by
  induction m with
  | zero => rfl
  | succ m ih =>
    rw [List.range_succ, List.foldl_append, ih, List.map_append]
    rfl

theorem getD_foldl_set {α : Type*} (f : α → ℕ → α) (stop : ℕ → ℕ) (d : α) {p : ℕ} (ks : List ℕ)
    (tmp : List α) (hp : p < tmp.length) :
    (ks.foldl (fun tmp k => tmp.set (stop k) (f (tmp.getD (stop k) d) k)) tmp).getD p d =
      (ks.filter fun k => stop k = p).foldl f (tmp.getD p d) := by
  induction ks generalizing tmp with
  | nil => rfl
  | cons k ks ih =>
    rw [List.foldl_cons, ih _ (by rwa [List.length_set]), List.getD_eq_getElem?_getD,
      List.getElem?_set, List.filter_cons]
    by_cases hk : stop k = p
    · subst hk
      simp [hp]
    · simp [hk]

end CircularWalk
