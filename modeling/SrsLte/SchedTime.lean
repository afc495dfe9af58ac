import Mathlib.Data.List.Basic
import Mathlib.Order.Defs.LinearOrder
import SrsLte.Word

/-!
# The present time of the scheduler

`sched::dl_sched` keeps the latest TTI that it was called for. The greater of two TTIs is taken with
one unsigned subtraction.
-/

namespace SrsLte

open Word (sub32)

structure SchedTime where
  configured : Bool := false
  currentTti : ℕ := 0

namespace SchedTime

/-- `TX_DELAY`. -/
def txDelay : ℕ := 4

def ttiSubtract (tti1 tti2 : ℕ) : ℕ := sub32 (tti1 + 10240) tti2 % 10240

def maxTti (tti1 tti2 : ℕ) : ℕ :=
  if sub32 tti1 tti2 > 10240 / 2 then min tti1 tti2 else max tti1 tti2

/-- The scheduler and, if the carrier exists, the TTI whose result is copied. -/
def dlSched (nofCarriers : ℕ) (s : SchedTime) (tti : Fin 10240) (ccIdx : ℕ) :
    SchedTime × Option ℕ :=
  if !s.configured then (s, none)
  else
    let ttiRx := ttiSubtract tti txDelay
    ({ s with currentTti := maxTti s.currentTti ttiRx },
      if ccIdx < nofCarriers then some ttiRx else none)

def step (nofCarriers : ℕ) (s : SchedTime) (call : Fin 10240 × ℕ) : SchedTime :=
  (dlSched nofCarriers s call.1 call.2).1

def ttiRx (call : Fin 10240 × ℕ) : ℕ := ttiSubtract call.1 txDelay

/-- The later of two TTIs in cyclic order: `t`, if it is less than half of the TTIs ahead. -/
def later (latest t : ℕ) : ℕ := if (t + 10240 - latest) % 10240 < 5120 then t else latest

def latest : List ℕ → Option ℕ
  | [] => none
  | t :: ts => some (ts.foldl later t)

variable {nofCarriers : ℕ} {s : SchedTime}

theorem maxTti_zero {t : ℕ} (ht : t < 10240) : maxTti 0 t = 0 := by
  unfold maxTti sub32
  split_ifs with h
  · exact Nat.zero_min t
  · have hzero : t = 0 := by omega
    rw [hzero, max_self]

theorem ttiRx_lt (call : Fin 10240 × ℕ) : ttiRx call < 10240 := Nat.mod_lt _ (by decide)

theorem currentTti_foldl (calls : List (Fin 10240 × ℕ)) (hs : s.currentTti = 0) :
    (calls.foldl (step nofCarriers) s).currentTti = 0 := by
  induction calls generalizing s with
  | nil => exact hs
  | cons call calls ih =>
    refine ih ?_
    unfold step dlSched
    by_cases hc : s.configured = true
    · have hlt := ttiRx_lt call
      unfold ttiRx at hlt
      rw [hc, Bool.not_true, if_neg Bool.false_ne_true]
      dsimp only
      rw [hs, maxTti_zero hlt]
    · rw [if_pos (by simpa using hc)]
      exact hs

theorem later_zero_iff {t : ℕ} (ht : t < 10240) : later 0 t = 0 ↔ t = 0 ∨ 5120 ≤ t := by
  unfold later
  split_ifs <;> omega

theorem forall_prefix_later_iff {ts : List ℕ} (hts : ∀ t ∈ ts, t < 10240) :
    (∀ pre, pre <+: ts → pre.foldl later 0 = 0) ↔ ∀ t ∈ ts, t = 0 ∨ 5120 ≤ t := by
  induction ts with
  | nil => simp
  | cons t ts ih =>
    obtain ⟨ht, hts⟩ := List.forall_mem_cons.mp hts
    rw [List.forall_mem_cons, ← ih hts, ← later_zero_iff ht]
    constructor
    · intro h
      have hlater : later 0 t = 0 := by
        have := h [t] (List.prefix_append [t] ts)
        rwa [List.foldl_cons, List.foldl_nil] at this
      refine ⟨hlater, fun pre hpre => ?_⟩
      have := h (t :: pre) (List.cons_prefix_cons.mpr ⟨rfl, hpre⟩)
      rwa [List.foldl_cons, hlater] at this
    · rintro ⟨hlater, h⟩ pre hpre
      cases pre with
      | nil => rfl
      | cons t' pre =>
        obtain ⟨rfl, hpre'⟩ := List.cons_prefix_cons.mp hpre
        rw [List.foldl_cons, hlater]
        exact h pre hpre'

/-- The time follows the calls exactly when the first is for TTI 0 and none is ahead of it. -/
theorem current_latest_iff (nofCarriers : ℕ) (calls : List (Fin 10240 × ℕ)) :
    (∀ pre, pre <+: calls → pre ≠ [] →
        latest (pre.map ttiRx) = some (pre.foldl (step nofCarriers) ⟨true, 0⟩).currentTti) ↔
      ∀ first rest, calls.map ttiRx = first :: rest →
        first = 0 ∧ ∀ t ∈ rest, t = 0 ∨ 5120 ≤ t := by
  have hcurrent : ∀ pre : List (Fin 10240 × ℕ),
      (pre.foldl (step nofCarriers) ⟨true, 0⟩).currentTti = 0 := fun pre =>
    currentTti_foldl pre rfl
  simp only [hcurrent]
  cases calls with
  | nil => simp
  | cons call calls =>
    have hrest : ∀ t ∈ calls.map ttiRx, t < 10240 :=
      List.forall_mem_map.mpr fun c _ => ttiRx_lt c
    constructor
    · rintro h first rest heq
      obtain ⟨rfl, rfl⟩ := List.cons_eq_cons.mp heq
      have hfirst : ttiRx call = 0 := by
        have := h [call] (List.prefix_append [call] calls) (List.cons_ne_nil _ _)
        rw [List.map_cons, List.map_nil, latest, List.foldl_nil] at this
        exact Option.some.inj this
      refine ⟨hfirst, (forall_prefix_later_iff hrest).mp fun pre hpre => ?_⟩
      obtain ⟨pre, hpre', rfl⟩ := List.prefix_map_iff.mp hpre
      have := h (call :: pre) (List.cons_prefix_cons.mpr ⟨rfl, hpre'⟩) (List.cons_ne_nil _ _)
      rw [List.map_cons, latest, hfirst] at this
      exact Option.some.inj this
    · intro h pre hpre hne
      obtain ⟨hfirst, hlater⟩ := h _ _ List.map_cons
      cases pre with
      | nil => exact absurd rfl hne
      | cons call' pre =>
        obtain ⟨rfl, hpre'⟩ := List.cons_prefix_cons.mp hpre
        rw [List.map_cons, latest, hfirst,
          (forall_prefix_later_iff hrest).mpr hlater _ (hpre'.map ttiRx)]

/-- Time stands still: the call for the next TTI. -/
theorem current_stays :
    ¬ ∀ calls : List (Fin 10240 × ℕ), ∀ pre, pre <+: calls → pre ≠ [] →
      latest (pre.map ttiRx) = some (pre.foldl (step 1) ⟨true, 0⟩).currentTti := by
  intro h
  have := h [(4, 0), (5, 0)] [(4, 0), (5, 0)] (List.prefix_refl _) (by simp)
  exact absurd this (by decide)

end SchedTime

end SrsLte
