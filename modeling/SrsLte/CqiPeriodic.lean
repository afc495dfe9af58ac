import Mathlib.Data.Int.ModEq
import Mathlib.Tactic.Ring

/-!
# Occasions of periodic CQI and RI reports

A report is due when the TTI, less an offset, is a multiple of a period. The difference is one of 32
bits, so that it is not the number meant when the TTI is below the offset.
-/

namespace SrsLte

namespace Cqi

/-- The value of a difference of type `uint32_t`. -/
def ofDiff32 (x : ℤ) : ℕ := (x % 2 ^ 32).toNat

/-- `cqi_get_N_fdd`: `N_p` and `N_offset`, which stay 0 behind the table. -/
def cqiGetNFdd (i : ℕ) : Option (ℕ × ℕ) :=
  if i ≤ 1 then some (2, i)
  else if i ≤ 6 then some (5, i - 2)
  else if i ≤ 16 then some (10, i - 7)
  else if i ≤ 36 then some (20, i - 17)
  else if i ≤ 76 then some (40, i - 37)
  else if i ≤ 156 then some (80, i - 77)
  else if i ≤ 316 then some (160, i - 157)
  else if i = 317 then none
  else if i ≤ 349 then some (32, i - 318)
  else if i ≤ 413 then some (64, i - 350)
  else if i ≤ 541 then some (128, i - 414)
  else if i ≤ 1023 then none
  else some (0, 0)

/-- `cqi_get_N_tdd`. -/
def cqiGetNTdd (i : ℕ) : Option (ℕ × ℕ) :=
  if i = 0 then some (1, i)
  else if i ≤ 5 then some (5, i - 1)
  else if i ≤ 15 then some (10, i - 5)
  else if i ≤ 35 then some (20, i - 16)
  else if i ≤ 75 then some (40, i - 36)
  else if i ≤ 155 then some (80, i - 76)
  else if i ≤ 315 then some (160, i - 156)
  else if i = 1023 then none
  else some (0, 0)

def cqiGetN (isFdd : Bool) (i : ℕ) : Option (ℕ × ℕ) :=
  if isFdd then cqiGetNFdd i else cqiGetNTdd i

/-- `cqi_send`. -/
def cqiSend (i tti : ℕ) (isFdd : Bool) : Bool :=
  match cqiGetN isFdd i with
  | none => false
  | some (np, offset) => np ≠ 0 ∧ ofDiff32 (tti - offset) % np = 0

/-- `M_ri` and `N_offset_ri` in `ri_send`. -/
def riGetM (i : ℕ) : Option (ℕ × ℤ) :=
  if i ≤ 160 then some (1, -i)
  else if i ≤ 321 then some (2, -(i - 161))
  else if i ≤ 482 then some (4, -(i - 322))
  else if i ≤ 643 then some (8, -(i - 483))
  else if i ≤ 804 then some (16, -(i - 644))
  else if i ≤ 965 then some (32, -(i - 805))
  else none

/-- `ri_send`. -/
def riSend (i iRi tti : ℕ) (isFdd : Bool) : Bool :=
  match cqiGetN isFdd i, riGetM iRi with
  | some (np, offset), some (m, offsetRi) =>
    m ≠ 0 ∧ np ≠ 0 ∧ ofDiff32 (tti - offset - offsetRi) % (np * m) = 0
  | _, _ => false

def ttiMod : ℕ := 10240

theorem ofDiff32_of_nonneg {x : ℤ} (h : 0 ≤ x) (hlt : x < 2 ^ 32) : (ofDiff32 x : ℤ) = x := by
  unfold ofDiff32
  omega

theorem ofDiff32_of_neg {x : ℤ} (h : x < 0) (hlt : -2 ^ 32 ≤ x) :
    (ofDiff32 x : ℤ) = 2 ^ 32 + x := by
  unfold ofDiff32
  omega

theorem dvd_iff_eq_zero {p : ℕ} {x : ℤ} (hlow : -(p : ℤ) < x) (hhigh : x < p) :
    (p : ℤ) ∣ x ↔ x = 0 := by
  constructor
  · intro h
    exact Int.eq_zero_of_dvd_of_natAbs_lt_natAbs h (by omega)
  · rintro rfl
    exact Int.dvd_zero _

/-- The test for a multiple of `p` is right for a difference above `-p`, unless the difference is
the negative of what 2 to the 32 leaves. -/
theorem ofDiff32_mod_iff {p : ℕ} {x : ℤ} (hlow : -(p : ℤ) < x) (hhigh : x < 2 ^ 32)
    (hp : p < 2 ^ 32) :
    (ofDiff32 x % p = 0 ↔ (p : ℤ) ∣ x) ↔ ¬ (x < 0 ∧ x = -((2 ^ 32 % p : ℕ) : ℤ)) := by
  have hdvd : ofDiff32 x % p = 0 ↔ (p : ℤ) ∣ (ofDiff32 x : ℤ) := by
    rw [← Nat.dvd_iff_mod_eq_zero, Int.natCast_dvd_natCast]
  rw [hdvd]
  by_cases hneg : x < 0
  · have hmod : 2 ^ 32 % p < p := Nat.mod_lt _ (by omega)
    have hsplit : (2 ^ 32 : ℤ) + x = p * ((2 ^ 32 / p : ℕ) : ℤ) + (((2 ^ 32 % p : ℕ) : ℤ) + x) := by
      have hcast : ((p * (2 ^ 32 / p) + 2 ^ 32 % p : ℕ) : ℤ) = ((2 ^ 32 : ℕ) : ℤ) := by
        rw [Nat.div_add_mod]
      rw [Int.natCast_add, Int.natCast_mul] at hcast
      rw [← Int.add_assoc, hcast]
      rfl
    rw [ofDiff32_of_neg hneg (by omega), hsplit, Int.dvd_add_right (Int.dvd_mul_right _ _),
      dvd_iff_eq_zero (by omega) (by omega), dvd_iff_eq_zero hlow (by omega)]
    omega
  · rw [ofDiff32_of_nonneg (by omega) hhigh]
    simp [hneg]

/-- An occasion is due at the TTIs congruent to `c` modulo `p`, and at no others. -/
def Exact (send : ℕ → Bool) (p : ℕ) (c : ℤ) : Prop :=
  ∀ tti < ttiMod, send tti = true ↔ (tti : ℤ) ≡ c [ZMOD p]

/-- From each occasion on, the next one is `p` subframes later; `t` counts subframes without end. -/
def Apart (send : ℕ → Bool) (p : ℕ) : Prop :=
  ∀ t, send (t % ttiMod) = true →
    send ((t + p) % ttiMod) = true ∧ ∀ d, 0 < d → d < p → send ((t + d) % ttiMod) = false

def NoneEarly (p : ℕ) (c : ℤ) : Prop := 2 ^ 32 % p = 0 ∨ c < (2 ^ 32 % p : ℕ)

variable {send : ℕ → Bool} {p : ℕ} {c : ℤ}

theorem Exact.mod_iff (h : Exact send p c) (hp : p ∣ ttiMod) (t : ℕ) :
    send (t % ttiMod) = true ↔ (t : ℤ) ≡ c [ZMOD p] := by
  rw [h _ (Nat.mod_lt t (by decide))]
  have hmod : ((t % ttiMod : ℕ) : ℤ) ≡ t [ZMOD p] := by
    rw [Int.natCast_modEq_iff]
    exact Nat.mod_mod_of_dvd t hp
  exact ⟨fun ht => hmod.symm.trans ht, fun ht => hmod.trans ht⟩

theorem Exact.apart (h : Exact send p c) (hp : p ∣ ttiMod) : Apart send p := by
  intro t ht
  have hdue := (h.mod_iff hp t).mp ht
  constructor
  · rw [h.mod_iff hp, Nat.cast_add]
    exact Int.add_modEq_right.trans hdue
  · intro d hpos hlt
    rw [← Bool.not_eq_true, h.mod_iff hp, Nat.cast_add]
    intro hboth
    have hzero : (d : ℤ) ≡ 0 [ZMOD p] := by
      have hsum : (t : ℤ) + d ≡ t + 0 [ZMOD p] := by
        rw [add_zero]
        exact hboth.trans hdue.symm
      exact hsum.add_left_cancel'
    rw [Int.modEq_zero_iff_dvd, dvd_iff_eq_zero (by omega) (by omega)] at hzero
    omega

theorem exact_iff (hp : p < 2 ^ 32) (hlow : -160 ≤ c) (hc : c < p) (hc' : c < ttiMod)
    (hsend : ∀ tti, send tti = true ↔ ofDiff32 (tti - c) % p = 0) :
    Exact send p c ↔ NoneEarly p c := by
  have hpoint : ∀ tti < ttiMod, ((send tti = true ↔ (tti : ℤ) ≡ c [ZMOD p]) ↔
      ¬ ((tti : ℤ) - c < 0 ∧ (tti : ℤ) - c = -((2 ^ 32 % p : ℕ) : ℤ))) := by
    intro tti htti
    rw [hsend, Int.modEq_comm, Int.modEq_iff_dvd]
    unfold ttiMod at htti
    exact ofDiff32_mod_iff (by omega) (by omega) hp
  unfold Exact NoneEarly
  rw [forall₂_congr hpoint]
  constructor
  · intro h
    by_contra hearly
    obtain ⟨hrest, hle⟩ := not_or.mp hearly
    exact h (c - (2 ^ 32 % p : ℕ)).toNat (by omega) (by omega)
  · intro h tti _
    omega

theorem cqiGetNFdd_spec {i np offset : ℕ} (h : cqiGetNFdd i = some (np, offset)) (hnp : np ≠ 0) :
    np ≤ 160 ∧ offset < np := by
  unfold cqiGetNFdd at h
  iterate 12
    rcases ite_eq_iff.mp h with ⟨hi, h⟩ | ⟨hi, h⟩
    · simp only [Option.some.injEq, Prod.mk.injEq, reduceCtorEq] at h <;> omega
  simp only [Option.some.injEq, Prod.mk.injEq] at h
  omega

theorem cqiGetNTdd_spec {i np offset : ℕ} (h : cqiGetNTdd i = some (np, offset)) (hnp : np ≠ 0) :
    np ≤ 160 ∧ (offset < np ∨ np = 10 ∧ offset = 10) := by
  unfold cqiGetNTdd at h
  iterate 8
    rcases ite_eq_iff.mp h with ⟨hi, h⟩ | ⟨hi, h⟩
    · simp only [Option.some.injEq, Prod.mk.injEq, reduceCtorEq] at h <;> omega
  simp only [Option.some.injEq, Prod.mk.injEq] at h
  omega

theorem cqiGetN_spec {isFdd : Bool} {i np offset : ℕ} (h : cqiGetN isFdd i = some (np, offset))
    (hnp : np ≠ 0) : np ≤ 160 ∧ (offset < np ∨ np = 10 ∧ offset = 10) := by
  cases isFdd with
  | false => exact cqiGetNTdd_spec h hnp
  | true =>
    obtain ⟨hle, hlt⟩ := cqiGetNFdd_spec h hnp
    exact ⟨hle, Or.inl hlt⟩

theorem riGetM_spec {i m : ℕ} {offset : ℤ} (h : riGetM i = some (m, offset)) :
    0 < m ∧ m ≤ 32 ∧ -160 ≤ offset ∧ offset ≤ 0 := by
  unfold riGetM at h
  split_ifs at h <;> simp only [Option.some.injEq, Prod.mk.injEq] at h <;> omega

structure OnTime (isFdd : Bool) (i iRi : ℕ) : Prop where
  offset_lt : ∀ np offset, cqiGetN isFdd i = some (np, offset) → np ≠ 0 → offset < np
  cqi : ∀ tti < ttiMod, cqiSend i tti isFdd = true ↔
    ∃ np offset, cqiGetN isFdd i = some (np, offset) ∧ np ≠ 0 ∧ (tti : ℤ) ≡ offset [ZMOD np]
  ri : ∀ tti < ttiMod, riSend i iRi tti isFdd = true ↔
    ∃ np offset m offsetRi, cqiGetN isFdd i = some (np, offset) ∧ riGetM iRi = some (m, offsetRi) ∧
      np ≠ 0 ∧ (tti : ℤ) ≡ offset + offsetRi [ZMOD (np * m : ℕ)]
  cqi_apart : ∀ np offset, cqiGetN isFdd i = some (np, offset) → np ≠ 0 → np ∣ ttiMod →
    Apart (cqiSend i · isFdd) np
  ri_apart : ∀ np offset m offsetRi, cqiGetN isFdd i = some (np, offset) →
    riGetM iRi = some (m, offsetRi) → np ≠ 0 → np * m ∣ ttiMod →
      Apart (riSend i iRi · isFdd) (np * m)

def NeverEarly (isFdd : Bool) (i iRi : ℕ) : Prop :=
  ∀ np offset, cqiGetN isFdd i = some (np, offset) → np ≠ 0 →
    NoneEarly np offset ∧
      ∀ m offsetRi, riGetM iRi = some (m, offsetRi) → NoneEarly (np * m) (offset + offsetRi)

section Configured

variable {isFdd : Bool} {i iRi np offset m : ℕ} {offsetRi : ℤ}

section

variable (h : cqiGetN isFdd i = some (np, offset)) (hnp : np ≠ 0) (hlt : offset < np)
include h hnp hlt

theorem cqiSend_exact_iff : Exact (cqiSend i · isFdd) np offset ↔ NoneEarly np offset := by
  obtain ⟨hle, -⟩ := cqiGetN_spec h hnp
  apply exact_iff (by omega) (by omega) (by omega) (by unfold ttiMod; omega)
  intro tti
  simp [cqiSend, h, hnp]

theorem riSend_exact_iff (hm : riGetM iRi = some (m, offsetRi)) :
    Exact (riSend i iRi · isFdd) (np * m) (offset + offsetRi) ↔
      NoneEarly (np * m) (offset + offsetRi) := by
  obtain ⟨hle, -⟩ := cqiGetN_spec h hnp
  obtain ⟨hpos, hm32, hlow, hhigh⟩ := riGetM_spec hm
  have hnpm : np ≤ np * m := Nat.le_mul_of_pos_right np hpos
  have hmax : np * m ≤ 160 * 32 := Nat.mul_le_mul hle hm32
  apply exact_iff (by omega) (by omega) (by omega) (by unfold ttiMod; omega)
  intro tti
  simp [riSend, h, hm, hnp, hpos.ne', sub_sub]

end

theorem cqiSend_configured {tti : ℕ} (h : cqiSend i tti isFdd = true) :
    ∃ np offset, cqiGetN isFdd i = some (np, offset) ∧ np ≠ 0 := by
  unfold cqiSend at h
  cases hn : cqiGetN isFdd i with
  | none => simp [hn] at h
  | some n =>
    simp only [hn, decide_eq_true_eq] at h
    exact ⟨n.1, n.2, rfl, h.1⟩

theorem riSend_configured {tti : ℕ} (h : riSend i iRi tti isFdd = true) :
    ∃ np offset m offsetRi, cqiGetN isFdd i = some (np, offset) ∧
      riGetM iRi = some (m, offsetRi) ∧ np ≠ 0 := by
  unfold riSend at h
  cases hn : cqiGetN isFdd i with
  | none => simp [hn] at h
  | some n =>
    cases hm : riGetM iRi with
    | none => simp [hn, hm] at h
    | some m =>
      simp only [hn, hm, decide_eq_true_eq] at h
      exact ⟨n.1, n.2, m.1, m.2, rfl, rfl, h.2.1⟩

end Configured

/-- Reports are due at the TTIs of the tables, a period apart, exactly if no TTI is early by just
what 2 to the 32 leaves. -/
theorem periodic_reports_iff (isFdd : Bool) (i iRi : ℕ) :
    OnTime isFdd i iRi ↔ NeverEarly isFdd i iRi := by
  constructor
  · intro h np offset hn hnp
    have hlt := h.offset_lt np offset hn hnp
    refine ⟨(cqiSend_exact_iff hn hnp hlt).mp fun tti htti => ?_, fun m offsetRi hm =>
      (riSend_exact_iff hn hnp hlt hm).mp fun tti htti => ?_⟩
    · refine (h.cqi tti htti).trans ⟨?_, fun hdue => ⟨np, offset, hn, hnp, hdue⟩⟩
      rintro ⟨np', offset', hn', -, hdue⟩
      obtain ⟨rfl, rfl⟩ := Prod.mk.inj (Option.some.inj (hn.symm.trans hn'))
      exact hdue
    · refine (h.ri tti htti).trans
        ⟨?_, fun hdue => ⟨np, offset, m, offsetRi, hn, hm, hnp, hdue⟩⟩
      rintro ⟨np', offset', m', offsetRi', hn', hm', -, hdue⟩
      obtain ⟨rfl, rfl⟩ := Prod.mk.inj (Option.some.inj (hn.symm.trans hn'))
      obtain ⟨rfl, rfl⟩ := Prod.mk.inj (Option.some.inj (hm.symm.trans hm'))
      exact hdue
  · intro h
    have hlt : ∀ np offset, cqiGetN isFdd i = some (np, offset) → np ≠ 0 → offset < np := by
      intro np offset hn hnp
      rcases (cqiGetN_spec hn hnp).2 with hlt | ⟨rfl, rfl⟩
      · exact hlt
      · exact absurd (h 10 10 hn hnp).1 (by unfold NoneEarly; decide)
    have hcqi {np offset : ℕ} (hn : cqiGetN isFdd i = some (np, offset)) (hnp : np ≠ 0) :
        Exact (cqiSend i · isFdd) np offset :=
      (cqiSend_exact_iff hn hnp (hlt np offset hn hnp)).mpr (h np offset hn hnp).1
    have hri {np offset m : ℕ} {offsetRi : ℤ} (hn : cqiGetN isFdd i = some (np, offset))
        (hnp : np ≠ 0) (hm : riGetM iRi = some (m, offsetRi)) :
        Exact (riSend i iRi · isFdd) (np * m) (offset + offsetRi) :=
      (riSend_exact_iff hn hnp (hlt np offset hn hnp) hm).mpr
        ((h np offset hn hnp).2 m offsetRi hm)
    refine ⟨hlt, fun tti htti => ⟨fun hsend => ?_, ?_⟩, fun tti htti => ⟨fun hsend => ?_, ?_⟩,
      fun np offset hn hnp hp => (hcqi hn hnp).apart hp,
      fun np offset m offsetRi hn hm hnp hp => (hri hn hnp hm).apart hp⟩
    · obtain ⟨np, offset, hn, hnp⟩ := cqiSend_configured hsend
      exact ⟨np, offset, hn, hnp, (hcqi hn hnp tti htti).mp hsend⟩
    · rintro ⟨np, offset, hn, hnp, hdue⟩
      exact (hcqi hn hnp tti htti).mpr hdue
    · obtain ⟨np, offset, m, offsetRi, hn, hm, hnp⟩ := riSend_configured hsend
      exact ⟨np, offset, m, offsetRi, hn, hm, hnp, (hri hn hnp hm tti htti).mp hsend⟩
    · rintro ⟨np, offset, m, offsetRi, hn, hm, hnp, hdue⟩
      exact (hri hn hnp hm tti htti).mpr hdue

/-- An offset of 1 in a period of 5: TTI 0 is an occasion, and so is TTI 1. An offset of 10 in a
period of 10. -/
theorem occasion_too_early :
    (cqiGetN true 3 = some (5, 1) ∧ cqiSend 3 0 true = true ∧ cqiSend 3 1 true = true ∧
      ¬ (0 : ℤ) ≡ 1 [ZMOD 5]) ∧
        cqiGetN false 15 = some (10, 10) := by
  decide

end Cqi

end SrsLte
