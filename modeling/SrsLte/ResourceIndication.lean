import Mathlib.Data.Nat.Log
import Mathlib.Tactic.Ring
import SrsLte.Word

/-!
# Resource indication values

A contiguous allocation of virtual resource blocks is one number: the triangle of lengths and starts
is folded at half the bandwidth into a rectangle. The decoder unfolds it where the allocation would
not fit, by a difference of words.
-/

namespace SrsLte

open Word

/-- `srslte_ra_type2_to_riv`. -/
def raType2ToRiv (lCrb rbStart nofPrb : ℕ) : ℕ :=
  if Word.sub32 lCrb 1 ≤ nofPrb / 2 then (nofPrb * Word.sub32 lCrb 1 + rbStart) % 2 ^ 32
  else Word.sub32 (Word.sub32 (nofPrb * (Word.sub32 nofPrb lCrb + 1) + nofPrb) 1) rbStart

/-- `srslte_ra_type2_from_riv`: `L_crb` and `RB_start`. -/
def raType2FromRiv (riv nofPrb nofVrb : ℕ) : ℕ × ℕ :=
  let lCrb := (riv / nofPrb + 1) % 2 ^ 32
  let rbStart := riv % nofPrb
  if lCrb > sub32 nofVrb rbStart then
    ((sub32 nofPrb (riv / nofPrb) + 1) % 2 ^ 32, sub32 (sub32 nofPrb (riv % nofPrb)) 1)
  else (lCrb, rbStart)

/-- `srslte_ra_type2_ngap`. -/
def raType2Ngap (nofPrb : ℕ) (ngapIs1 : Bool) : ℕ :=
  if nofPrb ≤ 10 then nofPrb / 2
  else if nofPrb = 11 then 4
  else if nofPrb ≤ 19 then 8
  else if nofPrb ≤ 26 then 12
  else if nofPrb ≤ 44 then 18
  else if nofPrb ≤ 49 then 27
  else if nofPrb ≤ 63 then if ngapIs1 then 27 else 9
  else if nofPrb ≤ 79 then if ngapIs1 then 32 else 16
  else if ngapIs1 then 48 else 16

/-- `srslte_ra_type2_n_vrb_dl`. Without a gap, the second case is a division by zero. -/
def raType2NVrbDl (nofPrb : ℕ) (ngapIs1 : Bool) : ℕ :=
  let ngap := raType2Ngap nofPrb ngapIs1
  if ngapIs1 then 2 * if ngap < sub32 nofPrb ngap then ngap else sub32 nofPrb ngap
  else nofPrb / ngap * 2 * ngap % 2 ^ 32

/-- `riv_nbits`: the bits of a resource indication value in a DCI. -/
def rivNbits (nofPrb : ℕ) : ℕ := Nat.clog 2 (nofPrb * (nofPrb + 1) / 2)

/-- The triangle of lengths and starts, folded at half of `n`. -/
def rivFold (n l s : ℕ) : ℕ :=
  if l - 1 ≤ n / 2 then n * (l - 1) + s else n * (n - l + 1) + (n - 1 - s)

variable {n l s v r : ℕ}

theorem raType2ToRiv_eq (hn : n < 2 ^ 32) (hl : 1 ≤ l) (hfit : s + l ≤ n) :
    raType2ToRiv l s n = rivFold n l s % 2 ^ 32 := by
  have hl1 : sub32 l 1 = l - 1 := sub32_of_le hl (by omega)
  have hnl : sub32 n l = n - l := sub32_of_le (by omega) hn
  unfold raType2ToRiv rivFold
  rw [hl1, hnl]
  split_ifs
  · rfl
  · generalize n * (n - l + 1) = m
    unfold sub32
    omega

/-- The decoder unfolds a value that starts within the virtual blocks and goes on past them; a start
past them makes the difference wrap around. -/
theorem raType2FromRiv_eq (hn : n < 2 ^ 32) (hpos : 0 < n) (hv : v < 2 ^ 32)
    (hr : r < 2 ^ 32) (hq : r / n ≤ n) :
    raType2FromRiv r n v =
      if r % n ≤ v ∧ v < r / n + 1 + r % n then ((n - r / n + 1) % 2 ^ 32, n - 1 - r % n)
      else (r / n + 1, r % n) := by
  have hs : r % n < n := Nat.mod_lt r (by omega)
  have hdiv := Nat.div_add_mod r n
  have hlen : r / n + 1 + r % n ≤ r + 1 := by
    have hmul : 1 * (r / n) ≤ n * (r / n) := Nat.mul_le_mul_right _ (by omega)
    omega
  have hshort : (r / n + 1) % 2 ^ 32 = r / n + 1 := by
    refine Nat.mod_eq_of_lt ?_
    rcases Nat.lt_or_eq_of_le hq with hlt | heq
    · omega
    · by_contra hge
      have hmul : 2 * n ≤ n * n := Nat.mul_le_mul_right n (by omega)
      rw [heq] at hdiv hge
      omega
  unfold raType2FromRiv
  dsimp only
  rw [hshort, sub32_of_le hs.le hn, sub32_of_le hq hn,
    sub32_of_le (show 1 ≤ n - r % n by omega) (by omega), Nat.sub_right_comm n]
  generalize r / n = q at hq hlen
  generalize r % n = s at hs hlen
  -- past the virtual blocks the difference is larger than any length
  have hcond : q + 1 > sub32 v s ↔ s ≤ v ∧ v < q + 1 + s := by
    unfold sub32
    omega
  simp only [hcond]

theorem rivFold_near (hl : 1 ≤ l) (hfit : s + l ≤ n) :
    rivFold n l s < n * (l - 1) + s + n ∧ rivFold n l s < n * (n - l + 1) + (n - 1 - s) + n := by
  unfold rivFold
  split_ifs with hhalf
  · have hmul : n * (l - 1) ≤ n * (n - l + 1) := Nat.mul_le_mul_left n (by omega)
    omega
  · have hmul : n * (n - l + 1) ≤ n * (l - 1) := Nat.mul_le_mul_left n (by omega)
    omega

theorem div_mod_of_pair {q : ℕ} (hs : s < n) : (n * q + s) / n = q ∧ (n * q + s) % n = s := by
  constructor
  · rw [Nat.mul_add_div (by omega), Nat.div_eq_of_lt hs, Nat.add_zero]
  · rw [Nat.mul_add_mod, Nat.mod_eq_of_lt hs]

/-- A value of more than 32 bits is not found again: what is left of it is neither of the two
foldings of the pair. -/
theorem raType2FromRiv_overflow (hn : n < 2 ^ 32) (hl : 1 ≤ l) (hfit : s + l ≤ v)
    (hvn : v ≤ n) (hover : 2 ^ 32 ≤ rivFold n l s) :
    raType2FromRiv (rivFold n l s % 2 ^ 32) n v ≠ (l, s) := by
  intro heq
  obtain ⟨hplain, hflip⟩ := rivFold_near (n := n) hl (hfit.trans hvn)
  have hwrap : rivFold n l s % 2 ^ 32 + 2 ^ 32 ≤ rivFold n l s := by omega
  generalize rivFold n l s = riv at *
  have hr : riv % 2 ^ 32 < 2 ^ 32 := Nat.mod_lt _ (by decide)
  generalize riv % 2 ^ 32 = r at *
  have hq : r / n ≤ n := by
    have hmul : n * (l - 1) ≤ n * (n - 1) := Nat.mul_le_mul_left n (by omega)
    have hsq : n * (n - 1) + n = n * n := by rw [← Nat.mul_add_one, Nat.sub_add_cancel (by omega)]
    refine Nat.le_of_lt_succ ((Nat.div_lt_iff_lt_mul (by omega)).mpr ?_)
    rw [Nat.succ_mul]
    omega
  have hs : r % n < n := Nat.mod_lt r (by omega)
  have hdiv := Nat.div_add_mod r n
  rw [raType2FromRiv_eq hn (by omega) (Nat.lt_of_le_of_lt hvn hn) hr hq] at heq
  split_ifs at heq
  · obtain ⟨hlen, hstart⟩ := Prod.mk.inj heq
    have hquot : r / n = n - l + 1 := by omega
    rw [hquot] at hdiv
    omega
  · obtain ⟨hlen, hstart⟩ := Prod.mk.inj heq
    have hquot : r / n = l - 1 := by omega
    rw [hquot] at hdiv
    omega

/-- A value of 32 bits is found again if it was not folded, or if it is unfolded: its start lies
within the virtual blocks, and its length goes past them. -/
theorem raType2FromRiv_fold (hn : n < 2 ^ 32) (hl : 1 ≤ l) (hfit : s + l ≤ n)
    (hv : s + l ≤ v) (hlt : v < 2 ^ 32) (hr : rivFold n l s < 2 ^ 32) :
    raType2FromRiv (rivFold n l s) n v =
      if l - 1 ≤ n / 2 ∨ n - 1 - s ≤ v ∧ v + l + s ≤ 2 * n then (l, s)
      else (n - l + 2, n - 1 - s) := by
  unfold rivFold at hr ⊢
  split_ifs at hr ⊢ with hhalf hfound hfound
  · obtain ⟨hquot, hrem⟩ := div_mod_of_pair (n := n) (q := l - 1) (s := s) (by omega)
    rw [raType2FromRiv_eq hn (by omega) hlt hr (by rw [hquot]; omega), hquot, hrem,
      if_neg (by omega), Nat.sub_add_cancel hl]
  · omega
  · obtain ⟨hquot, hrem⟩ := div_mod_of_pair (n := n) (q := n - l + 1) (s := n - 1 - s) (by omega)
    rw [raType2FromRiv_eq hn (by omega) hlt hr (by rw [hquot]; omega), hquot, hrem,
      if_pos (by omega), Nat.mod_eq_of_lt (by omega), Prod.mk.injEq]
    omega
  · obtain ⟨hquot, hrem⟩ := div_mod_of_pair (n := n) (q := n - l + 1) (s := n - 1 - s) (by omega)
    rw [raType2FromRiv_eq hn (by omega) hlt hr (by rw [hquot]; omega), hquot, hrem,
      if_neg (by omega)]

/-- Within the band, a value of 32 bits is found again unless it was folded and its start lies past
the virtual blocks. -/
theorem raType2FromRiv_rivFold (hn : n < 2 ^ 32) (hl : 1 ≤ l) (hfit : s + l ≤ v)
    (hvn : v ≤ n) (hr : rivFold n l s < 2 ^ 32) :
    raType2FromRiv (rivFold n l s) n v = (l, s) ↔ ¬(n / 2 < l - 1 ∧ v < n - 1 - s) := by
  rw [raType2FromRiv_fold hn hl (hfit.trans hvn) hfit (Nat.lt_of_le_of_lt hvn hn) hr]
  split_ifs with hfound
  · simp only [true_iff]
    omega
  · simp only [Prod.mk.injEq]
    omega

theorem lt_of_rivNbits (hn : 0 < n) (hr : r < 2 ^ rivNbits n) : r / n ≤ n := by
  have hhalf : r < n * (n + 1) := by
    have heven : n * (n + 1) / 2 * 2 = n * (n + 1) :=
      Nat.div_mul_cancel (Nat.even_mul_succ_self n).two_dvd
    unfold rivNbits at hr
    have hpos : 0 < n * (n + 1) := Nat.mul_pos hn (Nat.succ_pos n)
    rcases Nat.lt_or_ge 1 (n * (n + 1) / 2) with hlt | hone
    · have hclog := Nat.pow_pred_clog_lt_self (b := 2) (by decide) hlt
      have hpow : 2 ^ Nat.clog 2 (n * (n + 1) / 2) =
          2 ^ (Nat.clog 2 (n * (n + 1) / 2)).pred * 2 := by
        rw [← pow_succ, Nat.pred_eq_sub_one,
          Nat.sub_add_cancel (Nat.clog_pos (by decide) hlt)]
      omega
    · rw [Nat.clog_of_right_le_one hone, pow_zero] at hr
      omega
  refine Nat.le_of_lt_succ ((Nat.div_lt_iff_lt_mul hn).mpr ?_)
  rw [Nat.mul_comm]
  exact hhalf

/-- The allocations that the decoder finds again, among those of `v` virtual blocks. -/
def RivInverts (n v l s : ℕ) : Prop := rivFold n l s < 2 ^ 32 ∧ ¬(n / 2 < l - 1 ∧ v < n - 1 - s)

/-- The values whose allocation stays within `v` virtual blocks: as a length and a start, or
unfolded. The last case is a length that wraps around to zero. -/
def RivInside (n v r : ℕ) : Prop :=
  r / n + 1 + r % n ≤ v ∨
    r % n ≤ v ∧ (2 * n ≤ v + r / n + r % n ∨ n + 1 = 2 ^ 32 ∧ r = v ∧ n ≤ 2 * v + 1)

instance (n v l s : ℕ) : Decidable (RivInverts n v l s) :=
  inferInstanceAs (Decidable (rivFold n l s < 2 ^ 32 ∧ ¬(n / 2 < l - 1 ∧ v < n - 1 - s)))

theorem raType2FromRiv_inside (hn : n < 2 ^ 32) (hv : 1 ≤ v) (hvn : v ≤ n)
    (hr : r < 2 ^ 32) (hq : r / n ≤ n) :
    (raType2FromRiv r n v).2 + (raType2FromRiv r n v).1 ≤ v ↔ RivInside n v r := by
  have hs : r % n < n := Nat.mod_lt r (by omega)
  have hdiv := Nat.div_add_mod r n
  rw [raType2FromRiv_eq hn (by omega) (Nat.lt_of_le_of_lt hvn hn) hr hq]
  unfold RivInside
  generalize r / n = q at *
  generalize r % n = s at *
  split_ifs with hunfold
  · dsimp only
    rcases Nat.eq_or_lt_of_le (show n - q + 1 ≤ 2 ^ 32 by omega) with hwrap | hlt
    · rw [hwrap, Nat.mod_self, Nat.add_zero]
      have hq0 : q = 0 := by omega
      rw [hq0, Nat.mul_zero, Nat.zero_add] at hdiv
      omega
    · rw [Nat.mod_eq_of_lt hlt]
      have hwrap : n + 1 = 2 ^ 32 → q ≠ 0 := by
        intro hmax hq0
        rw [hq0, Nat.sub_zero] at hlt
        omega
      constructor
      · intro hle
        exact Or.inr ⟨hunfold.1, Or.inl (by omega)⟩
      · rintro (hle | ⟨-, hle | ⟨hmax, rfl, -⟩⟩)
        · omega
        · omega
        · have hmul : 2 * q ≤ n * q := Nat.mul_le_mul_right q (by omega)
          have hq0 := hwrap hmax
          omega
  · dsimp only
    omega

/-- The localized case, in the bandwidths whose square is a word: every allocation is found again,
and every value that fits the field is an allocation. -/
theorem localized_sound (hn : 0 < n) (hsq : n < 2 ^ 16) :
    (∀ l s, 1 ≤ l → s + l ≤ n → RivInverts n n l s) ∧
      ∀ r, r < 2 ^ rivNbits n → RivInside n n r := by
  constructor
  · intro l s hl hfit
    refine ⟨?_, by omega⟩
    have hnear := (rivFold_near hl hfit).1
    have hmul : n * (l - 1) + n ≤ n * n := by
      rw [← Nat.mul_succ]
      exact Nat.mul_le_mul_left n (by omega)
    have hmax : n * n ≤ (2 ^ 16 - 1) * (2 ^ 16 - 1) := Nat.mul_le_mul (by omega) (by omega)
    omega
  · intro r hr
    have hs : r % n < n := Nat.mod_lt r hn
    unfold RivInside
    omega

/-- The decoder finds an allocation again exactly if it inverts the fold, and what it makes of a
value of the field stays within the virtual blocks exactly for the values inside. -/
theorem type2_riv_iff {nofPrb nofVrb : ℕ} (hpos : 1 ≤ nofVrb) (hle : nofVrb ≤ nofPrb)
    (hlt : nofPrb < 2 ^ 32) :
    (∀ lCrb rbStart, 1 ≤ lCrb → rbStart + lCrb ≤ nofVrb →
      (raType2FromRiv (raType2ToRiv lCrb rbStart nofPrb) nofPrb nofVrb = (lCrb, rbStart) ↔
        RivInverts nofPrb nofVrb lCrb rbStart)) ∧
    ∀ riv, riv < 2 ^ 32 → riv < 2 ^ rivNbits nofPrb →
      ((raType2FromRiv riv nofPrb nofVrb).2 + (raType2FromRiv riv nofPrb nofVrb).1 ≤ nofVrb ↔
        RivInside nofPrb nofVrb riv) := by
  constructor
  · intro lCrb rbStart hl hfit
    rw [raType2ToRiv_eq hlt hl (hfit.trans hle)]
    unfold RivInverts
    rcases Nat.lt_or_ge (rivFold nofPrb lCrb rbStart) (2 ^ 32) with hr | hover
    · rw [Nat.mod_eq_of_lt hr, raType2FromRiv_rivFold hlt hl hfit hle hr]
      exact (and_iff_right hr).symm
    · have hne := raType2FromRiv_overflow hlt hl hfit hle hover
      exact iff_of_false hne fun h => absurd h.1 (Nat.not_lt.mpr hover)
  · intro riv hr hfield
    exact raType2FromRiv_inside hlt hpos hle hr (lt_of_rivNbits (by omega) hfield)

theorem type2_riv_50 :
    raType2FromRiv (raType2ToRiv 3 5 50) 50 46 = (3, 5) ∧
      (raType2FromRiv 105 50 46).2 + (raType2FromRiv 105 50 46).1 ≤ 46 := by
  obtain ⟨hinverts, hinside⟩ :=
    @type2_riv_iff 50 46 (by decide) (by decide) (by decide)
  refine ⟨(hinverts 3 5 (by decide) (by decide)).mpr (by decide), ?_⟩
  have hfield : 105 < 2 ^ rivNbits 50 := by
    rw [show rivNbits 50 = 11 by decide +kernel]
    decide
  exact (hinside 105 (by decide) hfield).mpr (Or.inl (by decide))

/-- A long allocation at the start of the 46 virtual blocks of a carrier of 50, the first gap. -/
theorem distributed_riv_lost :
    raType2NVrbDl 50 true = 46 ∧ 0 + 27 ≤ 46 ∧
      raType2FromRiv (raType2ToRiv 27 0 50) 50 46 = (25, 49) := by
  decide

end SrsLte
