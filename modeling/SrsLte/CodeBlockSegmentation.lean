import Mathlib.Data.List.Basic
import Mathlib.Data.Nat.Basic
import Mathlib.Data.Nat.Log
import Mathlib.Tactic.Common
import Mathlib.Tactic.Ring

/-!
# Code block sizes

The sizes that the turbo coder knows: all are whole octets, and they are in order, so that the index
of the least size for a number of bits is that of the only size for itself.
-/

namespace SrsLte

/-- `tc_cb_sizes`. -/
def tcCbSizes : List ℕ :=
  [40, 48, 56, 64, 72, 80, 88, 96, 104, 112, 120, 128, 136, 144, 152, 160, 168, 176, 184, 192,
    200, 208, 216, 224, 232, 240, 248, 256, 264, 272, 280, 288, 296, 304, 312, 320, 328, 336,
    344, 352, 360, 368, 376, 384, 392, 400, 408, 416, 424, 432, 440, 448, 456, 464, 472, 480,
    488, 496, 504, 512, 528, 544, 560, 576, 592, 608, 624, 640, 656, 672, 688, 704, 720, 736,
    752, 768, 784, 800, 816, 832, 848, 864, 880, 896, 912, 928, 944, 960, 976, 992, 1008, 1024,
    1056, 1088, 1120, 1152, 1184, 1216, 1248, 1280, 1312, 1344, 1376, 1408, 1440, 1472, 1504,
    1536, 1568, 1600, 1632, 1664, 1696, 1728, 1760, 1792, 1824, 1856, 1888, 1920, 1952, 1984,
    2016, 2048, 2112, 2176, 2240, 2304, 2368, 2432, 2496, 2560, 2624, 2688, 2752, 2816, 2880,
    2944, 3008, 3072, 3136, 3200, 3264, 3328, 3392, 3456, 3520, 3584, 3648, 3712, 3776, 3840,
    3904, 3968, 4032, 4096, 4160, 4224, 4288, 4352, 4416, 4480, 4544, 4608, 4672, 4736, 4800,
    4864, 4928, 4992, 5056, 5120, 5184, 5248, 5312, 5376, 5440, 5504, 5568, 5632, 5696, 5760,
    5824, 5888, 5952, 6016, 6080, 6144]

/-- `srslte_cbsegm_cbindex`: the index of the least size that has room for so many bits. -/
def cbsegmCbindex (longCb : ℕ) : Option ℕ := tcCbSizes.findIdx? (longCb ≤ ·)

/-- `srslte_cbsegm_cbsize`. -/
def cbsegmCbsize (index : ℕ) : Option ℕ := tcCbSizes[index]?

theorem tcCbSizes_sorted : tcCbSizes.Pairwise (· < ·) := by
  have hchain : tcCbSizes.IsChain (· < ·) := by decide +kernel
  exact hchain.pairwise

theorem cbsize_spec {index k : ℕ} (h : cbsegmCbsize index = some k) :
    k % 8 = 0 ∧ 40 ≤ k ∧ k ≤ 6144 := by
  have hall : ∀ k ∈ tcCbSizes, k % 8 = 0 ∧ 40 ≤ k ∧ k ≤ 6144 := by decide +kernel
  exact hall k (List.mem_of_getElem? h)

theorem cbindex_spec {longCb index : ℕ} (h : cbsegmCbindex longCb = some index) :
    ∃ k, cbsegmCbsize index = some k ∧ longCb ≤ k ∧
      ∀ j k', j < index → cbsegmCbsize j = some k' → k' < longCb := by
  unfold cbsegmCbindex at h
  obtain ⟨hlt, hk, hbefore⟩ := List.findIdx?_eq_some_iff_getElem.mp h
  refine ⟨tcCbSizes[index], List.getElem?_eq_getElem hlt, of_decide_eq_true hk, ?_⟩
  intro j k' hj hk'
  obtain ⟨hlt', rfl⟩ := List.getElem?_eq_some_iff.mp hk'
  have hnot := hbefore j hj
  rwa [decide_eq_true_eq, Nat.not_le] at hnot

theorem cbsize_lt {i j k l : ℕ} (hi : cbsegmCbsize i = some k) (hj : cbsegmCbsize j = some l)
    (hij : i < j) : k < l := by
  obtain ⟨hi', rfl⟩ := List.getElem?_eq_some_iff.mp hi
  obtain ⟨hj', rfl⟩ := List.getElem?_eq_some_iff.mp hj
  exact List.pairwise_iff_getElem.mp tcCbSizes_sorted i j hi' hj' hij

theorem cbindex_cbsize {index k : ℕ} (h : cbsegmCbsize index = some k) :
    cbsegmCbindex k = some index := by
  obtain ⟨hlt, rfl⟩ := List.getElem?_eq_some_iff.mp h
  refine List.findIdx?_eq_some_iff_getElem.mpr ⟨hlt, decide_eq_true le_rfl, fun j hj => ?_⟩
  have hless := cbsize_lt (List.getElem?_eq_getElem (Nat.lt_trans hj hlt)) h hj
  rwa [decide_eq_true_eq, Nat.not_le]

end SrsLte

/-!
A transport block with its checksum is split into code blocks of at most two sizes that lie next to
each other in the table.
-/

namespace SrsLte

def roundQuotient (n d : ℕ) : ℕ :=
  if 2 * (n % d) < d ∨ 2 * (n % d) = d ∧ n / d % 2 = 0 then n / d else n / d + 1

/-- `ceilf((float)n / d)` for a number `n` of at most 24 bits: the quotient has 24 significant
bits, of which `23 - log2 (n / d)` stand behind the point. -/
def ceilfDiv (n d : ℕ) : ℕ :=
  if n < d then if n = 0 then 0 else 1
  else
    let frac := 23 - Nat.log2 (n / d)
    (roundQuotient (n * 2 ^ frac) d + (2 ^ frac - 1)) / 2 ^ frac

theorem le_roundQuotient (n d : ℕ) : n / d ≤ roundQuotient n d := by
  unfold roundQuotient
  split_ifs
  · exact le_rfl
  · exact Nat.le_succ _

theorem roundQuotient_le (n d : ℕ) : roundQuotient n d ≤ n / d + 1 := by
  unfold roundQuotient
  split_ifs
  · exact Nat.le_succ _
  · exact le_rfl

theorem roundQuotient_bounds {d p : ℕ} (n : ℕ) (hd : 0 < d) (hp : 0 < p) :
    n / d * p + n % d * p / d ≤ roundQuotient (n * p) d ∧
      roundQuotient (n * p) d ≤ (n / d + 1) * p := by
  have hfloor : n * p / d = n / d * p + n % d * p / d := by
    conv_lhs => rw [← Nat.div_add_mod n d]
    rw [Nat.add_mul, Nat.mul_assoc, Nat.mul_add_div hd]
  have hhigh : n % d * p / d < p := by
    rw [Nat.div_lt_iff_lt_mul hd, Nat.mul_comm p d]
    exact Nat.mul_lt_mul_of_pos_right (Nat.mod_lt n hd) hp
  have hge := le_roundQuotient (n * p) d
  have hle := roundQuotient_le (n * p) d
  rw [hfloor] at hge hle
  rw [Nat.add_mul, Nat.one_mul]
  omega

theorem div_le_ceilfDiv {d : ℕ} (n : ℕ) (hd : 0 < d) : n / d ≤ ceilfDiv n d := by
  unfold ceilfDiv
  split_ifs with hlt hzero
  · rw [Nat.div_eq_of_lt hlt]
  · rw [Nat.div_eq_of_lt hlt]
    exact Nat.zero_le 1
  · have hpow := Nat.two_pow_pos (23 - Nat.log2 (n / d))
    have hlow := (roundQuotient_bounds n hd hpow).1
    refine (Nat.le_div_iff_mul_le hpow).mpr ?_
    exact ((Nat.le_add_right _ _).trans hlow).trans (Nat.le_add_right _ _)

theorem ceilfDiv_le {d : ℕ} (n : ℕ) (hd : 0 < d) : ceilfDiv n d ≤ n / d + 1 := by
  unfold ceilfDiv
  split_ifs with hlt hzero
  · exact Nat.zero_le _
  · exact Nat.le_add_left 1 _
  · have hpow := Nat.two_pow_pos (23 - Nat.log2 (n / d))
    have hhigh := (roundQuotient_bounds n hd hpow).2
    refine Nat.le_of_lt_succ ((Nat.div_lt_iff_lt_mul hpow).mpr ?_)
    rw [Nat.succ_mul]
    omega

/-- The quotient does not round to the integer below it where the bits behind the point tell so many
parts apart. -/
theorem ceilfDiv_eq {n d : ℕ} (hd : 0 < d) (hrem : n % d ≠ 0)
    (hfrac : d ≤ 2 ^ (23 - Nat.log2 (n / d))) : ceilfDiv n d = n / d + 1 := by
  refine le_antisymm (ceilfDiv_le n hd) ?_
  unfold ceilfDiv
  split_ifs with hlt hzero
  · rw [hzero, Nat.zero_mod] at hrem
    exact absurd rfl hrem
  · rw [Nat.div_eq_of_lt hlt]
  · have hpow := Nat.two_pow_pos (23 - Nat.log2 (n / d))
    have hlow := (roundQuotient_bounds n hd hpow).1
    have hpart : 1 ≤ n % d * 2 ^ (23 - Nat.log2 (n / d)) / d := by
      rw [Nat.le_div_iff_mul_le hd, Nat.one_mul]
      exact hfrac.trans (Nat.le_mul_of_pos_left _ (Nat.pos_of_ne_zero hrem))
    refine (Nat.le_div_iff_mul_le hpow).mpr ?_
    rw [Nat.succ_mul]
    omega

/-- `srslte_cbsegm_t`. -/
structure Cbsegm where
  f : ℕ
  c : ℕ
  k1 : ℕ
  k2 : ℕ
  k1Idx : ℕ
  k2Idx : ℕ
  c1 : ℕ
  c2 : ℕ
  tbs : ℕ
  deriving DecidableEq

/-- `srslte_cbsegm`. -/
def srslteCbsegm (tbs : ℕ) : Option Cbsegm :=
  if tbs = 0 then some ⟨0, 0, 0, 0, 0, 0, 0, 0, 0⟩
  else
    let b := tbs + 24
    let c := if b ≤ 6144 then 1 else ceilfDiv b (6144 - 24)
    let bp := if b ≤ 6144 then b else b + 24 * c
    (cbsegmCbindex ((bp - 1) / c + 1)).bind fun idx1 =>
      (cbsegmCbsize idx1).bind fun k1 =>
        (if idx1 > 0 then cbsegmCbsize (idx1 - 1) else some k1).map fun k =>
          let k2 := if c = 1 then 0 else k
          let k2Idx := if c = 1 then 0 else idx1 - 1
          let c2 := if c = 1 then 0 else (c * k1 - bp) / (k1 - k2)
          let c1 := if c = 1 then 1 else c - c2
          ⟨c1 * k1 + c2 * k2 - bp, c, k1, k2, idx1, k2Idx, c1, c2, tbs⟩

/-- What a segmentation without filler bits is: `c1` blocks of size `k1` and `c2` of a smaller size
`k2` hold the transport block with its checksum, and one checksum for each block of several. -/
structure Cbsegm.Exact (s : Cbsegm) : Prop where
  c_pos : 0 < s.c
  c1_pos : 0 < s.c1
  blocks : s.c1 + s.c2 = s.c
  size1 : cbsegmCbsize s.k1Idx = some s.k1
  size2 : s.c2 ≠ 0 → cbsegmCbsize s.k2Idx = some s.k2
  lt : s.c2 ≠ 0 → s.k2 < s.k1
  several : s.c ≠ 1 → 48 ≤ s.k1
  total : s.c1 * s.k1 + s.c2 * s.k2 = s.tbs + 24 + (if s.c = 1 then 0 else 24 * s.c)

/-- The number of smaller blocks leaves room for a larger one, and without filler bits nothing is
left over. -/
theorem segments_exact {c k1 k bp : ℕ} (hk : k < k1) (hroom : bp ≤ c * k1) (hless : c * k < bp)
    (hf : (c - (c * k1 - bp) / (k1 - k)) * k1 + (c * k1 - bp) / (k1 - k) * k - bp = 0) :
    (c * k1 - bp) / (k1 - k) < c ∧
      (c - (c * k1 - bp) / (k1 - k)) * k1 + (c * k1 - bp) / (k1 - k) * k = bp := by
  obtain ⟨d, rfl⟩ := Nat.exists_eq_add_of_lt hk
  have hd : k + d + 1 - k = d + 1 := by omega
  rw [hd] at hf ⊢
  have hdiv := Nat.div_mul_le_self (c * (k + d + 1) - bp) (d + 1)
  have hlt : (c * (k + d + 1) - bp) / (d + 1) < c := by
    rw [Nat.div_lt_iff_lt_mul (by omega)]
    have hexpand : c * (k + d + 1) = c * k + c * (d + 1) := by ring
    omega
  generalize (c * (k + d + 1) - bp) / (d + 1) = c2 at hf hdiv hlt ⊢
  obtain ⟨c1, rfl⟩ := Nat.exists_eq_add_of_lt hlt
  have hc1 : c2 + c1 + 1 - c2 = c1 + 1 := by omega
  have hexpand : (c2 + c1 + 1) * (k + d + 1) =
      (c1 + 1) * (k + d + 1) + c2 * k + c2 * (d + 1) := by ring
  rw [hc1] at hf ⊢
  exact ⟨hlt, by omega⟩

theorem cbsegm_exact {tbs : ℕ} {s : Cbsegm} (h : srslteCbsegm tbs = some s) (htbs : tbs ≠ 0)
    (hf : s.f = 0) : s.Exact ∧ s.tbs = tbs := by
  unfold srslteCbsegm at h
  rw [if_neg htbs] at h
  obtain ⟨idx1, hidx, h⟩ := Option.bind_eq_some_iff.mp h
  obtain ⟨k1, hk1, h⟩ := Option.bind_eq_some_iff.mp h
  obtain ⟨k, hk, rfl⟩ := Option.map_eq_some_iff.mp h
  obtain ⟨k1', hk1', hroom, hless⟩ := cbindex_spec hidx
  obtain rfl : k1' = k1 := Option.some_injective _ (hk1'.symm.trans hk1)
  obtain ⟨-, hmin, hmax⟩ := cbsize_spec hk1
  dsimp only at hf
  by_cases hb : tbs + 24 ≤ 6144
  · rw [if_pos hb, if_pos hb, Nat.div_one] at hroom
    simp only [if_pos hb, if_true] at hf ⊢
    refine ⟨⟨Nat.one_pos, Nat.one_pos, rfl, hk1, ?_, ?_, ?_, ?_⟩, trivial⟩
    · exact fun hc2 => absurd rfl hc2
    · exact fun hc2 => absurd rfl hc2
    · exact fun hc => absurd rfl hc
    · simp only [if_true]
      omega
  · have hpos : 0 < ceilfDiv (tbs + 24) (6144 - 24) := by
      have hle := div_le_ceilfDiv (tbs + 24) (d := 6144 - 24) (by decide)
      omega
    have hle := ceilfDiv_le (tbs + 24) (d := 6144 - 24) (by decide)
    simp only [if_neg hb] at hroom hless hf ⊢
    generalize ceilfDiv (tbs + 24) (6144 - 24) = c at hpos hle hroom hless hf ⊢
    have hroom' : tbs + 24 + 24 * c ≤ c * k1' := by
      have hlt := Nat.lt_of_lt_of_le (Nat.lt_succ_self _) hroom
      rw [Nat.div_lt_iff_lt_mul hpos, Nat.mul_comm k1' c] at hlt
      omega
    have hc : c ≠ 1 := by
      rintro rfl
      omega
    simp only [if_neg hc] at hf ⊢
    have hk48 : 48 ≤ k1' := by
      by_contra hlt
      have hmul : c * k1' ≤ c * 47 := Nat.mul_le_mul_left c (by omega)
      omega
    have hidx0 : idx1 > 0 := by
      rcases Nat.eq_zero_or_pos idx1 with rfl | hpos0
      · obtain rfl : 40 = k1' := Option.some_injective _ hk1
        exact absurd hk48 (by decide)
      · exact hpos0
    rw [if_pos hidx0] at hk
    have hless' : c * k < tbs + 24 + 24 * c := by
      have hle' := Nat.le_of_lt_succ (hless (idx1 - 1) k (by omega) hk)
      rw [Nat.le_div_iff_mul_le hpos, Nat.mul_comm k c] at hle'
      omega
    have hlt := cbsize_lt hk hk1 (by omega)
    obtain ⟨hc2, htotal⟩ := segments_exact hlt hroom' hless' hf
    refine ⟨⟨hpos, Nat.sub_pos_of_lt hc2, Nat.sub_add_cancel hc2.le, hk1, fun _ => hk,
      fun _ => hlt, fun _ => hk48, ?_⟩, trivial⟩
    dsimp only
    rw [if_neg hc]
    exact htotal

end SrsLte
