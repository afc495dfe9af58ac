import SrsLte.CodeBlockSegmentation
import SrsLte.Word

/-!
# Filler bits

Segmentation on words of 32 bits, with the operands of the subtractions that it makes. With the
quotient rounded up exactly, the two sizes hold the transport block and less filler than the step
between them, for all transport blocks whose code blocks of the largest size have fewer than
`2 ^ 32` bits.
-/

namespace SrsLte

open Word

inductive CbsegmResult
  | success (s : Cbsegm) (subtractions : List (ℕ × ℕ))
  | error
  | divisionByZero
  deriving DecidableEq

/-- `srslte_cbsegm` behind the number of code blocks: the sizes and their counts. -/
def cbsegmSizes (tbs c bp : ℕ) : CbsegmResult :=
  if c = 0 then .divisionByZero
  else
    match cbsegmCbindex ((sub32 bp 1 / c + 1) % 2 ^ 32) with
    | none => .error
    | some idx1 =>
      match cbsegmCbsize idx1 with
      | none => .error
      | some k1 =>
        match if idx1 > 0 then cbsegmCbsize (idx1 - 1) else some k1 with
        | none => .error
        | some k2 =>
          if c = 1 then
            .success ⟨sub32 k1 bp, 1, k1, 0, idx1, 0, 1, 0, tbs⟩ [(bp, 1), (k1, bp)]
          else if sub32 k1 k2 = 0 then .divisionByZero
          else
            let c2 := sub32 (c * k1 % 2 ^ 32) bp / sub32 k1 k2
            let c1 := sub32 c c2
            let total := (c1 * k1 + c2 * k2) % 2 ^ 32
            .success ⟨sub32 total bp, c, k1, k2, idx1, sub32 idx1 1, c1, c2, tbs⟩
              [(bp, 1), (idx1, 1), (c * k1 % 2 ^ 32, bp), (k1, k2), (c, c2), (total, bp)]

/-- `srslte_cbsegm`, where `ceil b` stands for `ceilf((float)B / (SRSLTE_TCOD_MAX_LEN_CB - 24))`. -/
def cbsegm (ceil : ℕ → ℕ) (tbs : ℕ) : CbsegmResult :=
  if tbs = 0 then .success ⟨0, 0, 0, 0, 0, 0, 0, 0, 0⟩ []
  else
    let b := (tbs + 24) % 2 ^ 32
    let c := if b ≤ 6144 then 1 else ceil b
    let bp := if b ≤ 6144 then b else (b + 24 * c) % 2 ^ 32
    cbsegmSizes tbs c bp

def exactCeil (b : ℕ) : ℕ := (b + 6119) / 6120

/-- The bits that `c` blocks have to hold, the checksums included. -/
def segmentedBits (tbs c : ℕ) : ℕ := tbs + 24 + if c > 1 then 24 * c else 0

/-- What a segmentation is: blocks of two sizes of the table hold the transport block and the
checksums, the larger size is the least with room, and the filler is less than the step between the
sizes. -/
structure Cbsegm.Segments (s : Cbsegm) (tbs : ℕ) : Prop where
  blocks : s.c = s.c1 + s.c2
  size1 : cbsegmCbsize s.k1Idx = some s.k1
  size2 : s.c ≠ 1 → cbsegmCbsize s.k2Idx = some s.k2
  k1_le : s.k1 ≤ 6144
  k2_le : s.k2 ≤ 6144
  total : s.c1 * s.k1 + s.c2 * s.k2 = segmentedBits tbs s.c + s.f
  filler : s.f < s.k1
  filler_step : s.c > 1 → s.f < s.k1 - s.k2
  room : segmentedBits tbs s.c ≤ s.c * s.k1
  least : ∀ i k, cbsegmCbsize i = some k → segmentedBits tbs s.c ≤ s.c * k → s.k1 ≤ k

/-- The segmentation succeeds, no subtraction goes below zero, and the result is one. -/
def Segmented (ceil : ℕ → ℕ) (tbs : ℕ) : Prop :=
  ∃ s subtractions, cbsegm ceil tbs = .success s subtractions ∧
    (∀ p ∈ subtractions, p.2 ≤ p.1) ∧ s.Segments tbs

theorem cbsize_mono {i j k l : ℕ} (hi : cbsegmCbsize i = some k) (hj : cbsegmCbsize j = some l)
    (hij : i ≤ j) : k ≤ l := by
  rcases Nat.eq_or_lt_of_le hij with rfl | hlt
  · exact (Option.some.inj (hi.symm.trans hj)).le
  · exact (cbsize_lt hi hj hlt).le

theorem cbindex_isSome {longCb : ℕ} (h : longCb ≤ 6144) :
    ∃ idx, cbsegmCbindex longCb = some idx := by
  have hlast : 6144 ∈ tcCbSizes := by decide +kernel
  apply Option.isSome_iff_exists.mp
  rw [cbsegmCbindex, List.findIdx?_isSome, List.any_eq_true]
  exact ⟨6144, hlast, decide_eq_true h⟩

theorem longCb_le_iff {c bp k : ℕ} (hc : 0 < c) (hbp : 0 < bp) :
    (bp - 1) / c + 1 ≤ k ↔ bp ≤ c * k := by
  rw [Nat.succ_le_iff, Nat.div_lt_iff_lt_mul hc, Nat.mul_comm]
  omega

theorem cbindex_least {c bp idx1 : ℕ} (hc : 0 < c) (hbp : 0 < bp)
    (h : cbsegmCbindex ((bp - 1) / c + 1) = some idx1) :
    ∃ k1, cbsegmCbsize idx1 = some k1 ∧ bp ≤ c * k1 ∧
      ∀ i k, cbsegmCbsize i = some k → (bp ≤ c * k ↔ idx1 ≤ i) := by
  obtain ⟨k1, hk1, hroom, hless⟩ := cbindex_spec h
  refine ⟨k1, hk1, (longCb_le_iff hc hbp).mp hroom, fun i k hk => ?_⟩
  rw [← longCb_le_iff hc hbp]
  constructor
  · intro hle
    by_contra hlt
    exact absurd (hless i k (Nat.lt_of_not_le hlt) hk) (Nat.not_lt.mpr hle)
  · exact fun hle => hroom.trans (cbsize_mono hk1 hk hle)

theorem filler_spec {c k1 k2 bp : ℕ} (hk : k2 < k1) (hroom : bp ≤ c * k1) (hless : c * k2 < bp) :
    (c * k1 - bp) / (k1 - k2) ≤ c ∧
      (c - (c * k1 - bp) / (k1 - k2)) * k1 + (c * k1 - bp) / (k1 - k2) * k2 =
        bp + (c * k1 - bp) % (k1 - k2) := by
  obtain ⟨d, rfl⟩ := Nat.exists_eq_add_of_lt hk
  have hstep : k2 + d + 1 - k2 = d + 1 := by omega
  rw [hstep]
  have hdiv := Nat.div_add_mod (c * (k2 + d + 1) - bp) (d + 1)
  have hexpand : c * (k2 + d + 1) = c * k2 + c * (d + 1) := by ring
  have hle : (c * (k2 + d + 1) - bp) / (d + 1) ≤ c := by
    apply Nat.div_le_of_le_mul
    rw [Nat.mul_comm (d + 1) c]
    omega
  generalize (c * (k2 + d + 1) - bp) / (d + 1) = c2 at hdiv hle ⊢
  obtain ⟨c1, rfl⟩ := Nat.exists_eq_add_of_le hle
  have hsplit : (c2 + c1) * (k2 + d + 1) = c1 * (k2 + d + 1) + c2 * k2 + (d + 1) * c2 := by ring
  refine ⟨hle, ?_⟩
  rw [Nat.add_sub_cancel_left]
  omega

theorem segmented_one {ceil : ℕ → ℕ} {tbs : ℕ} (hpos : 0 < tbs) (hb : tbs + 24 ≤ 6144) :
    Segmented ceil tbs := by
  have hmod : (tbs + 24) % 2 ^ 32 = tbs + 24 := Nat.mod_eq_of_lt (by omega)
  have hsub : sub32 (tbs + 24) 1 = tbs + 24 - 1 := sub32_of_le (by omega) (by omega)
  have hlong : ((tbs + 24 - 1) / 1 + 1) % 2 ^ 32 = (tbs + 24 - 1) / 1 + 1 :=
    Nat.mod_eq_of_lt (by omega)
  obtain ⟨idx1, hidx⟩ := @cbindex_isSome ((tbs + 24 - 1) / 1 + 1) (by omega)
  obtain ⟨k1, hk1, hroom, hleast⟩ := cbindex_least Nat.one_pos (by omega) hidx
  obtain ⟨-, hmin, hmax⟩ := cbsize_spec hk1
  have hprev : ∃ k2, (if idx1 > 0 then cbsegmCbsize (idx1 - 1) else some k1) = some k2 := by
    split_ifs
    · exact ⟨_, List.getElem?_eq_getElem (Nat.lt_of_le_of_lt (Nat.sub_le _ _)
        (List.getElem?_eq_some_iff.mp hk1).choose)⟩
    · exact ⟨k1, rfl⟩
  obtain ⟨k2, hk2⟩ := hprev
  have hf : sub32 k1 (tbs + 24) = k1 - (tbs + 24) := sub32_of_le (by omega) (by omega)
  refine ⟨⟨k1 - (tbs + 24), 1, k1, 0, idx1, 0, 1, 0, tbs⟩,
    [(tbs + 24, 1), (k1, tbs + 24)], ?_, ?_, ?_⟩
  · simp only [cbsegm, Nat.ne_of_gt hpos, if_false, hmod, if_pos hb, cbsegmSizes, hsub, hlong,
      hidx, hk1, hk2, Nat.one_ne_zero, if_true, hf]
  · simp only [List.forall_mem_cons, List.not_mem_nil, false_implies, implies_true, and_true]
    omega
  · have hbits : segmentedBits tbs 1 = tbs + 24 := by simp [segmentedBits]
    constructor <;> simp only [hbits, Nat.lt_irrefl, ne_eq, not_true_eq_false, false_implies]
    · exact hk1
    · exact hmax
    · exact Nat.zero_le _
    · omega
    · omega
    · omega
    · exact fun i k hk hle => cbsize_mono hk1 hk ((hleast i k hk).mp hle)

theorem cbsegmSizes_several {tbs c bp : ℕ} (hc : 1 < c) (hlow : c * 40 < bp)
    (hhigh : bp ≤ c * 6144) (hfit : c * 6144 < 2 ^ 32) :
    ∃ s subtractions, cbsegmSizes tbs c bp = .success s subtractions ∧
      (∀ p ∈ subtractions, p.2 ≤ p.1) ∧ s.c = c ∧ s.c = s.c1 + s.c2 ∧
      cbsegmCbsize s.k1Idx = some s.k1 ∧ cbsegmCbsize s.k2Idx = some s.k2 ∧
      s.c1 * s.k1 + s.c2 * s.k2 = bp + s.f ∧ s.f < s.k1 - s.k2 ∧ bp ≤ c * s.k1 ∧
      ∀ i k, cbsegmCbsize i = some k → bp ≤ c * k → s.k1 ≤ k := by
  have hc0 : 0 < c := by omega
  have hbp : 0 < bp := by omega
  have hsub : sub32 bp 1 = bp - 1 := sub32_of_le hbp (by omega)
  have hlong : (bp - 1) / c + 1 ≤ 6144 := (longCb_le_iff hc0 hbp).mpr hhigh
  obtain ⟨idx1, hidx⟩ := cbindex_isSome hlong
  obtain ⟨k1, hk1, hroom, hleast⟩ := cbindex_least hc0 hbp hidx
  obtain ⟨-, -, hmax⟩ := cbsize_spec hk1
  have hidx0 : 0 < idx1 := by
    rcases Nat.eq_zero_or_pos idx1 with rfl | hidx0
    · exact absurd ((hleast 0 40 rfl).mpr le_rfl) (Nat.not_le.mpr hlow)
    · exact hidx0
  have hlt : idx1 < tcCbSizes.length := (List.getElem?_eq_some_iff.mp hk1).choose
  obtain ⟨k2, hk2⟩ : ∃ k2, cbsegmCbsize (idx1 - 1) = some k2 :=
    ⟨_, List.getElem?_eq_getElem (by omega)⟩
  have hk : k2 < k1 := cbsize_lt hk2 hk1 (by omega)
  have hless : c * k2 < bp := by
    by_contra hge
    have hle := (hleast (idx1 - 1) k2 hk2).mp (Nat.not_lt.mp hge)
    omega
  obtain ⟨hc2, htotal⟩ := filler_spec hk hroom hless
  have hmul : c * k1 ≤ c * 6144 := Nat.mul_le_mul_left c hmax
  have hk12 : sub32 k1 k2 = k1 - k2 := sub32_of_le hk.le (by omega)
  have hroom32 : sub32 (c * k1) bp = c * k1 - bp := sub32_of_le hroom (by omega)
  have hrest : (c * k1 - bp) % (k1 - k2) < k1 - k2 := Nat.mod_lt _ (by omega)
  have hcount : sub32 c ((c * k1 - bp) / (k1 - k2)) = c - (c * k1 - bp) / (k1 - k2) :=
    sub32_of_le hc2 (by omega)
  have hall : (c - (c * k1 - bp) / (k1 - k2)) * k1 + (c * k1 - bp) / (k1 - k2) * k2 < 2 ^ 32 := by
    have hrest' := Nat.mod_le (c * k1 - bp) (k1 - k2)
    omega
  have hidx32 : sub32 idx1 1 = idx1 - 1 := by
    have hlen : tcCbSizes.length = 188 := rfl
    exact sub32_of_le hidx0 (by omega)
  have hf : sub32 (bp + (c * k1 - bp) % (k1 - k2)) bp = (c * k1 - bp) % (k1 - k2) := by
    rw [sub32_of_le (Nat.le_add_right _ _) (by omega), Nat.add_sub_cancel_left]
  refine ⟨⟨(c * k1 - bp) % (k1 - k2), c, k1, k2, idx1, idx1 - 1,
    c - (c * k1 - bp) / (k1 - k2), (c * k1 - bp) / (k1 - k2), tbs⟩,
    [(bp, 1), (idx1, 1), (c * k1, bp), (k1, k2), (c, (c * k1 - bp) / (k1 - k2)),
      (bp + (c * k1 - bp) % (k1 - k2), bp)], ?_, ?_, rfl, ?_, hk1, hk2, htotal, hrest, hroom, ?_⟩
  · have hstep : k1 - k2 ≠ 0 := by omega
    have hlong32 : ((bp - 1) / c + 1) % 2 ^ 32 = (bp - 1) / c + 1 :=
      Nat.mod_eq_of_lt (Nat.lt_of_le_of_lt hlong (by decide))
    rw [htotal] at hall
    simp only [cbsegmSizes, Nat.ne_of_gt hc0, if_false, hsub, Nat.ne_of_gt hc,
      hlong32, hidx, hk1, hk2, if_pos hidx0,
      Nat.mod_eq_of_lt (Nat.lt_of_le_of_lt hmul hfit), hk12, hroom32, hstep, hcount, htotal,
      Nat.mod_eq_of_lt hall, hf, hidx32]
  · simp only [List.forall_mem_cons, List.not_mem_nil, false_implies, implies_true, and_true]
    omega
  · exact (Nat.sub_add_cancel hc2).symm
  · exact fun i k hk' hle => cbsize_mono hk1 hk' ((hleast i k hk').mp hle)

theorem segmented_several {tbs : ℕ} (hb : 6144 < tbs + 24) (hle : tbs ≤ 4278185976) :
    Segmented exactCeil tbs := by
  have hmod : (tbs + 24) % 2 ^ 32 = tbs + 24 := Nat.mod_eq_of_lt (by omega)
  have hc : 1 < exactCeil (tbs + 24) ∧ exactCeil (tbs + 24) ≤ 699050 ∧
      6120 * (exactCeil (tbs + 24) - 1) < tbs + 24 ∧ tbs + 24 ≤ 6120 * exactCeil (tbs + 24) := by
    unfold exactCeil
    omega
  obtain ⟨hc1, hcle, hlow, hhigh⟩ := hc
  have hbp : (tbs + 24 + 24 * exactCeil (tbs + 24)) % 2 ^ 32 =
      tbs + 24 + 24 * exactCeil (tbs + 24) := Nat.mod_eq_of_lt (by omega)
  have hbits : segmentedBits tbs (exactCeil (tbs + 24)) =
      tbs + 24 + 24 * exactCeil (tbs + 24) := by
    rw [segmentedBits, if_pos hc1]
  obtain ⟨s, subtractions, hs, hsubs, hsc, hblocks, hk1, hk2, htotal, hf, hroom, hleast⟩ :=
    @cbsegmSizes_several tbs (exactCeil (tbs + 24))
      (tbs + 24 + 24 * exactCeil (tbs + 24)) hc1 (by omega) (by omega) (by omega)
  refine ⟨s, subtractions, ?_, hsubs, hblocks, hk1, fun _ => hk2, (cbsize_spec hk1).2.2,
    (cbsize_spec hk2).2.2, ?_, Nat.lt_of_lt_of_le hf (Nat.sub_le _ _), fun _ => hf, ?_, ?_⟩
  · rw [← hs, cbsegm, if_neg (by omega)]
    simp only [hmod, if_neg (Nat.not_le.mpr hb), hbp]
  · rw [hsc, hbits, htotal]
  · rw [hsc, hbits]
    exact hroom
  · rw [hsc, hbits]
    exact hleast

theorem cbsegmSizes_success {tbs c bp : ℕ} {s : Cbsegm} {subtractions : List (ℕ × ℕ)}
    (h : cbsegmSizes tbs c bp = .success s subtractions) : (bp, 1) ∈ subtractions := by
  unfold cbsegmSizes at h
  split at h
  · exact absurd h (by simp)
  split at h
  · exact absurd h (by simp)
  split at h
  · exact absurd h (by simp)
  split at h
  · exact absurd h (by simp)
  split at h
  · obtain ⟨-, rfl⟩ := CbsegmResult.success.inj h
    exact List.mem_cons_self
  · split at h
    · exact absurd h (by simp)
    · obtain ⟨-, rfl⟩ := CbsegmResult.success.inj h
      exact List.mem_cons_self

theorem cbsegmSizes_first {tbs c bp : ℕ} (hbp : 0 < bp) (hc : 0 < c) (hless : bp ≤ c * 40)
    (hfit : bp < 2 ^ 32) :
    cbsegmSizes tbs c bp =
      if c = 1 then .success ⟨sub32 40 bp, 1, 40, 0, 0, 0, 1, 0, tbs⟩ [(bp, 1), (40, bp)]
      else .divisionByZero := by
  have hlong : (bp - 1) / c + 1 ≤ 40 := (longCb_le_iff hc hbp).mpr hless
  have hlong32 : ((bp - 1) / c + 1) % 2 ^ 32 = (bp - 1) / c + 1 :=
    Nat.mod_eq_of_lt (Nat.lt_of_le_of_lt hlong (by decide))
  have hidx : cbsegmCbindex ((bp - 1) / c + 1) = some 0 := by
    obtain ⟨idx1, hidx⟩ := cbindex_isSome (hlong.trans (by decide))
    obtain ⟨k1, -, -, hleast⟩ := cbindex_least hc hbp hidx
    have hzero : idx1 ≤ 0 := (hleast 0 40 rfl).mp hless
    rw [hidx, Nat.le_zero.mp hzero]
  have hk1 : cbsegmCbsize 0 = some 40 := rfl
  have hsub : sub32 40 40 = 0 := by decide
  simp only [cbsegmSizes, Nat.ne_of_gt hc, if_false, sub32_of_le hbp hfit, hlong32, hidx, hk1,
    Nat.lt_irrefl, hsub, if_true]

theorem cbsegmSizes_overflow {tbs bp : ℕ} (hbp : 4294963225 ≤ bp) (hfit : bp < 2 ^ 32) {s : Cbsegm}
    {subtractions : List (ℕ × ℕ)} (h : cbsegmSizes tbs 699051 bp = .success s subtractions) :
    (2048, bp) ∈ subtractions := by
  have hlong : (sub32 bp 1 / 699051 + 1) % 2 ^ 32 = 6144 := by
    rw [sub32_of_le (by omega) hfit]
    omega
  have hidx : cbsegmCbindex 6144 = some 187 := by decide +kernel
  have hk1 : cbsegmCbsize 187 = some 6144 := rfl
  have hk2 : cbsegmCbsize (187 - 1) = some 6080 := rfl
  have hstep : sub32 6144 6080 ≠ 0 := by decide
  have hmul : 699051 * 6144 % 2 ^ 32 = 2048 := by decide
  simp only [cbsegmSizes, hlong, hidx, hk1, hk2, hmul] at h
  norm_num at h
  rw [if_neg hstep] at h
  obtain ⟨-, rfl⟩ := CbsegmResult.success.inj h
  simp

theorem not_segmented {tbs : ℕ} (hgt : 4278185976 < tbs) (hlt : tbs < 2 ^ 32) :
    ¬Segmented exactCeil tbs := by
  rintro ⟨s, subtractions, hs, hsubs, hseg⟩
  rw [cbsegm, if_neg (by omega)] at hs
  rcases Nat.lt_or_ge (tbs + 24) (2 ^ 32) with hfit | hover
  · have hb : ¬tbs + 24 ≤ 6144 := by omega
    have hc : 699051 ≤ exactCeil (tbs + 24) ∧ exactCeil (tbs + 24) ≤ 701795 ∧
        6120 * (exactCeil (tbs + 24) - 1) < tbs + 24 := by
      unfold exactCeil
      omega
    obtain ⟨hlow, hhigh, hround⟩ := hc
    simp only [Nat.mod_eq_of_lt hfit, if_neg hb] at hs
    generalize exactCeil (tbs + 24) = c at hs hlow hhigh hround
    rcases Nat.lt_or_ge (tbs + 24 + 24 * c) (2 ^ 32) with hsum | hsum
    · obtain rfl : c = 699051 := by omega
      rw [Nat.mod_eq_of_lt hsum] at hs
      have hwrap := hsubs _ (cbsegmSizes_overflow (by omega) hsum hs)
      dsimp only at hwrap
      omega
    · have hpos : 0 < (tbs + 24 + 24 * c) % 2 ^ 32 := hsubs _ (cbsegmSizes_success hs)
      rw [cbsegmSizes_first hpos (by omega) (by omega) (Nat.mod_lt _ (by decide)),
        if_neg (by omega)] at hs
      exact absurd hs (by simp)
  · have hb : (tbs + 24) % 2 ^ 32 ≤ 6144 := by omega
    simp only [if_pos hb] at hs
    have hpos : 0 < (tbs + 24) % 2 ^ 32 := hsubs _ (cbsegmSizes_success hs)
    rw [cbsegmSizes_first hpos Nat.one_pos (by omega) (Nat.mod_lt _ (by decide)),
      if_pos rfl] at hs
    obtain ⟨rfl, -⟩ := CbsegmResult.success.inj hs
    have htotal := hseg.total
    simp only [segmentedBits] at htotal
    omega

/-- The segmentation is right as long as the blocks, filled to the largest size, have fewer than
`2 ^ 32` bits together. -/
theorem segmented_iff {tbs : ℕ} (hpos : 0 < tbs) (hlt : tbs < 2 ^ 32) :
    Segmented exactCeil tbs ↔ tbs ≤ 4278185976 := by
  constructor
  · intro h
    by_contra hgt
    exact not_segmented (Nat.lt_of_not_le hgt) hlt h
  · intro hle
    rcases Nat.lt_or_ge 6144 (tbs + 24) with hb | hb
    · exact segmented_several hb hle
    · exact segmented_one hpos hb

theorem segmented_75376 : (0 < 75376 ∧ 75376 < 2 ^ 32) ∧ Segmented exactCeil 75376 :=
  ⟨by decide, (segmented_iff (by decide) (by decide)).mpr (by decide)⟩

/-- For 701793 blocks the number of bits with the checksums wraps around to 16843031, so that the
first size of the table is also the one below. -/
theorem size_division_by_zero :
    cbsegm exactCeil 4294967271 = .divisionByZero ∧ ¬Segmented exactCeil 4294967271 := by
  have hzero : cbsegm exactCeil 4294967271 = .divisionByZero := by decide +kernel
  refine ⟨hzero, ?_⟩
  rintro ⟨s, subtractions, hs, -⟩
  exact absurd (hzero.symm.trans hs) (by simp)

theorem ceilfDiv_eq_exactCeil {b : ℕ} (hb : b / 6120 < 2048) : ceilfDiv b 6120 = exactCeil b := by
  by_cases hrem : b % 6120 = 0
  · obtain ⟨q, rfl⟩ := Nat.dvd_of_mod_eq_zero hrem
    have hq : exactCeil (6120 * q) = q := by
      unfold exactCeil
      omega
    have hfloor := div_le_ceilfDiv (6120 * q) (d := 6120) (by decide)
    rw [Nat.mul_div_cancel_left q (by decide)] at hfloor
    rw [hq]
    refine le_antisymm ?_ hfloor
    unfold ceilfDiv
    split_ifs with hlt hzero
    · exact Nat.zero_le q
    · omega
    · have hexact (p : ℕ) : roundQuotient (6120 * q * p) 6120 = q * p := by
        have hmod : 6120 * q * p % 6120 = 0 := by rw [Nat.mul_assoc, Nat.mul_mod_right]
        have hdiv : 6120 * q * p / 6120 = q * p := by
          rw [Nat.mul_assoc, Nat.mul_div_cancel_left _ (by decide)]
        rw [roundQuotient, hmod, if_pos (Or.inl (by decide)), hdiv]
      generalize 23 - Nat.log2 (6120 * q / 6120) = frac
      dsimp only
      rw [hexact]
      have hpow := Nat.two_pow_pos frac
      refine Nat.le_of_lt_succ ((Nat.div_lt_iff_lt_mul hpow).mpr ?_)
      rw [Nat.succ_mul]
      omega
  · have hlog : Nat.log2 (b / 6120) ≤ 10 := by
      rcases Nat.eq_zero_or_pos (b / 6120) with hzero | hpos
      · rw [hzero]
        decide
      · exact Nat.le_of_lt_succ ((Nat.log2_lt (Nat.ne_of_gt hpos)).mpr hb)
    have hfrac : 6120 ≤ 2 ^ (23 - Nat.log2 (b / 6120)) :=
      le_trans (by decide : 6120 ≤ 2 ^ 13) (Nat.pow_le_pow_right (by decide) (by omega))
    rw [ceilfDiv_eq (by decide) hrem hfrac]
    unfold exactCeil
    omega

theorem cbsegmSizes_nat {tbs c bp : ℕ} (hbp : bp < 2 ^ 32) (hc : c * 6144 < 2 ^ 32)
    {s : Cbsegm} {subtractions : List (ℕ × ℕ)}
    (h : cbsegmSizes tbs c bp = .success s subtractions) (hsubs : ∀ p ∈ subtractions, p.2 ≤ p.1) :
    ((cbsegmCbindex ((bp - 1) / c + 1)).bind fun idx1 =>
      (cbsegmCbsize idx1).bind fun k1 =>
        (if idx1 > 0 then cbsegmCbsize (idx1 - 1) else some k1).map fun k =>
          let k2 := if c = 1 then 0 else k
          let k2Idx := if c = 1 then 0 else idx1 - 1
          let c2 := if c = 1 then 0 else (c * k1 - bp) / (k1 - k2)
          let c1 := if c = 1 then 1 else c - c2
          (⟨c1 * k1 + c2 * k2 - bp, c, k1, k2, idx1, k2Idx, c1, c2, tbs⟩ : Cbsegm)) = some s := by
  have hone : 1 ≤ bp := hsubs _ (cbsegmSizes_success h)
  have hlong : (bp - 1) / c + 1 < 2 ^ 32 :=
    Nat.lt_of_le_of_lt (Nat.succ_le_succ (Nat.div_le_self _ _)) (by omega)
  unfold cbsegmSizes at h
  rw [sub32_of_le hone hbp, Nat.mod_eq_of_lt hlong] at h
  split at h
  · exact absurd h (by simp)
  split at h
  · exact absurd h (by simp)
  rename_i idx1 hidx
  split at h
  · exact absurd h (by simp)
  rename_i k1 hk1
  split at h
  · exact absurd h (by simp)
  rename_i k2 hk2
  have hmax : k1 ≤ 6144 := (cbsize_spec hk1).2.2
  have hmul : c * k1 < 2 ^ 32 := Nat.lt_of_le_of_lt (Nat.mul_le_mul_left c hmax) hc
  rw [hidx, Option.bind_some, hk1, Option.bind_some, hk2, Option.map_some]
  dsimp only
  split at h
  · rename_i hc1
    obtain ⟨rfl, rfl⟩ := CbsegmResult.success.inj h
    have hroom : bp ≤ k1 := hsubs (k1, bp) (by simp)
    simp only [hc1, if_true, sub32_of_le hroom (Nat.lt_of_le_of_lt hmax (by decide)), Nat.one_mul,
      Nat.mul_zero, Nat.add_zero]
  · rename_i hc1
    split at h
    · exact absurd h (by simp)
    obtain ⟨rfl, rfl⟩ := CbsegmResult.success.inj h
    simp only [List.forall_mem_cons, List.not_mem_nil, false_implies, implies_true, and_true,
      Nat.mod_eq_of_lt hmul] at hsubs
    obtain ⟨-, hidx0, hroom, hk, hc2, htotal⟩ := hsubs
    rw [sub32_of_le hroom hmul, sub32_of_le hk (Nat.lt_of_le_of_lt hmax (by decide))] at hc2 htotal
    rw [sub32_of_le hc2 (by omega)] at htotal
    have hle : (c - (c * k1 - bp) / (k1 - k2)) * k1 + (c * k1 - bp) / (k1 - k2) * k2 ≤ c * k1 := by
      calc _ ≤ (c - (c * k1 - bp) / (k1 - k2)) * k1 + (c * k1 - bp) / (k1 - k2) * k1 :=
            Nat.add_le_add_left (Nat.mul_le_mul_left _ hk) _
        _ = c * k1 := by rw [← Nat.add_mul, Nat.sub_add_cancel hc2]
    have hidx32 : idx1 < 2 ^ 32 := by
      have hlen : tcCbSizes.length = 188 := rfl
      have hlt := (List.getElem?_eq_some_iff.mp hk1).choose
      omega
    rw [Nat.mod_eq_of_lt (Nat.lt_of_le_of_lt hle hmul)] at htotal
    simp only [hc1, if_false, Nat.mod_eq_of_lt hmul, sub32_of_le hroom hmul,
      sub32_of_le hk (Nat.lt_of_le_of_lt hmax (by decide)), sub32_of_le hidx0 hidx32]
    rw [sub32_of_le hc2 (by omega), Nat.mod_eq_of_lt (Nat.lt_of_le_of_lt hle hmul),
      sub32_of_le htotal (Nat.lt_of_le_of_lt hle hmul)]

end SrsLte
