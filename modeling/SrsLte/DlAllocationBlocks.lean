import SrsLte.DlAllocation

/-!
# Which blocks an allocation sets

Groups, bitmaps and localized runs set blocks in rising order, so that none is set twice. The place
of a virtual block in the interleaver is its own, and only the gap can move two places onto one
block.
-/

namespace SrsLte

namespace RaDl

open Word

def After {σ ε : Type*} (result : Except ε σ) (post : σ → Prop) (fails : ε → Prop) : Prop :=
  match result with
  | .ok s => post s
  | .error e => fails e

theorem after_foldlM {σ ε : Type*} (inv : ℕ → σ → Prop) {f : σ → ℕ → Except ε σ}
    {fails : ε → Prop} {m : ℕ}
    (hstep : ∀ i < m, ∀ s, inv i s → After (f s i) (inv (i + 1)) fails) {s : σ} (hs : inv 0 s) :
    After ((List.range m).foldlM f s) (inv m) fails := by
  induction m with
  | zero => exact hs
  | succ m ih =>
    have hbefore := ih fun i hi => hstep i (hi.trans (Nat.lt_succ_self m))
    rw [List.range_succ, List.foldlM_append]
    cases hfold : (List.range m).foldlM f s with
    | error e =>
      rw [hfold] at hbefore
      exact hbefore
    | ok s' =>
      rw [hfold] at hbefore
      have hlast := hstep m (Nat.lt_succ_self m) s' hbefore
      change After (f s' m >>= pure) _ _
      rw [bind_pure]
      exact hlast

theorem After.map {σ ε τ : Type*} {result : Except ε σ} {post : σ → Prop} {post' : τ → Prop}
    {fails : ε → Prop} {g : σ → τ} (h : After result post fails)
    (hg : ∀ s, post s → post' (g s)) : After (result.map g) post' fails := by
  cases result with
  | ok s => exact hg s h
  | error e => exact h

theorem After.mono {σ ε : Type*} {result : Except ε σ} {post post' : σ → Prop}
    {fails fails' : ε → Prop} (h : After result post fails) (hpost : ∀ s, post s → post' s)
    (hfails : ∀ e, fails e → fails' e) : After result post' fails' := by
  cases result with
  | ok s => exact hpost s h
  | error e => exact hfails e h

section Rising

variable {nofPrb : ℕ}

/-- The blocks of the first slot are in the carrier, are as many as counted, and none of them is to
come. -/
def Marks (nofPrb : ℕ) (coming : ℕ → Prop) (grant : PdschGrant) : Prop :=
  (∀ prb ∈ grant.prbIdx 0, prb < nofPrb ∧ ¬ coming prb) ∧ (grant.prbIdx 0).card = grant.nofPrb

theorem marks_zero (coming : ℕ → Prop) : Marks nofPrb coming .zero := by
  simp [Marks, PdschGrant.zero]

variable {coming : ℕ → Prop} {grant : PdschGrant} {i rbgSubset : ℕ}

theorem Marks.mono {coming' : ℕ → Prop}
    (h : Marks nofPrb coming grant) (hless : ∀ prb, coming' prb → coming prb) :
    Marks nofPrb coming' grant :=
  ⟨fun prb hprb => ⟨(h.1 prb hprb).1, fun hc => (h.1 prb hprb).2 (hless prb hc)⟩, h.2⟩

theorem Marks.mark {coming' : ℕ → Prop} {idx : ℕ}
    (h : Marks nofPrb coming grant) (hmax : nofPrb ≤ 110) (hidx : idx < nofPrb)
    (hcoming : coming idx) (hless : ∀ prb, coming' prb → coming prb ∧ prb ≠ idx)
    (fails : Failure → Prop) :
    After ((grant.mark 0 idx).map PdschGrant.count) (Marks nofPrb coming') fails := by
  have hnew : idx ∉ grant.prbIdx 0 := fun hmem => (h.1 idx hmem).2 hcoming
  unfold PdschGrant.mark
  rw [if_pos (show idx < maxPrb from Nat.lt_of_lt_of_le hidx hmax)]
  constructor
  · intro prb hprb
    change prb ∈ insert idx (grant.prbIdx 0) at hprb
    rcases Finset.mem_insert.mp hprb with rfl | hold
    · exact ⟨hidx, fun hc => (hless prb hc).2 rfl⟩
    · exact ⟨(h.1 prb hold).1, fun hc => (h.1 prb hold).2 (hless prb hc).1⟩
  · change (insert idx (grant.prbIdx 0)).card = grant.nofPrb + 1
    rw [Finset.card_insert_of_notMem hnew, h.2]

def Copied (nofPrb : ℕ) (grant : PdschGrant) : Prop :=
  ∀ slot, (∀ prb ∈ grant.prbIdx slot, prb < nofPrb) ∧ (grant.prbIdx slot).card = grant.nofPrb

theorem Marks.copy (h : Marks nofPrb coming grant) :
    Copied nofPrb grant.copy :=
  fun _ => ⟨fun prb hprb => (h.1 prb hprb).1, h.2⟩

theorem type0Rbg_marks (hmax : nofPrb ≤ 110)
    (h : Marks nofPrb (fun prb => i * raType0P nofPrb ≤ prb) grant) :
    After (type0Rbg nofPrb i grant)
      (Marks nofPrb fun prb => (i + 1) * raType0P nofPrb ≤ prb) fun _ => False := by
  have hnext : (i + 1) * raType0P nofPrb = i * raType0P nofPrb + raType0P nofPrb :=
    Nat.succ_mul _ _
  rw [hnext]
  refine after_foldlM (fun j => Marks nofPrb fun prb => i * raType0P nofPrb + j ≤ prb) ?_ h
  intro j _ g hg
  split_ifs with hin
  · refine hg.mark hmax hin le_rfl (fun prb hprb => ?_) _
    omega
  · refine hg.mono fun prb hprb => ?_
    omega

theorem allocType0_copied (hmax : nofPrb ≤ 110) (rbgBitmask : ℕ) :
    After (allocType0 nofPrb rbgBitmask .zero) (Copied nofPrb) fun _ => False := by
  unfold allocType0
  refine After.map (after_foldlM (fun i => Marks nofPrb fun prb => i * raType0P nofPrb ≤ prb)
    ?_ (marks_zero _)) fun g hg => hg.copy
  intro i _ g hg
  split_ifs
  · exact type0Rbg_marks hmax hg
  · refine hg.mono fun prb hprb => ?_
    have hle : i * raType0P nofPrb ≤ (i + 1) * raType0P nofPrb :=
      Nat.mul_le_mul_right _ (Nat.le_succ i)
    omega

theorem raType0P_cases (nofPrb : ℕ) :
    nofPrb ≤ 10 ∧ raType0P nofPrb = 1 ∨ 10 < nofPrb ∧ nofPrb ≤ 26 ∧ raType0P nofPrb = 2 ∨
      26 < nofPrb ∧ nofPrb ≤ 63 ∧ raType0P nofPrb = 3 ∨ 63 < nofPrb ∧ raType0P nofPrb = 4 := by
  unfold raType0P
  split_ifs <;> omega

/-- The bits of the map are fewer than the blocks of the subset, so that the shift is no
difference that wraps around. -/
theorem raType1NRb_le (hpos : 0 < nofPrb) (hmax : nofPrb ≤ 110)
    (hsubset : rbgSubset < raType0P nofPrb) :
    raType1NRb nofPrb ≤ nRbRbgSubset nofPrb rbgSubset ∧ nRbRbgSubset nofPrb rbgSubset ≤ 120 := by
  unfold raType1NRb nRbRbgSubset ceilDiv
  have hclog : Nat.clog 2 1 = 0 ∧ Nat.clog 2 2 = 1 ∧ Nat.clog 2 3 = 2 ∧ Nat.clog 2 4 = 2 := by
    decide
  rcases raType0P_cases nofPrb with ⟨-, hp⟩ | ⟨hlow, -, hp⟩ | ⟨hlow, -, hp⟩ | ⟨hlow, hp⟩
  · rw [hp] at hsubset ⊢
    rw [hclog.1]
    unfold sub32
    dsimp only
    split_ifs <;> omega
  · rw [hp] at hsubset ⊢
    rw [hclog.2.1]
    unfold sub32
    dsimp only
    split_ifs <;> omega
  · rw [hp] at hsubset ⊢
    rw [hclog.2.2.1]
    unfold sub32
    dsimp only
    split_ifs <;> omega
  · rw [hp] at hsubset ⊢
    rw [hclog.2.2.2]
    unfold sub32
    dsimp only
    split_ifs <;> omega

theorem type1Idx_eq {shift : ℕ} (hsubset : rbgSubset < raType0P nofPrb) (hi : i + shift ≤ 240) :
    type1Idx nofPrb rbgSubset shift i =
      (i + shift) / raType0P nofPrb * raType0P nofPrb * raType0P nofPrb +
        rbgSubset * raType0P nofPrb + (i + shift) % raType0P nofPrb := by
  have hp : raType0P nofPrb ≤ 4 := by
    have hcases := raType0P_cases nofPrb
    omega
  have hgroups : (i + shift) / raType0P nofPrb * raType0P nofPrb * raType0P nofPrb ≤ 240 * 4 :=
    Nat.mul_le_mul ((Nat.div_mul_le_self _ _).trans hi) hp
  have hstart : rbgSubset * raType0P nofPrb ≤ 4 * 4 := Nat.mul_le_mul (by omega) hp
  have hrest : (i + shift) % raType0P nofPrb ≤ i + shift := Nat.mod_le _ _
  unfold type1Idx
  dsimp only
  rw [Nat.mod_eq_of_lt (show i + shift < 2 ^ 32 by omega)]
  exact Nat.mod_eq_of_lt (by omega)

theorem type1Idx_lt {shift j : ℕ} (hsubset : rbgSubset < raType0P nofPrb)
    (hij : i < j) (hj : j + shift ≤ 240) :
    type1Idx nofPrb rbgSubset shift i < type1Idx nofPrb rbgSubset shift j := by
  rw [type1Idx_eq hsubset (by omega), type1Idx_eq hsubset hj]
  rcases raType0P_cases nofPrb with ⟨-, hp⟩ | ⟨-, -, hp⟩ | ⟨-, -, hp⟩ | ⟨-, hp⟩ <;>
    · rw [hp]
      omega

theorem allocType1_copied (hpos : 0 < nofPrb) (hmax : nofPrb ≤ 110)
    (vrbBitmask rbgSubset : ℕ) (shift : Bool) :
    After (allocType1 nofPrb vrbBitmask rbgSubset shift .zero) (Copied nofPrb)
      fun e => e = .error := by
  unfold allocType1
  split_ifs with hsubset
  · rfl
  · have hle := (raType1NRb_le hpos hmax (Nat.lt_of_not_le hsubset)).1
    have hsmall := (raType1NRb_le hpos hmax (Nat.lt_of_not_le hsubset)).2
    have hshift : type1Shift nofPrb rbgSubset shift ≤ 120 := by
      unfold type1Shift
      split_ifs
      · rw [sub32_of_le hle (by omega)]
        omega
      · omega
    dsimp only
    generalize raType1NRb nofPrb = nRb at *
    refine After.map (after_foldlM (fun i => Marks nofPrb fun prb =>
      ∃ j, i ≤ j ∧ j < nRb ∧
        prb = type1Idx nofPrb rbgSubset (type1Shift nofPrb rbgSubset shift) j) ?_ (marks_zero _))
      fun g hg => hg.copy
    intro i hi g hg
    split_ifs with hbit hin
    · refine hg.mark hmax hin ⟨i, le_rfl, hi, rfl⟩ ?_ _
      rintro prb ⟨j, hij, hj, rfl⟩
      refine ⟨⟨j, by omega, hj, rfl⟩, ?_⟩
      exact (type1Idx_lt (Nat.lt_of_not_le hsubset) (show i < j by omega) (by omega)).ne'
    · rfl
    · refine hg.mono ?_
      rintro prb ⟨j, hij, hj, rfl⟩
      exact ⟨j, by omega, hj, rfl⟩

theorem allocLocalized_copied (hmax : nofPrb ≤ 110) {run : ℕ × ℕ}
    (hrun : ∀ v ∈ virtualBlocks run, v < nofPrb) :
    After (allocLocalized run .zero) (Copied nofPrb) fun _ => False := by
  unfold allocLocalized
  refine After.map (after_foldlM (fun i => Marks nofPrb fun prb => i + run.2 ≤ prb) ?_
    (marks_zero _)) fun g hg => hg.copy
  intro i hi g hg
  have hin : i + run.2 < nofPrb :=
    hrun _ (Finset.mem_Ico.mpr ⟨Nat.le_add_left _ _, by omega⟩)
  refine hg.mark hmax hin le_rfl (fun prb hprb => ?_) _
  omega

theorem allocLocalized_mem (run : ℕ × ℕ) :
    After (allocLocalized run .zero) (fun grant => ∀ v ∈ virtualBlocks run, v ∈ grant.prbIdx 0)
      fun e => e = .undefined := by
  unfold allocLocalized
  refine After.map (after_foldlM
    (fun i (g : PdschGrant) => ∀ j < i, j + run.2 ∈ g.prbIdx 0) ?_ ?_) ?_
  · intro i _ g hg
    unfold PdschGrant.mark
    split_ifs
    · intro j hj
      change j + run.2 ∈ insert (i + run.2) (g.prbIdx 0)
      rcases Nat.lt_succ_iff_lt_or_eq.mp hj with hlt | rfl
      · exact Finset.mem_insert_of_mem (hg j hlt)
      · exact Finset.mem_insert_self _ _
    · rfl
  · intro j hj
    exact absurd hj (Nat.not_lt_zero j)
  · intro g hg v hv
    obtain ⟨hle, hlt⟩ := Finset.mem_Ico.mp hv
    have hmem := hg (v - run.2) (by omega)
    rw [Nat.sub_add_cancel hle] at hmem
    exact hmem

end Rising

section Places

variable {nofPrb : ℕ} {ngapIs1 : Bool}

theorem ngap_sizes (hlow : 2 ≤ nofPrb) (hmax : nofPrb ≤ 110) :
    ∃ half, raType2NVrbDl nofPrb true = 2 * half ∧ raType0P nofPrb ≤ half ∧
      half ≤ raType2Ngap nofPrb true ∧ half + raType2Ngap nofPrb true ≤ nofPrb ∧
      raType2Ngap nofPrb ngapIs1 ≤ raType2Ngap nofPrb true := by
  have hsub (g : ℕ) (hg : g ≤ nofPrb) : sub32 nofPrb g = nofPrb - g := sub32_of_le hg (by omega)
  have hgap : raType2Ngap nofPrb true ≤ nofPrb ∧
      raType0P nofPrb ≤ raType2Ngap nofPrb true ∧
      raType0P nofPrb + raType2Ngap nofPrb true ≤ nofPrb ∧
      raType2Ngap nofPrb ngapIs1 ≤ raType2Ngap nofPrb true := by
    unfold raType2Ngap raType0P
    cases ngapIs1 <;> simp only [if_true, Bool.false_eq_true, if_false] <;> split_ifs <;> omega
  unfold raType2NVrbDl
  simp only [if_true, hsub _ hgap.1]
  split_ifs with hless
  · exact ⟨raType2Ngap nofPrb true, rfl, by omega⟩
  · exact ⟨nofPrb - raType2Ngap nofPrb true, rfl, by omega⟩

theorem tilde_sizes (hlow : 2 ≤ nofPrb) (hmax : nofPrb ≤ 110) :
    nTildeVrb nofPrb ngapIs1 = 2 * (nTildeVrb nofPrb ngapIs1 / 2) ∧
      nNull nofPrb ngapIs1 = 2 * (nNull nofPrb ngapIs1 / 2) ∧
      nNull nofPrb ngapIs1 / 2 ≤ nRow nofPrb ngapIs1 ∧
      nTildeVrb nofPrb ngapIs1 =
        4 * nRow nofPrb ngapIs1 - 2 * (nNull nofPrb ngapIs1 / 2) ∧
      0 < nTildeVrb nofPrb ngapIs1 ∧ nTildeVrb nofPrb ngapIs1 / 2 ≤ nofPrb := by
  obtain ⟨half, hvrb, hp, hgap, hfit, -⟩ := @ngap_sizes nofPrb true hlow hmax
  have htilde : nTildeVrb nofPrb ngapIs1 = 2 * half ∨ nTildeVrb nofPrb ngapIs1 = 4 * half := by
    unfold nTildeVrb
    rw [hvrb]
    cases ngapIs1
    · right
      simp only [Bool.false_eq_true, if_false]
      omega
    · left
      rfl
  have hrows : nTildeVrb nofPrb ngapIs1 ≤ 4 * nRow nofPrb ngapIs1 ∧
      2 * nRow nofPrb ngapIs1 ≤ nTildeVrb nofPrb ngapIs1 := by
    unfold nRow ceilDiv
    rcases raType0P_cases nofPrb with ⟨-, hp'⟩ | ⟨-, -, hp'⟩ | ⟨-, -, hp'⟩ | ⟨-, hp'⟩ <;>
      · rw [hp'] at hp ⊢
        omega
  have hp0 : 0 < raType0P nofPrb := by
    have hcases := raType0P_cases nofPrb
    omega
  unfold nNull
  omega

theorem nTildePrbOdd_eq {rows k tilde : ℕ} (hk : k ≤ rows) (htilde : tilde = 4 * rows - 2 * k)
    (hpos : 0 < tilde) (nVrb : ℕ) :
    nTildePrbOdd tilde rows (2 * k) nVrb =
      (FourColumns.place rows k (nVrb % tilde) + tilde * (nVrb / tilde) : ℕ) := by
  have hbound : tilde - 2 * k = 4 * (rows - k) := by omega
  have hlt : nVrb % tilde < tilde := Nat.mod_lt _ hpos
  have hturn : (tilde : ℤ) * (nVrb / tilde) = (tilde * (nVrb / tilde) : ℕ) := by
    push_cast
    rfl
  unfold nTildePrbOdd
  dsimp only
  rw [hbound, hturn]
  generalize tilde * (nVrb / tilde) = turn
  generalize nVrb % tilde = t at hlt
  rcases Nat.lt_or_ge t (4 * (rows - k)) with hfull | hshort
  · rcases FourColumns.place_full hfull with ⟨hmod, hplace⟩ | ⟨hmod, hplace⟩ | ⟨hmod, hplace⟩ |
      ⟨hmod, hplace⟩
    all_goals
      have hmod' : (t : ℤ) % 4 = (t % 4 : ℕ) := by push_cast; rfl
      rw [hmod] at hmod'
      rw [hplace, hmod']
      split_ifs <;> omega
  · rcases FourColumns.place_short hshort with ⟨hmod, hplace⟩ | ⟨hmod, hplace⟩
    all_goals
      have hmod' : (t : ℤ) % 2 = (t % 2 : ℕ) := by push_cast; rfl
      rw [hmod] at hmod'
      rw [hplace, hmod']
      split_ifs <;> omega

section

variable (hlow : 2 ≤ nofPrb) (hmax : nofPrb ≤ 110) (slot : Fin 2)
include hlow hmax slot

theorem nTildePrb_eq (nVrb : ℕ) :
    nTildePrb nofPrb ngapIs1 slot nVrb = vrbPlace nofPrb ngapIs1 slot nVrb := by
  obtain ⟨heven, hnull, hk, htilde, hpos, -⟩ := @tilde_sizes nofPrb ngapIs1 hlow hmax
  have hodd := nTildePrbOdd_eq hk htilde hpos nVrb
  have hplace := FourColumns.place_lt hk
    (show nVrb % nTildeVrb nofPrb ngapIs1 < 4 * nRow nofPrb ngapIs1 -
      2 * (nNull nofPrb ngapIs1 / 2) by rw [← htilde]; exact Nat.mod_lt _ hpos)
  rw [← htilde] at hplace
  rw [← hnull] at hodd
  unfold nTildePrb vrbPlace
  dsimp only
  rw [hodd]
  rcases Fin.exists_fin_two.mp ⟨slot, rfl⟩ with rfl | rfl
  · rw [if_pos rfl, Fin.val_zero, Nat.zero_mul, Nat.add_zero, Nat.mod_eq_of_lt hplace]
  · rw [if_neg (by decide), Fin.val_one, Nat.one_mul]
    rw [← Nat.cast_add, Nat.add_right_comm, ← Int.ofNat_tmod, Nat.add_mul_mod_self_left,
      ← Nat.cast_add]

theorem vrbToPrb_eq (nVrb : ℕ) :
    vrbToPrb nofPrb ngapIs1 slot nVrb =
      (if vrbPlace nofPrb ngapIs1 slot nVrb < nTildeVrb nofPrb ngapIs1 / 2 then
        vrbPlace nofPrb ngapIs1 slot nVrb
      else vrbPlace nofPrb ngapIs1 slot nVrb + raType2Ngap nofPrb ngapIs1 -
        nTildeVrb nofPrb ngapIs1 / 2 : ℕ) := by
  unfold vrbToPrb
  dsimp only
  rw [nTildePrb_eq hlow hmax]
  generalize vrbPlace nofPrb ngapIs1 slot nVrb = place
  generalize nTildeVrb nofPrb ngapIs1 / 2 = half
  split_ifs <;> omega

theorem vrbPlace_injective {u v : ℕ}
    (heq : vrbPlace nofPrb ngapIs1 slot u = vrbPlace nofPrb ngapIs1 slot v) : u = v := by
  obtain ⟨heven, -, hk, htilde, hpos, -⟩ := @tilde_sizes nofPrb ngapIs1 hlow hmax
  unfold vrbPlace at heq
  dsimp only at heq
  generalize nTildeVrb nofPrb ngapIs1 = tilde at *
  generalize nNull nofPrb ngapIs1 / 2 = k at *
  generalize nRow nofPrb ngapIs1 = rows at *
  have hu : u % tilde < 4 * rows - 2 * k := htilde ▸ Nat.mod_lt u hpos
  have hv : v % tilde < 4 * rows - 2 * k := htilde ▸ Nat.mod_lt v hpos
  have hplaceu := FourColumns.place_lt hk hu
  have hplacev := FourColumns.place_lt hk hv
  have hturns : u / tilde = v / tilde := by
    have hdiv := congrArg (· / tilde) heq
    simpa [Nat.add_mul_div_left _ _ hpos, Nat.div_eq_of_lt (Nat.mod_lt _ hpos)] using hdiv
  rw [hturns, Nat.add_right_cancel_iff] at heq
  have hplaces : FourColumns.place rows k (u % tilde) = FourColumns.place rows k (v % tilde) := by
    rw [← htilde] at hplaceu hplacev
    exact Nat.ModEq.eq_of_lt_of_lt (Nat.ModEq.add_right_cancel' _ heq) hplaceu hplacev
  have hrests := FourColumns.place_injective hk hu hv hplaces
  rw [← Nat.div_add_mod u tilde, ← Nat.div_add_mod v tilde, hturns, hrests]

end

end Places
section Distributed

variable {nofPrb : ℕ} {ngapIs1 : Bool}

theorem vrbToPrb_nonneg (hlow : 2 ≤ nofPrb) (hmax : nofPrb ≤ 110) (slot : Fin 2) (nVrb : ℕ) :
    0 ≤ vrbToPrb nofPrb ngapIs1 slot nVrb := by
  rw [vrbToPrb_eq hlow hmax]
  exact Int.natCast_nonneg _

def Past (nofPrb : ℕ) (ngapIs1 : Bool) (run : ℕ × ℕ) : Prop :=
  ∃ v ∈ virtualBlocks run, ∃ slot, (nofPrb : ℤ) ≤ vrbToPrb nofPrb ngapIs1 slot v

def runBlocks (nofPrb : ℕ) (ngapIs1 : Bool) (slot : Fin 2) (run : ℕ × ℕ) : Finset ℕ :=
  (virtualBlocks run).image fun v => (vrbToPrb nofPrb ngapIs1 slot v).toNat

theorem runBlocks_succ (slot : Fin 2) (l s : ℕ) :
    runBlocks nofPrb ngapIs1 slot (l + 1, s) =
      insert (vrbToPrb nofPrb ngapIs1 slot (l + s)).toNat
        (runBlocks nofPrb ngapIs1 slot (l, s)) := by
  have hblocks : virtualBlocks (l + 1, s) = insert (l + s) (virtualBlocks (l, s)) := by
    ext v
    simp only [virtualBlocks, Finset.mem_Ico, Finset.mem_insert]
    omega
  unfold runBlocks
  rw [hblocks, Finset.image_insert]

section

variable (hlow : 2 ≤ nofPrb) (hmax : nofPrb ≤ 110)
include hlow hmax

theorem markVrb_eq (slot : Fin 2) (nVrb : ℕ)
    (grant : PdschGrant) :
    markVrb nofPrb ngapIs1 slot nVrb grant =
      if vrbToPrb nofPrb ngapIs1 slot nVrb < nofPrb then
        .ok { grant with
          prbIdx := fun s =>
            if s = slot then insert (vrbToPrb nofPrb ngapIs1 slot nVrb).toNat (grant.prbIdx s)
            else grant.prbIdx s }
      else .error .error := by
  have hnonneg := @vrbToPrb_nonneg nofPrb ngapIs1 hlow hmax slot nVrb
  unfold markVrb PdschGrant.mark
  dsimp only
  split_ifs with hin hidx hlt hlt hlt
  · rfl
  · exact absurd hin.2 hlt
  · refine absurd ?_ hidx
    unfold maxPrb
    omega
  · refine absurd ?_ hidx
    unfold maxPrb
    omega
  · exact absurd ⟨hnonneg, hlt⟩ hin
  · rfl

section

variable (run : ℕ × ℕ)
include run

theorem allocDistributed_after :
    After (allocDistributed nofPrb ngapIs1 run .zero)
      (fun grant => ¬ Past nofPrb ngapIs1 run ∧
        (∀ slot, grant.prbIdx slot = runBlocks nofPrb ngapIs1 slot run) ∧ grant.nofPrb = run.1)
      fun e => e = .error ∧ Past nofPrb ngapIs1 run := by
  unfold allocDistributed
  refine after_foldlM (fun i (grant : PdschGrant) => ¬ Past nofPrb ngapIs1 (i, run.2) ∧
    (∀ slot, grant.prbIdx slot = runBlocks nofPrb ngapIs1 slot (i, run.2)) ∧ grant.nofPrb = i)
    ?_ ?_
  · rintro i hi g ⟨hin, hblocks, hcount⟩
    have hmem : i + run.2 ∈ virtualBlocks run :=
      Finset.mem_Ico.mpr ⟨Nat.le_add_left _ _, by omega⟩
    rw [markVrb_eq hlow hmax]
    split_ifs with hfirst
    · change After (markVrb nofPrb ngapIs1 1 (i + run.2) _) _ _
      rw [markVrb_eq hlow hmax]
      split_ifs with hsecond
      · refine ⟨?_, ?_, ?_⟩
        · rintro ⟨v, hv, slot, hpast⟩
          obtain ⟨hle, hlt⟩ := Finset.mem_Ico.mp hv
          rcases Nat.lt_or_ge v (i + run.2) with hless | hlast
          · exact hin ⟨v, Finset.mem_Ico.mpr ⟨hle, by omega⟩, slot, hpast⟩
          · have heq : v = i + run.2 := by omega
            rw [heq] at hpast
            rcases Fin.exists_fin_two.mp ⟨slot, rfl⟩ with rfl | rfl <;> omega
        · intro slot
          rw [runBlocks_succ, ← hblocks slot]
          rcases Fin.exists_fin_two.mp ⟨slot, rfl⟩ with rfl | rfl <;> rfl
        · change g.nofPrb + 1 = i + 1
          rw [hcount]
      · exact ⟨rfl, i + run.2, hmem, 1, by omega⟩
    · exact ⟨rfl, i + run.2, hmem, 0, by omega⟩
  · refine ⟨?_, fun slot => ?_, rfl⟩
    · rintro ⟨v, hv, -⟩
      simp [virtualBlocks] at hv
    · simp [runBlocks, virtualBlocks, PdschGrant.zero]

theorem past_iff :
    ¬ Past nofPrb ngapIs1 run ↔ Reached nofPrb ngapIs1 run := by
  obtain ⟨half, -, -, -, hfit, hgap⟩ := @ngap_sizes nofPrb ngapIs1 hlow hmax
  obtain ⟨-, -, -, -, -, hhalf⟩ := @tilde_sizes nofPrb ngapIs1 hlow hmax
  unfold Past Reached
  simp only [not_exists, not_and, not_le]
  refine forall_congr' fun v => forall_congr' fun _ => forall_congr' fun slot => ?_
  rw [vrbToPrb_eq hlow hmax]
  split_ifs with hless
  · omega
  · omega

theorem injOn_iff :
    (∀ slot, Set.InjOn (vrbToPrb nofPrb ngapIs1 slot) (virtualBlocks run)) ↔
      Unfolded nofPrb ngapIs1 run := by
  constructor
  · intro hinj u hu v hv slot hgap hhalf heq
    have hsame : u = v := by
      refine hinj slot hu hv ?_
      rw [vrbToPrb_eq hlow hmax, vrbToPrb_eq hlow hmax, if_pos hhalf, if_neg (by omega)]
      omega
    rw [hsame] at heq hhalf hgap
    omega
  · intro hunfolded slot u hu v hv heq
    have huv := hunfolded u hu v hv slot
    have hvu := hunfolded v hv u hu slot
    refine @vrbPlace_injective nofPrb ngapIs1 hlow hmax slot u v ?_
    rw [vrbToPrb_eq hlow hmax, vrbToPrb_eq hlow hmax] at heq
    split_ifs at heq <;> omega

theorem gap1_places :
    (run.2 + run.1 ≤ raType2NVrbDl nofPrb true → Reached nofPrb true run) ∧
      Unfolded nofPrb true run := by
  obtain ⟨half, hvrb, -, hgap, hfit, -⟩ := @ngap_sizes nofPrb true hlow hmax
  obtain ⟨-, -, hk, htilde, hpos, -⟩ := @tilde_sizes nofPrb true hlow hmax
  have hband : nTildeVrb nofPrb true = 2 * half := hvrb
  constructor
  · intro hrun v hv slot
    obtain ⟨hle, hlt⟩ := Finset.mem_Ico.mp hv
    have hplace : vrbPlace nofPrb true slot v < nTildeVrb nofPrb true := by
      unfold vrbPlace
      dsimp only
      rw [Nat.div_eq_of_lt (show v < nTildeVrb nofPrb true by omega), Nat.mul_zero, Nat.add_zero]
      exact Nat.mod_lt _ hpos
    omega
  · intro u _ v _ slot hge hhalf
    omega

theorem card_runBlocks {slot : Fin 2} :
    (runBlocks nofPrb ngapIs1 slot run).card = run.1 ↔
      Set.InjOn (vrbToPrb nofPrb ngapIs1 slot) (virtualBlocks run) := by
  have hsize : (virtualBlocks run).card = run.1 := by
    unfold virtualBlocks
    rw [Nat.card_Ico, Nat.add_sub_cancel_left]
  unfold runBlocks
  rw [← hsize, Finset.card_image_iff]
  constructor
  · intro hinj u hu v hv heq
    exact hinj hu hv (congrArg Int.toNat heq)
  · intro hinj u hu v hv heq
    have hnonnegu := @vrbToPrb_nonneg nofPrb ngapIs1 hlow hmax slot u
    have hnonnegv := @vrbToPrb_nonneg nofPrb ngapIs1 hlow hmax slot v
    refine hinj hu hv ?_
    dsimp only at heq
    omega

end

end

end Distributed

end RaDl

end SrsLte
