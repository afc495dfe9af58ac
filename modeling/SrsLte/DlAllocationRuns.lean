import Mathlib.Tactic.Ring
import SrsLte.DlAllocationBlocks

/-!
# Which virtual blocks an allocation reads

A resource indication stands for a run of virtual blocks. The code reads that run unless its value
was folded and is not unfolded again, or the steps of format 1C are counted by the wrong number of
virtual blocks.
-/

namespace SrsLte

namespace RaDl

open Word

section Runs

variable {nofPrb : ℕ} {ngapIs1 : Bool} {riv : ℕ} {run : ℕ × ℕ}

theorem vrb_sizes (hlow : 2 ≤ nofPrb) (hmax : nofPrb ≤ 110) :
    raType2NVrbDl nofPrb true = nVrbDl nofPrb true ∧ nVrbDl nofPrb ngapIs1 ≤ nofPrb ∧
      2 * nVrbDl nofPrb false ≤ raType2NVrbDl nofPrb false ∧
      raType2NVrbDl nofPrb false ≤ 220 := by
  obtain ⟨half, hvrb, -, hgap, hfit, -⟩ := @ngap_sizes nofPrb true hlow hmax
  have hgap2 : 0 < raType2Ngap nofPrb false := by
    unfold raType2Ngap
    split_ifs <;> omega
  have hwhole : nofPrb / raType2Ngap nofPrb false * raType2Ngap nofPrb false ≤ nofPrb :=
    Nat.div_mul_le_self _ _
  have hhalf : nofPrb / (2 * raType2Ngap nofPrb false) * 2 ≤
      nofPrb / raType2Ngap nofPrb false := by
    rw [Nat.mul_comm 2, ← Nat.div_div_eq_div_mul]
    exact Nat.div_mul_le_self _ _
  have htwice := Nat.mul_le_mul_right (raType2Ngap nofPrb false) hhalf
  have hcode : raType2NVrbDl nofPrb false =
      2 * (nofPrb / raType2Ngap nofPrb false * raType2Ngap nofPrb false) := by
    unfold raType2NVrbDl
    simp only [Bool.false_eq_true, if_false]
    rw [Nat.mul_right_comm, Nat.mod_eq_of_lt (by omega), Nat.mul_comm]
  have hband : nVrbDl nofPrb false = nofPrb / (2 * raType2Ngap nofPrb false) * 2 *
      raType2Ngap nofPrb false := by
    unfold nVrbDl
    simp only [Bool.false_eq_true, if_false]
    rw [Nat.mul_assoc]
  have hfirst : raType2NVrbDl nofPrb true = nVrbDl nofPrb true ∧ nVrbDl nofPrb true ≤ nofPrb := by
    have hsub : sub32 nofPrb (raType2Ngap nofPrb true) = nofPrb - raType2Ngap nofPrb true :=
      sub32_of_le (by omega) (by omega)
    unfold raType2NVrbDl nVrbDl
    simp only [if_true, hsub]
    split_ifs <;> omega
  refine ⟨hfirst.1, ?_, by omega, by omega⟩
  cases ngapIs1 with
  | true => exact hfirst.2
  | false => omega

theorem rivFold_lt {n l s : ℕ} (hn : n ≤ 110) (hl : 1 ≤ l) (hfit : s + l ≤ n) :
    rivFold n l s < n * (l + 1) ∧ rivFold n l s < 2 ^ 32 ∧
      raType2ToRiv l s n = rivFold n l s := by
  have hnear := (rivFold_near hl hfit).1
  have hmul : n * (l - 1) + n = n * l := by
    rw [← Nat.mul_succ]
    exact congrArg (n * ·) (by omega)
  have hmul' : n * (l + 1) = n * l + n := Nat.mul_succ n l
  have hword : n * (l + 1) ≤ 110 * 111 := Nat.mul_le_mul hn (by omega)
  have hs : s < n := by omega
  have hfold : rivFold n l s < n * (l + 1) := by omega
  refine ⟨hfold, by omega, ?_⟩
  rw [raType2ToRiv_eq (by omega) hl hfit, Nat.mod_eq_of_lt (by omega)]

theorem found_blocks (hlow : 2 ≤ nofPrb) (hmax : nofPrb ≤ 110)
    (hrun : Encodes nofPrb false ngapIs1 riv run) :
    (Found nofPrb false ngapIs1 run → type2Run nofPrb riv false ngapIs1 false = run) ∧
      ((type2Run nofPrb riv false ngapIs1 false).1 = run.1 → Found nofPrb false ngapIs1 run) := by
  obtain ⟨hl, hfit, hriv⟩ := hrun
  obtain ⟨hfirst, hband, hsecond, hcode⟩ := @vrb_sizes nofPrb ngapIs1 hlow hmax
  have hband' := (@vrb_sizes nofPrb true hlow hmax).2.1
  have hvrb : nVrbDl nofPrb ngapIs1 ≤ raType2NVrbDl nofPrb ngapIs1 ∧
      raType2NVrbDl nofPrb ngapIs1 < 2 ^ 32 := by
    cases ngapIs1 <;> omega
  obtain ⟨-, hword, hto⟩ := rivFold_lt hmax hl (hfit.trans hband)
  have hread : type2Run nofPrb riv false ngapIs1 false =
      raType2FromRiv (rivFold nofPrb run.1 run.2) nofPrb (raType2NVrbDl nofPrb ngapIs1) := by
    rw [← hriv, hto]
    rfl
  rw [hread, raType2FromRiv_fold (by omega) hl (hfit.trans hband) (hfit.trans hvrb.1) hvrb.2 hword]
  constructor
  · intro hfound
    exact if_pos hfound
  · intro hlen
    by_contra hlost
    unfold Found at hlost
    rw [if_neg (by decide)] at hlost
    rw [if_neg hlost] at hlen
    dsimp only at hlen
    omega

theorem div_of_wider {n m r c : ℕ} (hr : r < n * c) (hm : 2 * n ≤ m) : 2 * (r / m) < c := by
  by_contra hge
  have hrow : r / m * m ≤ r := Nat.div_mul_le_self r m
  have hwide : r / m * (2 * n) ≤ r / m * m := Nat.mul_le_mul_left _ hm
  have hmul : n * c ≤ n * (2 * (r / m)) := Nat.mul_le_mul_left n (by omega)
  have hsame : n * (2 * (r / m)) = r / m * (2 * n) := by ring
  omega

/-- Steps that are counted twice or more: only one step is read as what it stands for, and all
others have another length. -/
theorem fromRiv_wider {n m l s : ℕ} (hn : n ≤ 110) (hm : 2 * n ≤ m) (hm32 : m < 2 ^ 31)
    (hl : 1 ≤ l) (hfit : s + l ≤ n) :
    (l = 1 → raType2FromRiv (rivFold n l s) m m = (l, s)) ∧
      ((raType2FromRiv (rivFold n l s) m m).1 = l → l = 1) ∧
      (raType2FromRiv (rivFold n l s) m m).1 ≤ m + 1 := by
  obtain ⟨hlow, hword, -⟩ := rivFold_lt hn hl hfit
  have hrow := div_of_wider hlow hm
  rw [raType2FromRiv_eq (by omega) (by omega) (by omega) hword (by omega)]
  refine ⟨?_, ?_, ?_⟩
  · rintro rfl
    have hfold : rivFold n 1 s = s := by
      unfold rivFold
      rw [if_pos (by omega), Nat.sub_self, Nat.mul_zero, Nat.zero_add]
    rw [hfold, Nat.div_eq_of_lt (by omega), Nat.mod_eq_of_lt (by omega), if_neg (by omega)]
  · intro hlen
    by_contra hmore
    have hshort : 2 * (rivFold n l s / m) < l := by
      unfold rivFold
      split_ifs with hfold
      · refine div_of_wider ?_ hm
        have hmul : n * (l - 1) + n = n * l := by
          rw [← Nat.mul_succ]
          exact congrArg (n * ·) (by omega)
        omega
      · have hrest : 2 * ((n * (n - l + 1) + (n - 1 - s)) / m) < n - l + 2 := by
          refine div_of_wider ?_ hm
          have hmul : n * (n - l + 1) + n = n * (n - l + 2) := (Nat.mul_succ n (n - l + 1)).symm
          omega
        omega
    split_ifs at hlen with hflip
    · rw [Nat.mod_eq_of_lt (by omega)] at hlen
      dsimp only at hlen
      omega
    · dsimp only at hlen
      omega
  · split_ifs
    · dsimp only
      omega
    · dsimp only
      omega

theorem found_steps (hlow : 2 ≤ nofPrb) (hmax : nofPrb ≤ 110)
    (hrun : Encodes nofPrb true ngapIs1 riv run) :
    (Found nofPrb true ngapIs1 run → type2Run nofPrb riv true ngapIs1 false = run) ∧
      ((type2Run nofPrb riv true ngapIs1 false).1 = run.1 → Found nofPrb true ngapIs1 run) := by
  obtain ⟨l, s, rfl, hl, hfit, hriv⟩ := hrun
  obtain ⟨hfirst, hband, hsecond, hcode⟩ := @vrb_sizes nofPrb ngapIs1 hlow hmax
  have hstep : raType2NRbStep nofPrb = 2 ∨ raType2NRbStep nofPrb = 4 := by
    unfold raType2NRbStep
    split_ifs
    · exact Or.inl rfl
    · exact Or.inr rfl
  have hsteps : nVrbDl nofPrb ngapIs1 / raType2NRbStep nofPrb ≤ 110 :=
    (Nat.div_le_self _ _).trans (hband.trans hmax)
  obtain ⟨-, hword, hto⟩ := rivFold_lt hsteps hl hfit
  have hread : type2Run nofPrb riv true ngapIs1 false =
      let read := raType2FromRiv (rivFold (nVrbDl nofPrb ngapIs1 / raType2NRbStep nofPrb) l s)
        (raType2NVrbDl nofPrb ngapIs1 / raType2NRbStep nofPrb)
        (raType2NVrbDl nofPrb ngapIs1 / raType2NRbStep nofPrb)
      (read.1 * raType2NRbStep nofPrb % 2 ^ 32, read.2 * raType2NRbStep nofPrb % 2 ^ 32) := by
    rw [← hriv, hto]
    rfl
  have hscaled : (l * raType2NRbStep nofPrb % 2 ^ 32, s * raType2NRbStep nofPrb % 2 ^ 32) =
      (l * raType2NRbStep nofPrb, s * raType2NRbStep nofPrb) := by
    rw [Prod.mk.injEq]
    rcases hstep with h | h <;> rw [h] <;> omega
  rw [hread]
  unfold Found
  rw [if_pos rfl]
  cases ngapIs1 with
  | true =>
    rw [hfirst, raType2FromRiv_fold (by omega) hl hfit hfit (by omega) hword,
      if_pos (by omega)]
    exact ⟨fun _ => hscaled, fun _ => Or.inl rfl⟩
  | false =>
    have hwider : 2 * (nVrbDl nofPrb false / raType2NRbStep nofPrb) ≤
        raType2NVrbDl nofPrb false / raType2NRbStep nofPrb := by
      rcases hstep with h | h <;> rw [h] <;> omega
    have hless : raType2NVrbDl nofPrb false / raType2NRbStep nofPrb ≤ 220 :=
      (Nat.div_le_self _ _).trans hcode
    obtain ⟨hone, hlength, hbound⟩ := fromRiv_wider hsteps hwider (by omega) hl hfit
    have hfound : (false = true ∨ l * raType2NRbStep nofPrb = raType2NRbStep nofPrb) ↔ l = 1 := by
      rcases hstep with h | h <;> rw [h] <;> simp
    dsimp only
    rw [hfound]
    constructor
    · intro hl1
      rw [hone hl1]
      exact hscaled
    · intro hlen
      refine hlength ?_
      rcases hstep with h | h <;> rw [h] at hlen hbound ⊢ <;> omega

theorem encodes_below {format1C : Bool} (hrun : Encodes nofPrb format1C ngapIs1 riv run) :
    run.2 + run.1 ≤ nVrbDl nofPrb ngapIs1 := by
  unfold Encodes at hrun
  split_ifs at hrun
  · obtain ⟨l, s, rfl, -, hfit, -⟩ := hrun
    have hmul := Nat.mul_le_mul_right (raType2NRbStep nofPrb) hfit
    rw [Nat.add_mul] at hmul
    exact hmul.trans (Nat.div_mul_le_self _ _)
  · exact hrun.2.1

theorem found_iff (hlow : 2 ≤ nofPrb) (hmax : nofPrb ≤ 110) {format1C : Bool}
    (hrun : Encodes nofPrb format1C ngapIs1 riv run) :
    (Found nofPrb format1C ngapIs1 run → type2Run nofPrb riv format1C ngapIs1 false = run) ∧
      ((type2Run nofPrb riv format1C ngapIs1 false).1 = run.1 →
        Found nofPrb format1C ngapIs1 run) := by
  cases format1C with
  | false => exact found_blocks hlow hmax hrun
  | true => exact found_steps hlow hmax hrun

theorem distributed_iff (hlow : 2 ≤ nofPrb) (hmax : nofPrb ≤ 110) {dci : DciDl}
    (halloc : dci.alloc = .type2 riv ngapIs1 false) {read : ℕ × ℕ}
    (hread : type2Run nofPrb riv dci.format1C ngapIs1 false = read) :
    WellAllocated nofPrb dci ↔
      (∀ run, Encodes nofPrb dci.format1C ngapIs1 riv run →
        Found nofPrb dci.format1C ngapIs1 run ∧ Reached nofPrb ngapIs1 run) ∧
      (Reached nofPrb ngapIs1 read → Unfolded nofPrb ngapIs1 read) := by
  have hafter := @allocDistributed_after nofPrb ngapIs1 hlow hmax read
  have hresult : raDlGrantToGrantPrbAllocation dci .zero nofPrb =
      allocDistributed nofPrb ngapIs1 read .zero := by
    unfold raDlGrantToGrantPrbAllocation
    rw [halloc, ← hread]
    rfl
  rw [← hresult] at hafter
  constructor
  · rintro ⟨-, hinside, hdist⟩
    constructor
    · intro run hrun
      obtain ⟨⟨grant, hok, hcount⟩, -⟩ := hdist riv ngapIs1 halloc run hrun
      rw [hok] at hafter
      obtain ⟨hpast, -, hlength⟩ := hafter
      obtain ⟨hfound, hsame⟩ := found_iff hlow hmax hrun
      rw [hread] at hfound hsame
      have hin := hsame (hlength.symm.trans hcount)
      rw [hfound hin] at hpast
      exact ⟨hin, (past_iff hlow hmax run).mp hpast⟩
    · intro hreached
      rw [← injOn_iff hlow hmax]
      intro slot
      rw [← past_iff hlow hmax] at hreached
      cases hok : raDlGrantToGrantPrbAllocation dci .zero nofPrb with
      | error e =>
        rw [hok] at hafter
        exact absurd hafter.2 hreached
      | ok grant =>
        rw [hok] at hafter
        have hset := (hinside grant hok slot).2
        rw [hafter.2.1 slot, hafter.2.2] at hset
        exact (card_runBlocks hlow hmax read).mp hset
  · rintro ⟨hruns, hunfold⟩
    have hinj (hpast : ¬ Past nofPrb ngapIs1 read) :=
      (injOn_iff hlow hmax read).mpr (hunfold ((past_iff hlow hmax read).mp hpast))
    refine ⟨?_, ?_, ?_⟩
    · intro hundefined
      rw [hundefined] at hafter
      cases hafter.1
    · intro grant hok slot
      rw [hok] at hafter
      obtain ⟨hpast, hblocks, hcount⟩ := hafter
      rw [hblocks slot, hcount]
      refine ⟨?_, (card_runBlocks hlow hmax read).mpr (hinj hpast slot)⟩
      intro prb hprb
      obtain ⟨v, hv, rfl⟩ := Finset.mem_image.mp hprb
      have hin : vrbToPrb nofPrb ngapIs1 slot v < nofPrb := by
        by_contra hout
        exact hpast ⟨v, hv, slot, not_lt.mp hout⟩
      have hnonneg := @vrbToPrb_nonneg nofPrb ngapIs1 hlow hmax slot v
      omega
    · intro riv' ngapIs1' halloc' run hrun
      rw [halloc] at halloc'
      cases halloc'
      obtain ⟨hfound, hreached⟩ := hruns run hrun
      have hsame := (found_iff hlow hmax hrun).1 hfound
      rw [hread] at hsame
      subst hsame
      have hpast := (past_iff hlow hmax read).mpr hreached
      refine ⟨?_, hinj hpast⟩
      cases hok : raDlGrantToGrantPrbAllocation dci .zero nofPrb with
      | error e =>
        rw [hok] at hafter
        exact absurd hafter.2 hpast
      | ok grant =>
        rw [hok] at hafter
        exact ⟨grant, rfl, hafter.2.2⟩

theorem wellAllocated_of_copied {dci : DciDl}
    (hafter : After (raDlGrantToGrantPrbAllocation dci .zero nofPrb) (Copied nofPrb)
      fun e => e = .error)
    (halloc : ∀ riv ngapIs1, dci.alloc ≠ .type2 riv ngapIs1 false) : WellAllocated nofPrb dci := by
  refine ⟨?_, ?_, fun riv ngapIs1 h => absurd h (halloc riv ngapIs1)⟩
  · intro hundefined
    rw [hundefined] at hafter
    cases hafter
  · intro grant hok slot
    rw [hok] at hafter
    exact hafter slot

theorem localized_iff (hmax : nofPrb ≤ 110) {dci : DciDl}
    (halloc : dci.alloc = .type2 riv ngapIs1 true) :
    WellAllocated nofPrb dci ↔
      ∀ v ∈ virtualBlocks (type2Run nofPrb riv dci.format1C ngapIs1 true), v < nofPrb := by
  have hresult : raDlGrantToGrantPrbAllocation dci .zero nofPrb =
      allocLocalized (type2Run nofPrb riv dci.format1C ngapIs1 true) .zero := by
    unfold raDlGrantToGrantPrbAllocation
    rw [halloc]
    rfl
  generalize type2Run nofPrb riv dci.format1C ngapIs1 true = run at *
  constructor
  · rintro ⟨hdefined, hinside, -⟩ v hv
    have hmem := allocLocalized_mem run
    rw [← hresult] at hmem
    cases hok : raDlGrantToGrantPrbAllocation dci .zero nofPrb with
    | error e =>
      rw [hok] at hmem hdefined
      exact absurd (congrArg Except.error hmem) hdefined
    | ok grant =>
      rw [hok] at hmem
      exact (hinside grant hok 0).1 v (hmem v hv)
  · intro hrun
    refine wellAllocated_of_copied ?_ (by simp [halloc])
    rw [hresult]
    exact (allocLocalized_copied hmax hrun).mono (fun _ h => h) fun _ h => h.elim

/-- An allocation is well exactly under the condition. -/
theorem dl_allocation_iff (hlow : 2 ≤ nofPrb) (hmax : nofPrb ≤ 110) (dci : DciDl) :
    WellAllocated nofPrb dci ↔ Condition nofPrb dci := by
  unfold Condition
  rcases halloc : dci.alloc with bitmask | ⟨bitmask, subset, shift⟩ | ⟨riv, ngapIs1, localized⟩
  · refine iff_of_true (wellAllocated_of_copied ?_ (by simp [halloc])) trivial
    unfold raDlGrantToGrantPrbAllocation
    rw [halloc]
    exact (allocType0_copied hmax bitmask).mono (fun _ h => h) fun _ h => h.elim
  · refine iff_of_true (wellAllocated_of_copied ?_ (by simp [halloc])) trivial
    unfold raDlGrantToGrantPrbAllocation
    rw [halloc]
    exact allocType1_copied (by omega) hmax bitmask subset shift
  · cases localized with
    | true => cases ngapIs1 <;> exact localized_iff hmax halloc
    | false =>
      have hiff := distributed_iff hlow hmax halloc rfl
      cases ngapIs1 with
      | false => exact hiff
      | true =>
        rw [hiff]
        constructor
        · rintro ⟨hruns, -⟩ run hrun
          exact (hruns run hrun).1
        · intro hfound
          refine ⟨fun run hrun => ⟨hfound run hrun, ?_⟩, fun _ => ?_⟩
          · refine (gap1_places hlow hmax run).1 ?_
            rw [(@vrb_sizes nofPrb true hlow hmax).1]
            exact encodes_below hrun
          · exact (gap1_places hlow hmax _).2

end Runs

/-- Three virtual blocks from the fifth on, distributed by the first gap of 50 blocks. -/
theorem dl_allocation_three : WellAllocated 50 ⟨false, .type2 105 true false⟩ := by
  refine (dl_allocation_iff (by decide) (by decide) _).mpr ?_
  rintro ⟨l, s⟩ ⟨hl, hfit, hriv⟩
  have hband : nVrbDl 50 true = 46 := by decide
  rw [hband] at hfit
  dsimp only at hl hfit hriv
  rw [(rivFold_lt (by decide) hl (show s + l ≤ 50 by omega)).2.2] at hriv
  unfold rivFold at hriv
  left
  dsimp only
  split_ifs at hriv <;> omega

/-- An encoded run of the first gap is refused, and a run of the second gap comes back with 35
blocks counted and 34 set. -/
theorem distributed_run_lost :
    Encodes 50 false true 1249 (27, 0) ∧
      (raDlGrantToGrantPrbAllocation ⟨false, .type2 1249 true false⟩ .zero 50).toOption.map
        PdschGrant.nofPrb = none ∧
      ¬ WellAllocated 50 ⟨false, .type2 1249 true false⟩ ∧
      (raDlGrantToGrantPrbAllocation ⟨false, .type2 1702 false false⟩ .zero 50).toOption.map
        (fun grant => (grant.nofPrb, (grant.prbIdx 0).card)) = some (35, 34) := by
  have hencodes : Encodes 50 false true 1249 (27, 0) := ⟨by decide, by decide, by decide⟩
  have hnone : (raDlGrantToGrantPrbAllocation ⟨false, .type2 1249 true false⟩ .zero
      50).toOption.map PdschGrant.nofPrb = none := by decide
  refine ⟨hencodes, hnone, ?_, by decide +kernel⟩
  rintro ⟨-, -, hdist⟩
  obtain ⟨⟨grant, hok, -⟩, -⟩ := hdist 1249 true rfl (27, 0) hencodes
  rw [hok] at hnone
  cases hnone

end RaDl

end SrsLte
