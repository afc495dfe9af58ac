import SrsLte.FrequencyHopping

/-!
# Where hopping puts the blocks

Every grant that is not refused has a run inside the carrier. Type 1 moves it by its distance less
the turns around the blocks between the margins. Type 2 comes to a result in a single sub-band only,
where the run goes down by one block or starts at the mirror image of its start.
-/

namespace SrsLte

namespace Hopping

open Word

theorem evenHo_eq (nRbHo : ℕ) : evenHo nRbHo = 2 * (evenHo nRbHo / 2) := by
  unfold evenHo
  split_ifs <;> omega

section Grant

variable {cfg : PuschHoppingCfg} {nofPrb : ℕ} {dci : DciUl}

theorem run_fits (hpos : 0 < nofPrb) (hmax : nofPrb ≤ 110)
    (hwidth : dci.riv < 2 ^ rivNbits nofPrb) :
    1 ≤ (dci.run nofPrb).1 ∧ (dci.run nofPrb).2 + (dci.run nofPrb).1 ≤ nofPrb := by
  have hquot := lt_of_rivNbits hpos hwidth
  have hriv : dci.riv < 2 ^ 32 := by
    have hlt := Nat.lt_mul_div_succ dci.riv hpos
    have hmul : nofPrb * (dci.riv / nofPrb + 1) ≤ 110 * 111 := Nat.mul_le_mul hmax (by omega)
    omega
  constructor
  · unfold DciUl.run
    rw [raType2FromRiv_eq (by omega) hpos (by omega) hriv hquot]
    split_ifs
    · dsimp only
      omega
    · exact Nat.succ_pos _
  · have hinside := (localized_sound hpos (by omega)).2 dci.riv hwidth
    exact (raType2FromRiv_inside (by omega) hpos le_rfl hriv hquot).mpr hinside

def secondPrb (p n : ℕ) : FreqHopFl → Except Failure ℕ
  | .quartNeg =>
    .ok (if n < p / 4 then sub32 ((p + n) % 2 ^ 32) (p / 4) else sub32 n (p / 4))
  | .half => modulo ((p / 2 + n) % 2 ^ 32) p
  | _ => modulo ((p / 4 + n) % 2 ^ 32) p

theorem grantPrb_type1 (htype : dci.freqHopFl.type = 1) (nRbHo : ℕ) :
    grantPrb dci nRbHo nofPrb =
      if (dci.run nofPrb).2 < evenHo nRbHo / 2 then .error .error
      else (secondPrb (nRbPusch nRbHo nofPrb) (dci.run nofPrb).2 dci.freqHopFl).map fun second =>
        ⟨(dci.run nofPrb).1, ![(dci.run nofPrb).2, second], ![0, 0], 1⟩ := by
  unfold grantPrb DciUl.run secondPrb
  cases hfl : dci.freqHopFl with
  | disabled => rw [hfl] at htype; cases htype
  | type2 => rw [hfl] at htype; cases htype
  | quart => rfl
  | quartNeg => rfl
  | half => rfl

/-- A grant that starts within the margin has either the blocks between the margins to hop on, or a
number of them that has wrapped around. -/
theorem nRbPusch_cases {nRbHo n : ℕ} (hmax : nofPrb ≤ 110) (hn : n < nofPrb)
    (hmargin : evenHo nRbHo / 2 ≤ n) :
    nRbPusch nRbHo nofPrb + 2 * (evenHo nRbHo / 2) + nofPrb % 2 = nofPrb ∨
      2 ^ 32 - 220 ≤ nRbPusch nRbHo nofPrb ∧ nRbPusch nRbHo nofPrb < 2 ^ 32 := by
  have heven := evenHo_eq nRbHo
  unfold nRbPusch sub32
  omega

theorem secondPrb_wrapped {p n l : ℕ} {fl : FreqHopFl} (hlow : 2 ^ 32 - 220 ≤ p)
    (hhigh : p < 2 ^ 32) (hn : n + l ≤ 110) :
    ∃ second, secondPrb p n fl = .ok second ∧ 110 < (second + l) % 2 ^ 32 := by
  have hmodulo {d : ℕ} (hd : d + n < p) : modulo ((d + n) % 2 ^ 32) p = .ok (d + n) := by
    unfold modulo
    rw [if_neg (by omega), Nat.mod_eq_of_lt (hd.trans hhigh), Nat.mod_eq_of_lt hd]
  have hquart : 2 ^ 30 - 55 ≤ p / 4 ∧ p / 4 < 2 ^ 30 := by omega
  cases fl with
  | half => exact ⟨_, hmodulo (show p / 2 + n < p by omega), by omega⟩
  | quart => exact ⟨_, hmodulo (show p / 4 + n < p by omega), by omega⟩
  | disabled => exact ⟨_, hmodulo (show p / 4 + n < p by omega), by omega⟩
  | type2 => exact ⟨_, hmodulo (show p / 4 + n < p by omega), by omega⟩
  | quartNeg =>
    refine ⟨_, rfl, ?_⟩
    rw [if_pos (by omega)]
    have hsum : (p + n) % 2 ^ 32 < 110 ∨ 2 ^ 32 - 220 ≤ (p + n) % 2 ^ 32 := by omega
    have hword : (p + n) % 2 ^ 32 < 2 ^ 32 := Nat.mod_lt _ (by decide)
    generalize (p + n) % 2 ^ 32 = m at hsum hword
    generalize p / 4 = q at hquart
    unfold sub32
    omega

theorem modulo_turns {p d n : ℕ} (hp : 0 < p) (hsmall : d + n < 2 ^ 32) :
    modulo ((d + n) % 2 ^ 32) p = .ok (n + d - (n + d) / p * p) := by
  unfold modulo
  rw [if_neg (by omega), Nat.mod_eq_of_lt hsmall, Nat.add_comm d n, Nat.mod_eq_sub_div_mul]

theorem secondPrb_eq {p n : ℕ} {fl : FreqHopFl} (hfl : fl.type = 1) (hp : p ≤ 110) (hn : n < 110) :
    turns p n fl * p ≤ n + advance p fl ∧
      secondPrb p n fl =
        if p = 0 ∧ fl ≠ .quartNeg then .error .undefined
        else .ok (n + advance p fl - turns p n fl * p) := by
  cases fl with
  | disabled => cases hfl
  | type2 => cases hfl
  | quart =>
    refine ⟨Nat.div_mul_le_self _ _, ?_⟩
    rcases Nat.eq_zero_or_pos p with rfl | hpos
    · rfl
    · rw [if_neg (by omega)]
      exact modulo_turns hpos (by omega)
  | half =>
    refine ⟨Nat.div_mul_le_self _ _, ?_⟩
    rcases Nat.eq_zero_or_pos p with rfl | hpos
    · rfl
    · rw [if_neg (by omega)]
      exact modulo_turns hpos (by omega)
  | quartNeg =>
    rw [if_neg (by simp)]
    change (if n < p / 4 then 0 else 1) * p ≤ n + (p - p / 4) ∧
      Except.ok (if n < p / 4 then sub32 ((p + n) % 2 ^ 32) (p / 4) else sub32 n (p / 4)) =
        Except.ok (n + (p - p / 4) - (if n < p / 4 then 0 else 1) * p)
    split_ifs with hless
    · rw [Nat.mod_eq_of_lt (show p + n < 2 ^ 32 by omega), sub32_of_le (by omega) (by omega)]
      exact ⟨by omega, congrArg _ (by omega)⟩
    · rw [sub32_of_le (by omega) (by omega)]
      exact ⟨by omega, congrArg _ (by omega)⟩

theorem raUlDciToGrant_type1 (htype : dci.freqHopFl.type = 1) :
    raUlDciToGrant cfg nofPrb dci =
      if (dci.run nofPrb).2 < margin cfg 1 then .error .error
      else
        (secondPrb (nRbPusch cfg.nRbHo nofPrb) (dci.run nofPrb).2 dci.freqHopFl).bind fun second =>
          if ((dci.run nofPrb).2 + (dci.run nofPrb).1) % 2 ^ 32 ≤ nofPrb ∧
              (second + (dci.run nofPrb).1) % 2 ^ 32 ≤ nofPrb then
            .ok ⟨(dci.run nofPrb).1, ![(dci.run nofPrb).2, second],
              ![(dci.run nofPrb).2, second], 1⟩
          else .error .error := by
  unfold raUlDciToGrant raUlGrantToGrantPrbAllocation
  rw [grantPrb_type1 htype]
  change _ = if (dci.run nofPrb).2 < evenHo cfg.nRbHo / 2 then _ else _
  split_ifs
  · rfl
  · cases secondPrb (nRbPusch cfg.nRbHo nofPrb) (dci.run nofPrb).2 dci.freqHopFl with
    | error e => rfl
    | ok second =>
      change Except.bind (if ((dci.run nofPrb).2 + (dci.run nofPrb).1) % 2 ^ 32 ≤ nofPrb ∧
        (second + (dci.run nofPrb).1) % 2 ^ 32 ≤ nofPrb then _ else _) _ = if _ then _ else _
      split_ifs <;> rfl

theorem type1_grant (hpos : 0 < nofPrb) (hmax : nofPrb ≤ 110) (hvalid : Valid cfg nofPrb dci)
    (htype : dci.freqHopFl.type = 1) {l n p second : ℕ} (hrun : dci.run nofPrb = (l, n))
    (hp : nRbPusch cfg.nRbHo nofPrb = p)
    (hsecond : second = n + advance p dci.freqHopFl - turns p n dci.freqHopFl * p) :
    margin cfg 1 ≤ n ∧ turns p n dci.freqHopFl * p ≤ n + advance p dci.freqHopFl ∧
      if p = 0 ∧ dci.freqHopFl ≠ .quartNeg then
        raUlDciToGrant cfg nofPrb dci = .error .undefined
      else second + l ≤ nofPrb ∧
        raUlDciToGrant cfg nofPrb dci = .ok ⟨l, ![n, second], ![n, second], 1⟩ := by
  obtain ⟨hwidth, haccepted⟩ := hvalid
  obtain ⟨hlen, hfits⟩ := run_fits hpos hmax hwidth
  rw [raUlDciToGrant_type1 htype] at haccepted ⊢
  rw [hrun] at hlen hfits haccepted ⊢
  rw [hp] at haccepted ⊢
  dsimp only at hlen hfits haccepted ⊢
  have hmargin : margin cfg 1 ≤ n := by
    by_contra hless
    rw [if_pos (Nat.lt_of_not_le hless)] at haccepted
    exact haccepted rfl
  rw [if_neg (Nat.not_lt.mpr hmargin)] at haccepted ⊢
  rcases nRbPusch_cases hmax (show n < nofPrb by omega) hmargin with hplain | ⟨hlow, hhigh⟩
  · rw [hp] at hplain
    obtain ⟨hturns, heq⟩ := secondPrb_eq (p := p) (n := n) htype (by omega) (by omega)
    refine ⟨hmargin, hturns, ?_⟩
    rw [heq] at haccepted ⊢
    split_ifs at haccepted ⊢ with hzero
    · rfl
    · rw [← hsecond] at haccepted ⊢
      have hsmall : second < 2 ^ 31 := by
        have hadvance : advance p dci.freqHopFl ≤ p := by
          unfold advance
          split <;> omega
        omega
      change (if _ then _ else _) ≠ _ at haccepted
      change _ ∧ (if _ then _ else _) = _
      rw [Nat.mod_eq_of_lt (show n + l < 2 ^ 32 by omega),
        Nat.mod_eq_of_lt (show second + l < 2 ^ 32 by omega)] at haccepted ⊢
      have hcheck : n + l ≤ nofPrb ∧ second + l ≤ nofPrb := by
        by_contra hfail
        rw [if_neg hfail] at haccepted
        exact haccepted rfl
      exact ⟨hcheck.2, if_pos hcheck⟩
  · rw [hp] at hlow hhigh
    obtain ⟨wrapped, hwrapped, hpast⟩ :=
      @secondPrb_wrapped p n l dci.freqHopFl hlow hhigh (hfits.trans hmax)
    rw [hwrapped] at haccepted
    refine absurd (if_neg ?_) haccepted
    omega

end Grant
/-- The sum has no value: the loop does not end after the first round, and the second one shifts by
a difference that has wrapped around. -/
theorem fHopSum_ne_ok (c : ℕ → ℕ) (fuel : ℕ) {i : ℕ} (hi : i ≤ 19) (sum : ℕ) :
    fHopSum c fuel i ≠ .ok sum := by
  unfold fHopSum
  have hfirst : sub32 (i * 10 + 1) ((i * 10 + 1) % 2 ^ 32) = 0 := by
    unfold sub32
    omega
  have hsecond : ¬ sub32 (i * 10 + 1) (((i + 1) % 2 ^ 32 * 10 + 1) % 2 ^ 32) < 32 := by
    unfold sub32
    omega
  intro hok
  cases fuel with
  | zero => cases hok
  | succ fuel =>
    rw [fHopSumLoop, if_pos (by omega)] at hok
    dsimp only at hok
    rw [hfirst, if_pos (by decide)] at hok
    cases fuel with
    | zero => cases hok
    | succ fuel =>
      rw [fHopSumLoop, if_pos (by omega)] at hok
      dsimp only at hok
      rw [if_neg hsecond] at hok
      cases hok

theorem fHop_ne_ok (c : ℕ → ℕ) (fuel : ℕ) {nSb i : ℕ} (hsb : nSb ≠ 1) (hi : i ≤ 19) (hop : ℕ) :
    fHop c fuel nSb (i + 1) ≠ .ok hop := by
  intro hok
  rw [fHop, if_neg hsb] at hok
  cases hbefore : fHop c fuel nSb i with
  | error e =>
    rw [hbefore] at hok
    split_ifs at hok <;> cases hok
  | ok before =>
    cases hsum : fHopSum c fuel i with
    | ok sum => exact fHopSum_ne_ok c fuel hi sum hsum
    | error e =>
      rw [hbefore, hsum] at hok
      split_ifs at hok <;> cases hok

section Hop

variable {cfg : PuschHoppingCfg} {nofPrb : ℕ} {dci : DciUl}

theorem hopIndex_le (tti : ℕ) (slot : Fin 2) : hopIndex cfg tti slot ≤ 19 := by
  unfold hopIndex
  split
  · omega
  · omega

theorem hopType2_ne_ok (c : ℕ → ℕ) (fuel tti nPrb : ℕ) (slot : Fin 2) (hsb : cfg.nSb ≠ 1)
    (place : ℕ) : hopType2 c fuel cfg nofPrb tti nPrb slot ≠ .ok place := by
  intro hok
  unfold hopType2 at hok
  cases hhop : fHop c fuel cfg.nSb (hopIndex cfg tti slot + 1) with
  | ok hop => exact fHop_ne_ok c fuel hsb (hopIndex_le tti slot) hop hhop
  | error e =>
    dsimp only at hok
    rw [hhop] at hok
    cases hok

/-- The place of a run from `n` under hopping of type 2 in a single sub-band. -/
def type2Place (nofPrb n : ℕ) (mirrored : Bool) : ℕ :=
  if mirrored then nofPrb - 1 - n else if n = 0 then nofPrb - 1 else n - 1

theorem fM_single (c : ℕ → ℕ) (tti : ℕ) (slot : Fin 2) (hsb : cfg.nSb = 1) :
    fM c cfg (hopIndex cfg tti slot) = if hopsIn cfg slot then 1 else 0 := by
  unfold fM hopIndex hopsIn
  rw [if_pos hsb]
  cases cfg.hopMode with
  | interSf =>
    dsimp only
    split_ifs with h <;> simp only [decide_eq_true_eq] at h <;> omega
  | intraSf =>
    dsimp only
    rcases Fin.exists_fin_two.mp ⟨slot, rfl⟩ with rfl | rfl
    · simp only [Fin.val_zero]
      rw [if_neg (by decide)]
      omega
    · simp only [Fin.val_one]
      rw [if_pos (by decide)]
      omega

theorem hopType2_single (c : ℕ → ℕ) (fuel tti : ℕ) {n : ℕ} (slot : Fin 2) (hsb : cfg.nSb = 1)
    (hmax : nofPrb ≤ 110) (hn : n < nofPrb) :
    hopType2 c fuel cfg nofPrb tti n slot = .ok (type2Place nofPrb n (hopsIn cfg slot)) := by
  have hhop : fHop c fuel 1 (hopIndex cfg tti slot + 1) = .ok 0 := by
    rw [fHop, if_pos rfl]
  have hinside : modulo n nofPrb = .ok n := by
    rw [modulo, if_neg (by omega), Nat.mod_eq_of_lt hn]
  have hzero : sub32 n 0 = n := sub32_of_le (Nat.zero_le n) (by omega)
  have hlast : sub32 nofPrb 1 = nofPrb - 1 := sub32_of_le (by omega) (by omega)
  have hwidth : nofPrb * 1 % 2 ^ 32 = nofPrb := by omega
  have hsum : (n + 0 * nofPrb + (nofPrb - 1)) % 2 ^ 32 = n + nofPrb - 1 := by omega
  unfold hopType2
  simp only [nRbSb, hsb, gt_iff_lt, lt_irrefl, if_false, hzero, hhop, fM_single c tti slot hsb,
    hlast, hwidth, hsum, bind, Except.bind, hinside]
  unfold modulo type2Place
  rw [if_neg (by omega)]
  refine congrArg Except.ok ?_
  cases hopsIn cfg slot with
  | true =>
    have hdiff : sub32 (n + nofPrb - 1) (2 * n % 2 ^ 32) = nofPrb - 1 - n := by
      unfold sub32
      omega
    simp only [if_true, Nat.mul_one, Nat.add_zero, hdiff]
    rw [Nat.mod_eq_of_lt (show nofPrb - 1 - n < nofPrb by omega), Nat.mod_eq_of_lt (by omega)]
  | false =>
    have hdiff : sub32 (n + nofPrb - 1) 0 = n + nofPrb - 1 := by
      unfold sub32
      omega
    simp only [Bool.false_eq_true, if_false, Nat.mul_zero, Nat.zero_mod, Nat.add_zero, hdiff]
    split_ifs with hn0
    · rw [hn0, Nat.zero_add, Nat.mod_eq_of_lt (show nofPrb - 1 < nofPrb by omega),
        Nat.mod_eq_of_lt (by omega)]
    · rw [show n + nofPrb - 1 = n - 1 + nofPrb by omega, Nat.add_mod_right,
        Nat.mod_eq_of_lt (show n - 1 < nofPrb by omega), Nat.mod_eq_of_lt (by omega)]

theorem raUlDciToGrant_fixed (hpos : 0 < nofPrb) (hmax : nofPrb ≤ 110)
    (hvalid : Valid cfg nofPrb dci) (htype : dci.freqHopFl.type ≠ 1) :
    raUlDciToGrant cfg nofPrb dci = .ok ⟨(dci.run nofPrb).1,
      fun _ => (dci.run nofPrb).2, fun _ => (dci.run nofPrb).2, dci.freqHopFl.type⟩ := by
  obtain ⟨hlen, hfits⟩ := run_fits hpos hmax hvalid.width
  have hsmall := Nat.mod_eq_of_lt
    (show (dci.run nofPrb).2 + (dci.run nofPrb).1 < 2 ^ 32 by omega)
  have hboth : (![(dci.run nofPrb).2, (dci.run nofPrb).2] : Fin 2 → ℕ) =
      fun _ => (dci.run nofPrb).2 := by
    funext slot
    rcases Fin.exists_fin_two.mp ⟨slot, rfl⟩ with rfl | rfl <;> rfl
  have hgrant : grantPrb dci cfg.nRbHo nofPrb = .ok ⟨(dci.run nofPrb).1,
      ![(dci.run nofPrb).2, (dci.run nofPrb).2], ![0, 0], dci.freqHopFl.type⟩ := by
    unfold grantPrb DciUl.run
    cases hfl : dci.freqHopFl with
    | disabled => rfl
    | type2 => rfl
    | quart => rw [hfl] at htype; exact absurd rfl htype
    | quartNeg => rw [hfl] at htype; exact absurd rfl htype
    | half => rw [hfl] at htype; exact absurd rfl htype
  unfold raUlDciToGrant raUlGrantToGrantPrbAllocation
  rw [hgrant, hboth]
  simp only [bind, Except.bind, hsmall, hfits, and_self, if_true, pure, Except.pure]

theorem hopped_eq (c : ℕ → ℕ) (fuel tti : ℕ) {grant : PuschGrant}
    (hgrant : raUlDciToGrant cfg nofPrb dci = .ok grant) :
    hopped c fuel cfg nofPrb tti dci = raUlPuschHopping c fuel cfg nofPrb tti grant := by
  unfold hopped
  rw [hgrant]
  rfl

end Hop
section Places

variable {cfg : PuschHoppingCfg} {nofPrb : ℕ} {dci : DciUl}

def type1Hops (cfg : PuschHoppingCfg) (slot : Fin 2) : Bool :=
  if cfg.hoppingEnabled then hopsIn cfg slot else slot = 1

theorem pair_slot (n second : ℕ) (slot : Fin 2) :
    (![n, second] : Fin 2 → ℕ) slot = if slot = 1 then second else n := by
  rcases Fin.exists_fin_two.mp ⟨slot, rfl⟩ with rfl | rfl <;> rfl

theorem grant_congr {ε : Type*} {l type : ℕ} {prb prb₁ prb₂ : Fin 2 → ℕ} (h₀ : prb₁ 0 = prb₂ 0)
    (h₁ : prb₁ 1 = prb₂ 1) :
    (.ok ⟨l, prb, prb₁, type⟩ : Except ε PuschGrant) = .ok ⟨l, prb, prb₂, type⟩ := by
  have hprb : prb₁ = prb₂ := funext (Fin.forall_fin_two.mpr ⟨h₀, h₁⟩)
  rw [hprb]

section

variable (c : ℕ → ℕ) (fuel tti : ℕ)
include c fuel tti

theorem hopped_type1 {l n second : ℕ}
    (hgrant : raUlDciToGrant cfg nofPrb dci = .ok ⟨l, ![n, second], ![n, second], 1⟩) :
    hopped c fuel cfg nofPrb tti dci = .ok ⟨l, ![n, second],
      fun slot => if type1Hops cfg slot then second else n, 1⟩ := by
  have hslot (slot : Fin 2) : (![n, second] : Fin 2 → ℕ) (type1Slot cfg slot) =
      if hopsIn cfg slot then second else n := by
    unfold type1Slot hopsIn
    cases cfg.hopMode with
    | interSf =>
      dsimp only
      rw [pair_slot]
      simp [Fin.ext_iff]
    | intraSf =>
      dsimp only
      rw [pair_slot]
      simp
  rw [hopped_eq c fuel tti hgrant]
  unfold raUlPuschHopping type1Hops
  cases cfg.hoppingEnabled with
  | true =>
    exact grant_congr (hslot 0) (hslot 1)
  | false =>
    exact grant_congr rfl rfl

theorem hopped_disabled {l n : ℕ}
    (hgrant : raUlDciToGrant cfg nofPrb dci = .ok ⟨l, fun _ => n, fun _ => n, 0⟩) :
    hopped c fuel cfg nofPrb tti dci = .ok ⟨l, fun _ => n, fun _ => n, 0⟩ := by
  rw [hopped_eq c fuel tti hgrant]
  unfold raUlPuschHopping
  split_ifs
  · exact grant_congr rfl rfl
  · rfl

theorem hopped_type2_disabled {l n : ℕ}
    (hgrant : raUlDciToGrant cfg nofPrb dci = .ok ⟨l, fun _ => n, fun _ => n, 2⟩)
    (henabled : cfg.hoppingEnabled = false) :
    hopped c fuel cfg nofPrb tti dci = .ok ⟨l, fun _ => n, fun _ => n, 2⟩ := by
  rw [hopped_eq c fuel tti hgrant]
  unfold raUlPuschHopping
  rw [henabled]
  rfl

theorem hopped_type2_single {l n : ℕ}
    (hgrant : raUlDciToGrant cfg nofPrb dci = .ok ⟨l, fun _ => n, fun _ => n, 2⟩)
    (henabled : cfg.hoppingEnabled = true) (hsb : cfg.nSb = 1) (hmax : nofPrb ≤ 110)
    (hn : n < nofPrb) :
    hopped c fuel cfg nofPrb tti dci = .ok ⟨l, fun _ => n,
      fun slot => type2Place nofPrb n (hopsIn cfg slot), 2⟩ := by
  rw [hopped_eq c fuel tti hgrant]
  unfold raUlPuschHopping hopSlot
  simp only [henabled, if_true, hopType2_single c fuel tti _ hsb hmax hn, bind, Except.bind]
  exact grant_congr rfl rfl

theorem hopped_type2_ne_ok {l n : ℕ}
    (hgrant : raUlDciToGrant cfg nofPrb dci = .ok ⟨l, fun _ => n, fun _ => n, 2⟩)
    (henabled : cfg.hoppingEnabled = true) (hsb : cfg.nSb ≠ 1) (grant : PuschGrant) :
    hopped c fuel cfg nofPrb tti dci ≠ .ok grant := by
  intro hok
  rw [hopped_eq c fuel tti hgrant] at hok
  unfold raUlPuschHopping hopSlot at hok
  simp only [henabled, if_true] at hok
  cases hfirst : hopType2 c fuel cfg nofPrb tti n 0 with
  | ok place => exact hopType2_ne_ok c fuel tti n 0 hsb place hfirst
  | error e =>
    rw [hfirst] at hok
    cases hok

end

theorem placed_of_hopped {c : ℕ → ℕ} {tti : ℕ} {grant : PuschGrant}
    (hhopped : ∀ fuel, hopped c fuel cfg nofPrb tti dci = .ok grant) :
    Placed cfg nofPrb c tti dci ↔ ∀ slot, grant.nPrbTilde slot + grant.lPrb ≤ nofPrb ∧
      (cfg.hoppingEnabled = true → margin cfg grant.freqHopping ≤ grant.nPrbTilde slot ∧
        grant.nPrbTilde slot + grant.lPrb + margin cfg grant.freqHopping ≤ nofPrb) := by
  constructor
  · rintro ⟨fuel, grant', hgrant', hplaced⟩
    rw [hhopped fuel] at hgrant'
    cases hgrant'
    exact hplaced
  · intro hplaced
    exact ⟨0, grant, hhopped 0, hplaced⟩

section

variable (hpos : 0 < nofPrb) (hmax : nofPrb ≤ 110) (hvalid : Valid cfg nofPrb dci)
include hpos hmax hvalid

theorem placed_type1_iff (htype : dci.freqHopFl.type = 1) (c : ℕ → ℕ) (tti : ℕ) :
    Placed cfg nofPrb c tti dci ↔
      LandsType1 cfg nofPrb dci.freqHopFl (dci.run nofPrb).1 (dci.run nofPrb).2 := by
  rcases hrun : dci.run nofPrb with ⟨l, n⟩
  obtain ⟨hlen, hfits⟩ := run_fits hpos hmax hvalid.width
  rw [hrun] at hlen hfits
  obtain ⟨hmargin, hturns, hgrant⟩ := type1_grant hpos hmax hvalid htype hrun rfl rfl
  unfold LandsType1
  dsimp only at *
  generalize nRbPusch cfg.nRbHo nofPrb = p at *
  split_ifs at hgrant with hzero
  · refine iff_of_false ?_ fun hlands => hzero.2 (hlands.1 hzero.1)
    rintro ⟨fuel, grant, hok, -⟩
    unfold hopped at hok
    rw [hgrant] at hok
    cases hok
  · rw [placed_of_hopped fun fuel => hopped_type1 c fuel tti hgrant.2]
    have hflag : p = 0 → dci.freqHopFl = .quartNeg := by
      intro hp
      by_contra hfl
      exact hzero ⟨hp, hfl⟩
    have hsecond := hgrant.1
    refine ⟨fun hplaced => ⟨hflag, fun henabled slot => ?_⟩, fun hlands slot => ⟨?_, ?_⟩⟩
    · have hin := (hplaced slot).2 henabled
      simp only [type1Hops, henabled, if_true] at hin
      split_ifs at hin ⊢
      · omega
      · exact hin.2
    · dsimp only
      split_ifs
      · exact hsecond
      · exact hfits
    · intro henabled
      have hin := hlands.2 henabled slot
      simp only [type1Hops, henabled, if_true]
      split_ifs at hin ⊢
      · omega
      · exact ⟨hmargin, hin⟩

theorem placed_type2_iff (htype : dci.freqHopFl.type = 2) (c : ℕ → ℕ) (tti : ℕ) :
    Placed cfg nofPrb c tti dci ↔ LandsType2 cfg (dci.run nofPrb).1 (dci.run nofPrb).2 := by
  rcases hrun : dci.run nofPrb with ⟨l, n⟩
  obtain ⟨hlen, hfits⟩ := run_fits hpos hmax hvalid.width
  have hgrant := raUlDciToGrant_fixed hpos hmax hvalid (by omega)
  rw [hrun] at hlen hfits hgrant
  rw [htype] at hgrant
  dsimp only at *
  unfold LandsType2
  cases henabled : cfg.hoppingEnabled with
  | false =>
    rw [placed_of_hopped fun fuel => hopped_type2_disabled c fuel tti hgrant henabled]
    simp [henabled, hfits]
  | true =>
    by_cases hsb : cfg.nSb = 1
    · rw [placed_of_hopped fun fuel =>
        hopped_type2_single c fuel tti hgrant henabled hsb hmax (by omega)]
      simp only [henabled, hsb, margin, if_true, true_and, forall_true_left, Nat.zero_le,
        Nat.add_zero, and_self]
      refine forall_congr' fun slot => ?_
      unfold type2Place
      split_ifs <;> omega
    · refine iff_of_false ?_ fun hlands => hsb (hlands rfl).1
      rintro ⟨fuel, grant, hok, -⟩
      exact hopped_type2_ne_ok c fuel tti hgrant henabled hsb grant hok

theorem placed_iff (c : ℕ → ℕ) (tti : ℕ) : Placed cfg nofPrb c tti dci ↔ Lands cfg nofPrb dci := by
  have htype1 (h : dci.freqHopFl.type = 1) := placed_type1_iff hpos hmax hvalid h c tti
  have htype2 (h : dci.freqHopFl.type = 2) := placed_type2_iff hpos hmax hvalid h c tti
  have hfits := (run_fits hpos hmax hvalid.width).2
  have hgrant := raUlDciToGrant_fixed hpos hmax hvalid
  unfold Lands
  cases hfl : dci.freqHopFl with
  | disabled =>
    rw [hfl] at hgrant
    rw [placed_of_hopped fun fuel => hopped_disabled c fuel tti (hgrant (by decide))]
    simp [margin, hfits]
  | quart => rw [htype1 (by rw [hfl]; rfl), hfl]
  | quartNeg => rw [htype1 (by rw [hfl]; rfl), hfl]
  | half => rw [htype1 (by rw [hfl]; rfl), hfl]
  | type2 => exact htype2 (by rw [hfl]; rfl)

end

end Places
section Pairs

variable {cfg : PuschHoppingCfg} {nofPrb : ℕ} {a b : DciUl} {c : ℕ → ℕ} {tti : ℕ}

theorem apart_of_hopped {ga gb : PuschGrant}
    (ha : ∀ fuel, hopped c fuel cfg nofPrb tti a = .ok ga)
    (hb : ∀ fuel, hopped c fuel cfg nofPrb tti b = .ok gb) :
    (∀ fuel ga gb, hopped c fuel cfg nofPrb tti a = .ok ga →
      hopped c fuel cfg nofPrb tti b = .ok gb →
        ∀ slot, Apart (ga.lPrb, ga.nPrbTilde slot) (gb.lPrb, gb.nPrbTilde slot)) ↔
      ∀ slot, Apart (ga.lPrb, ga.nPrbTilde slot) (gb.lPrb, gb.nPrbTilde slot) := by
  constructor
  · intro h
    exact h 0 ga gb (ha 0) (hb 0)
  · intro h fuel ga' gb' ha' hb'
    rw [ha fuel] at ha'
    rw [hb fuel] at hb'
    cases ha'
    cases hb'
    exact h

theorem type2Place_mirrored {la na lb nb : ℕ} (ha : na < nofPrb) (hb : nb < nofPrb) :
    Apart (la, type2Place nofPrb na true) (lb, type2Place nofPrb nb true) ↔
      na + lb ≤ nb ∨ nb + la ≤ na := by
  unfold Apart type2Place
  simp only [if_true]
  omega

theorem type2Place_down {la na lb nb : ℕ} (hapart : Apart (la, na) (lb, nb))
    (hlb : 1 ≤ lb) (ha : na + la ≤ nofPrb) (hb : nb + lb ≤ nofPrb)
    (hone : 1 ≤ na ∨ la = 1) (hone' : 1 ≤ nb ∨ lb = 1) :
    Apart (la, type2Place nofPrb na false) (lb, type2Place nofPrb nb false) := by
  unfold Apart type2Place at *
  simp only [Bool.false_eq_true, if_false] at *
  split_ifs <;> omega

theorem apart_sub_iff {la na ta lb nb tb : ℕ} (ha : ta ≤ na) (hb : tb ≤ nb) :
    Apart (la, na - ta) (lb, nb - tb) ↔ na + tb + la ≤ nb + ta ∨ nb + ta + lb ≤ na + tb := by
  unfold Apart
  dsimp only
  omega

section Keeps

variable (hpos : 0 < nofPrb) (hmax : nofPrb ≤ 110) (ha : Valid cfg nofPrb a)
  (hb : Valid cfg nofPrb b) (hla : Placed cfg nofPrb c tti a) (hlb : Placed cfg nofPrb c tti b)
  (hapart : Apart (a.run nofPrb) (b.run nofPrb))

include hpos hmax ha hb hla hlb hapart

theorem keeps_type2_iff (hta : a.freqHopFl.type = 2) (htb : b.freqHopFl.type = 2) :
    (∀ fuel ga gb, hopped c fuel cfg nofPrb tti a = .ok ga →
      hopped c fuel cfg nofPrb tti b = .ok gb →
        ∀ slot, Apart (ga.lPrb, ga.nPrbTilde slot) (gb.lPrb, gb.nPrbTilde slot)) ↔
      KeepsType2 cfg nofPrb a b := by
  rw [placed_type2_iff hpos hmax ha hta] at hla
  rw [placed_type2_iff hpos hmax hb htb] at hlb
  have hga := raUlDciToGrant_fixed hpos hmax ha (by omega)
  have hgb := raUlDciToGrant_fixed hpos hmax hb (by omega)
  obtain ⟨hlena, hfitsa⟩ := run_fits hpos hmax ha.width
  obtain ⟨hlenb, hfitsb⟩ := run_fits hpos hmax hb.width
  rw [hta] at hga
  rw [htb] at hgb
  unfold KeepsType2
  cases henabled : cfg.hoppingEnabled with
  | false =>
    rw [apart_of_hopped (fun fuel => hopped_type2_disabled c fuel tti hga henabled)
      (fun fuel => hopped_type2_disabled c fuel tti hgb henabled)]
    exact iff_of_true (fun _ => hapart) (fun h => absurd h (by decide))
  | true =>
    obtain ⟨hsb, hslotsa⟩ := hla henabled
    obtain ⟨-, hslotsb⟩ := hlb henabled
    rw [apart_of_hopped
      (fun fuel => hopped_type2_single c fuel tti hga henabled hsb hmax (by omega))
      (fun fuel => hopped_type2_single c fuel tti hgb henabled hsb hmax (by omega))]
    have hmirrored := @type2Place_mirrored nofPrb (a.run nofPrb).1 (a.run nofPrb).2
      (b.run nofPrb).1 (b.run nofPrb).2 (by omega) (by omega)
    constructor
    · rintro h - ⟨slot, hslot⟩
      have hslot' := h slot
      dsimp only at hslot'
      rw [hslot] at hslot'
      exact hmirrored.mp hslot'
    · intro h slot
      have hslota := hslotsa slot
      have hslotb := hslotsb slot
      cases hslot : hopsIn cfg slot with
      | true =>
        dsimp only
        rw [hslot]
        exact hmirrored.mpr (h rfl ⟨slot, hslot⟩)
      | false =>
        rw [hslot] at hslota hslotb
        dsimp only
        rw [hslot]
        exact type2Place_down hapart hlenb hfitsa hfitsb hslota hslotb

theorem keeps_type1_iff (hta : a.freqHopFl.type = 1) (htb : b.freqHopFl.type = 1) :
    (∀ fuel ga gb, hopped c fuel cfg nofPrb tti a = .ok ga →
      hopped c fuel cfg nofPrb tti b = .ok gb →
        ∀ slot, Apart (ga.lPrb, ga.nPrbTilde slot) (gb.lPrb, gb.nPrbTilde slot)) ↔
      KeepsType1 cfg nofPrb a b := by
  rw [placed_type1_iff hpos hmax ha hta] at hla
  rw [placed_type1_iff hpos hmax hb htb] at hlb
  obtain ⟨-, hturnsa, hga⟩ := type1_grant hpos hmax ha hta
    (show a.run nofPrb = ((a.run nofPrb).1, (a.run nofPrb).2) from rfl) rfl rfl
  obtain ⟨-, hturnsb, hgb⟩ := type1_grant hpos hmax hb htb
    (show b.run nofPrb = ((b.run nofPrb).1, (b.run nofPrb).2) from rfl) rfl rfl
  rw [if_neg fun h => h.2 (hla.1 h.1)] at hga
  rw [if_neg fun h => h.2 (hlb.1 h.1)] at hgb
  rw [apart_of_hopped (fun fuel => hopped_type1 c fuel tti hga.2)
    (fun fuel => hopped_type1 c fuel tti hgb.2)]
  have hhop := @apart_sub_iff (a.run nofPrb).1 _ _ (b.run nofPrb).1 _ _ hturnsa hturnsb
  have hmoves : (cfg.hoppingEnabled = true → ∃ slot, hopsIn cfg slot = true) ↔
      ∃ slot, type1Hops cfg slot = true := by
    unfold type1Hops
    cases cfg.hoppingEnabled with
    | true => simp
    | false => simp
  unfold KeepsType1
  dsimp only at hhop ⊢
  rw [hmoves, ← hhop]
  constructor
  · rintro h ⟨slot, hslot⟩
    have hslot' := h slot
    rw [hslot] at hslot'
    exact hslot'
  · intro h slot
    cases hslot : type1Hops cfg slot with
    | true => exact h ⟨slot, hslot⟩
    | false => exact hapart

end Keeps

theorem stayApart_iff (hpos : 0 < nofPrb) (hmax : nofPrb ≤ 110) (ha : Valid cfg nofPrb a)
    (hb : Valid cfg nofPrb b) (hla : Placed cfg nofPrb c tti a)
    (hlb : Placed cfg nofPrb c tti b) :
    StayApart cfg nofPrb c tti a b ↔ Keeps cfg nofPrb a b := by
  unfold StayApart Keeps
  refine forall_congr' fun htype => forall_congr' fun hapart => forall_congr' fun _ =>
    forall_congr' fun _ => ?_
  have htype1 (h : a.freqHopFl.type = 1) :=
    keeps_type1_iff hpos hmax ha hb hla hlb hapart h (htype ▸ h)
  have htype2 (h : a.freqHopFl.type = 2) :=
    keeps_type2_iff hpos hmax ha hb hla hlb hapart h (htype ▸ h)
  cases hfl : a.freqHopFl with
  | disabled =>
    have hga := raUlDciToGrant_fixed hpos hmax ha (by rw [hfl]; decide)
    have hgb := raUlDciToGrant_fixed hpos hmax hb (by rw [← htype, hfl]; decide)
    rw [← htype] at hgb
    rw [hfl] at hga hgb
    rw [apart_of_hopped (fun fuel => hopped_disabled c fuel tti hga)
      (fun fuel => hopped_disabled c fuel tti hgb)]
    exact iff_of_true (fun _ => hapart) trivial
  | quart => exact htype1 (by rw [hfl]; rfl)
  | quartNeg => exact htype1 (by rw [hfl]; rfl)
  | half => exact htype1 (by rw [hfl]; rfl)
  | type2 => exact htype2 (by rw [hfl]; rfl)

/-- Two grants of a subframe hop well exactly under the condition on each and on both. -/
theorem pusch_hopping_iff (hpos : 0 < nofPrb) (hmax : nofPrb ≤ 110) (ha : Valid cfg nofPrb a)
    (hb : Valid cfg nofPrb b) :
    HopsWell cfg nofPrb c tti a b ↔
      Lands cfg nofPrb a ∧ Lands cfg nofPrb b ∧ Keeps cfg nofPrb a b := by
  have hplaceda := placed_iff hpos hmax ha c tti
  have hplacedb := placed_iff hpos hmax hb c tti
  constructor
  · rintro ⟨hfirst, hsecond, hapart⟩
    exact ⟨hplaceda.mp hfirst, hplacedb.mp hsecond,
      (stayApart_iff hpos hmax ha hb hfirst hsecond).mp hapart⟩
  · rintro ⟨hla, hlb, hkeeps⟩
    have hfirst := hplaceda.mpr hla
    have hsecond := hplacedb.mpr hlb
    exact ⟨hfirst, hsecond, (stayApart_iff hpos hmax ha hb hfirst hsecond).mpr hkeeps⟩

end Pairs

/-- Half of the blocks between margins of two, for runs of three and four blocks. -/
theorem pusch_hopping_half :
    HopsWell ⟨.intraSf, 4, 1, 4, 0, true⟩ 50 (fun _ => 0) 3 ⟨105, .half⟩ ⟨160, .half⟩ := by
  have ha : Valid ⟨.intraSf, 4, 1, 4, 0, true⟩ 50 ⟨105, .half⟩ := ⟨by decide, nofun⟩
  have hb : Valid ⟨.intraSf, 4, 1, 4, 0, true⟩ 50 ⟨160, .half⟩ := ⟨by decide, nofun⟩
  refine (pusch_hopping_iff (by decide) (by decide) ha hb).mpr ⟨?_, ?_, ?_⟩
  · exact ⟨by decide, fun _ => by decide⟩
  · exact ⟨by decide, fun _ => by decide⟩
  · exact fun _ _ _ _ _ => by decide

/-- Two sub-bands: the sum has no value, whatever the sequence. A single sub-band: a run of two
blocks at the lower end of the carrier goes past the upper one. -/
theorem type2_hop_lost :
    Valid ⟨.intraSf, 4, 2, 0, 0, true⟩ 50 ⟨60, .type2⟩ ∧
      (∀ c tti, ¬ HopsWell ⟨.intraSf, 4, 2, 0, 0, true⟩ 50 c tti ⟨60, .type2⟩ ⟨60, .type2⟩) ∧
      (hopped (fun _ => 0) 0 ⟨.intraSf, 4, 1, 0, 0, true⟩ 50 0 ⟨50, .type2⟩).toOption.map
        (fun grant => (grant.lPrb, grant.nPrbTilde 0)) = some (2, 49) := by
  have hvalid : Valid ⟨.intraSf, 4, 2, 0, 0, true⟩ 50 ⟨60, .type2⟩ := ⟨by decide, nofun⟩
  refine ⟨hvalid, ?_, by decide⟩
  rintro c tti ⟨⟨fuel, grant, hok, -⟩, -, -⟩
  have hgrant := raUlDciToGrant_fixed (by decide) (by decide) hvalid (by decide)
  exact hopped_type2_ne_ok c fuel tti hgrant rfl (by decide) grant hok

end Hopping

end SrsLte
