import Mathlib.Data.Finset.Insert
import SrsLte.EventRun
import SrsLte.OrderedMap

/-!
# The DRB table of the UE

The RRC keeps the configuration of each DRB under its LCID, and adds bearers to PDCP, RLC and MAC.
A release looks for the identity of the DRB among the LCIDs, and leaves the bearers below.
-/

namespace SrsLte

open Function (update update_self update_of_ne)

namespace UeRrc

/-- `ul_specific_params` of `lc_ch_cfg_s`. -/
structure UlSpecificParams where
  prio : ℕ
  prioritisedBitRate : ℤ
  bucketSizeDur : ℤ
  lcChGroup : Option ℕ

/-- `drb_to_add_mod_s`, with any type of RLC configurations. An absent `eps_bearer_id` is 0. -/
structure DrbToAddMod (ρ : Type) where
  epsBearerId : ℕ
  drbId : ℕ
  /-- `pdcp_cfg`: for RLC UM, whether `pdcp_sn_size` is `len7bits`. -/
  pdcpCfg : Option (Option Bool)
  rlcCfg : Option ρ
  lcChId : Option ℕ
  /-- `lc_ch_cfg`, with its parameters for UL. -/
  lcChCfg : Option (Option UlSpecificParams)

/-- The fields of `pdcp_config_t` that depend on the DRB. -/
structure PdcpConfig where
  bearerId : ℕ
  snLen : ℕ

/-- The arguments of `setup_lcid`. -/
structure LogicalChannel where
  logChanGroup : ℕ
  priority : ℕ
  prioritizedBitRate : ℤ
  bucketSizeDuration : ℤ

/-- The table, and what was added below. Bearers of SRBs are left out. -/
structure DrbState (ρ : Type) where
  drbs : OrderedMap ℕ (DrbToAddMod ρ)
  drbUp : Bool
  pdcpArray : ℕ → Option PdcpConfig
  rlcArray : Finset ℕ
  macLcids : ℕ → Option LogicalChannel

variable {ρ : Type}

def DrbState.init : DrbState ρ := ⟨.empty, false, fun _ => none, ∅, fun _ => none⟩

def rbIdSrb2 : ℕ := 2

/-- The LCID that `rrc::add_drb` uses. -/
def DrbToAddMod.lcid (cfg : DrbToAddMod ρ) : ℕ := cfg.lcChId.getD (rbIdSrb2 + cfg.drbId)

/-- `make_drb_pdcp_config_t`, with the size of sequence numbers of `rrc::add_drb`. -/
def pdcpConfig (drbId : ℕ) (rlcUm : Option Bool) : PdcpConfig :=
  { bearerId := drbId, snLen := if rlcUm = some true then 7 else 12 }

def logicalChannel : Option UlSpecificParams → LogicalChannel
  | none => ⟨0, 1, -1, -1⟩
  | some ul => ⟨ul.lcChGroup.getD 0, ul.prio, ul.prioritisedBitRate, ul.bucketSizeDur⟩

/-- `pdcp::add_bearer`: "Reconfiguration not supported". -/
def addPdcpBearer (pdcp : ℕ → Option PdcpConfig) (lcid : ℕ) (cfg : PdcpConfig) :
    ℕ → Option PdcpConfig :=
  match pdcp lcid with
  | none => update pdcp lcid (some cfg)
  | some _ => pdcp

/-- `rrc::add_drb`. -/
def addDrb (s : DrbState ρ) (cfg : DrbToAddMod ρ) : DrbState ρ :=
  match cfg.pdcpCfg, cfg.rlcCfg, cfg.lcChCfg with
  | some rlcUm, some _, some ul =>
    { drbs := s.drbs.insert cfg.lcid cfg
      drbUp := true
      pdcpArray := addPdcpBearer s.pdcpArray cfg.lcid (pdcpConfig cfg.drbId rlcUm)
      rlcArray := insert cfg.lcid s.rlcArray
      macLcids := update s.macLcids cfg.lcid (some (logicalChannel ul)) }
  -- "Cannot add DRB - incomplete configuration"
  | _, _, _ => s

/-- `rrc::release_drb`. -/
def releaseDrb (s : DrbState ρ) (drbId : ℕ) : DrbState ρ :=
  if (s.drbs.find? drbId).isSome then { s with drbs := s.drbs.erase (rbIdSrb2 + drbId) } else s

/-- `rrc::get_lcid_for_eps_bearer`. -/
def getLcidForEpsBearer (s : DrbState ρ) (epsBearerId : ℕ) : ℕ :=
  match s.drbs.entries.find? fun drb => drb.2.epsBearerId = epsBearerId with
  | some drb => drb.1
  | none => 0

/-- An item of `drb_to_add_mod_list` or of `drb_to_release_list`. -/
inductive DrbItem (ρ : Type)
  | addMod (cfg : DrbToAddMod ρ)
  | release (drbId : ℕ)

def DrbState.step (s : DrbState ρ) : DrbItem ρ → DrbState ρ
  | .addMod cfg => addDrb s cfg
  | .release drbId => releaseDrb s drbId

def DrbToAddMod.Complete (cfg : DrbToAddMod ρ) : Prop :=
  cfg.pdcpCfg.isSome ∧ cfg.rlcCfg.isSome ∧ cfg.lcChCfg.isSome

instance (cfg : DrbToAddMod ρ) : Decidable cfg.Complete := inferInstanceAs (Decidable (_ ∧ _))

def addedStep (added : ℕ → Option (DrbToAddMod ρ)) : DrbItem ρ → ℕ → Option (DrbToAddMod ρ)
  | .addMod cfg => if cfg.Complete then update added cfg.drbId (some cfg) else added
  | .release drbId => update added drbId none

structure DrbRun (ρ : Type) where
  state : DrbState ρ
  added : ℕ → Option (DrbToAddMod ρ)

def DrbRun.init : DrbRun ρ := ⟨.init, fun _ => none⟩

def DrbRun.step (r : DrbRun ρ) (item : DrbItem ρ) : DrbRun ρ :=
  ⟨r.state.step item, addedStep r.added item⟩

/-- The table is that of the DRBs added, and the other layers have its bearers. -/
structure DrbRun.Consistent (r : DrbRun ρ) : Prop where
  table : ∀ lcid cfg, r.state.drbs.find? lcid = some cfg ↔
    r.added cfg.drbId = some cfg ∧ cfg.lcid = lcid
  pdcp : ∀ lcid, (r.state.pdcpArray lcid).map PdcpConfig.bearerId =
    (r.state.drbs.find? lcid).map DrbToAddMod.drbId
  rlc : ∀ lcid, lcid ∈ r.state.rlcArray ↔ (r.state.drbs.find? lcid).isSome
  eps : ∀ epsBearerId,
    (∃ cfg, r.state.drbs.find? (getLcidForEpsBearer r.state epsBearerId) = some cfg ∧
      cfg.epsBearerId = epsBearerId) ∨
    (getLcidForEpsBearer r.state epsBearerId = 0 ∧
      ∀ lcid cfg, r.state.drbs.find? lcid = some cfg → cfg.epsBearerId ≠ epsBearerId)

/-- The condition on an item: an added DRB has an LCID of its own, and keeps it. A released one
is not in the table, and the wrong one is not hit. -/
def DrbRun.Harmless (r : DrbRun ρ) : DrbItem ρ → Prop
  | .addMod cfg => cfg.Complete → ∀ lcid cfg', r.state.drbs.find? lcid = some cfg' →
      (lcid = cfg.lcid ↔ cfg'.drbId = cfg.drbId)
  | .release drbId => (∀ lcid cfg, r.state.drbs.find? lcid = some cfg → cfg.drbId ≠ drbId) ∧
      ¬ ((r.state.drbs.find? drbId).isSome ∧ (r.state.drbs.find? (rbIdSrb2 + drbId)).isSome)

section Items

variable {s : DrbState ρ} {r : DrbRun ρ} {cfg : DrbToAddMod ρ} {drbId lcid : ℕ}

theorem getLcidForEpsBearer_spec (s : DrbState ρ) (epsBearerId : ℕ) :
    (∃ cfg, s.drbs.find? (getLcidForEpsBearer s epsBearerId) = some cfg ∧
      cfg.epsBearerId = epsBearerId) ∨
    (getLcidForEpsBearer s epsBearerId = 0 ∧
      ∀ lcid cfg, s.drbs.find? lcid = some cfg → cfg.epsBearerId ≠ epsBearerId) := by
  unfold getLcidForEpsBearer
  cases hfind : s.drbs.entries.find? fun drb => drb.2.epsBearerId = epsBearerId with
  | some drb =>
    have hmem := List.mem_of_find?_eq_some hfind
    have heps := List.find?_some hfind
    exact .inl ⟨drb.2, OrderedMap.find?_eq_some_iff.mpr hmem, of_decide_eq_true heps⟩
  | none =>
    refine .inr ⟨rfl, fun lcid cfg hcfg heps => ?_⟩
    have hnone := List.find?_eq_none.mp hfind _ (OrderedMap.find?_eq_some_iff.mp hcfg)
    exact hnone (decide_eq_true heps)

theorem addDrb_incomplete (h : ¬ cfg.Complete) : addDrb s cfg = s := by
  unfold addDrb
  split
  · rename_i hpdcp hrlc hlc
    exact absurd ⟨by rw [hpdcp]; rfl, by rw [hrlc]; rfl, by rw [hlc]; rfl⟩ h
  · rfl

theorem addDrb_complete (h : cfg.Complete) :
    (addDrb s cfg).drbs = s.drbs.insert cfg.lcid cfg ∧
      (addDrb s cfg).rlcArray = insert cfg.lcid s.rlcArray ∧
        ∃ snLen, (addDrb s cfg).pdcpArray =
          addPdcpBearer s.pdcpArray cfg.lcid ⟨cfg.drbId, snLen⟩ := by
  obtain ⟨hpdcp, hrlc, hlc⟩ := h
  obtain ⟨rlcUm, hpdcp⟩ := Option.isSome_iff_exists.mp hpdcp
  obtain ⟨rlc, hrlc⟩ := Option.isSome_iff_exists.mp hrlc
  obtain ⟨ul, hlc⟩ := Option.isSome_iff_exists.mp hlc
  unfold addDrb
  rw [hpdcp, hrlc, hlc]
  exact ⟨rfl, rfl, _, rfl⟩

theorem addPdcpBearer_bearerId (pdcp : ℕ → Option PdcpConfig) (cfg : PdcpConfig) (lcid l : ℕ) :
    (addPdcpBearer pdcp lcid cfg l).map PdcpConfig.bearerId =
      if l = lcid then some (((pdcp lcid).map PdcpConfig.bearerId).getD cfg.bearerId)
      else (pdcp l).map PdcpConfig.bearerId := by
  unfold addPdcpBearer
  cases hpdcp : pdcp lcid with
  | none =>
    dsimp only
    split_ifs with hl
    · rw [hl, update_self]
      rfl
    · rw [update_of_ne hl]
  | some cfg' =>
    dsimp only
    split_ifs with hl
    · rw [hl, hpdcp]
      rfl
    · rfl

theorem releaseDrb_find? : (releaseDrb s drbId).drbs.find? lcid =
    if (s.drbs.find? drbId).isSome ∧ lcid = rbIdSrb2 + drbId then none
    else s.drbs.find? lcid := by
  unfold releaseDrb
  by_cases hfound : (s.drbs.find? drbId).isSome
  · simp only [hfound, if_true, OrderedMap.find?_erase, true_and]
  · simp only [hfound, Bool.false_eq_true, if_false, false_and]

theorem releaseDrb_bearers (s : DrbState ρ) (drbId : ℕ) :
    (releaseDrb s drbId).pdcpArray = s.pdcpArray ∧ (releaseDrb s drbId).rlcArray = s.rlcArray := by
  unfold releaseDrb
  split_ifs
  · exact ⟨rfl, rfl⟩
  · exact ⟨rfl, rfl⟩

theorem consistent_addMod_iff (hr : r.Consistent) :
    (r.step (.addMod cfg)).Consistent ↔ r.Harmless (.addMod cfg) := by
  unfold DrbRun.Harmless
  by_cases hcomplete : cfg.Complete
  swap
  · have hstep : r.step (.addMod cfg) = r := by
      simp only [DrbRun.step, DrbState.step, addedStep, addDrb_incomplete hcomplete, hcomplete,
        if_false]
    rw [hstep]
    exact ⟨fun _ h => absurd h hcomplete, fun _ => hr⟩
  obtain ⟨hdrbs, hrlc, snLen, hpdcp⟩ := addDrb_complete (s := r.state) hcomplete
  have hfind : ∀ l, (r.step (.addMod cfg)).state.drbs.find? l =
      if l = cfg.lcid then some cfg else r.state.drbs.find? l := by
    intro l
    rw [DrbRun.step, DrbState.step, hdrbs, OrderedMap.find?_insert]
  have hadded : (r.step (.addMod cfg)).added = update r.added cfg.drbId (some cfg) := by
    rw [DrbRun.step, addedStep, if_pos hcomplete]
  have hbearer : ∀ l, ((r.step (.addMod cfg)).state.pdcpArray l).map PdcpConfig.bearerId =
      if l = cfg.lcid then
        some (((r.state.drbs.find? cfg.lcid).map DrbToAddMod.drbId).getD cfg.drbId)
      else (r.state.drbs.find? l).map DrbToAddMod.drbId := by
    intro l
    rw [DrbRun.step, DrbState.step, hpdcp, addPdcpBearer_bearerId, hr.pdcp, hr.pdcp]
  constructor
  · intro h _ l cfg' hcfg'
    constructor
    · rintro rfl
      -- the bearer of PDCP is still that of the DRB before
      have hold := h.pdcp cfg.lcid
      rw [hbearer, hfind, if_pos rfl, if_pos rfl, hcfg'] at hold
      exact Option.some.inj hold
    · intro hid
      by_contra hne
      have hkept := (h.table l cfg').mp (by rw [hfind, if_neg hne, hcfg'])
      rw [hadded, hid, update_self] at hkept
      exact hne (by rw [Option.some.inj hkept.1, hkept.2])
  · intro h
    have hown := h hcomplete
    refine ⟨?_, ?_, ?_, getLcidForEpsBearer_spec _⟩
    · intro l c
      rw [hfind, hadded]
      constructor
      · split_ifs with hl
        · rintro ⟨⟩
          exact ⟨update_self _ _ _, hl.symm⟩
        · intro hc
          have hid : c.drbId ≠ cfg.drbId := fun hid => hl ((hown l c hc).mpr hid)
          rw [update_of_ne hid]
          exact (hr.table l c).mp hc
      · rintro ⟨hc, rfl⟩
        by_cases hid : c.drbId = cfg.drbId
        · rw [hid, update_self] at hc
          rw [← Option.some.inj hc, if_pos rfl]
        · rw [update_of_ne hid] at hc
          have hold := (hr.table _ c).mpr ⟨hc, rfl⟩
          rw [if_neg fun hl => hid ((hown _ c hold).mp hl), hold]
    · intro l
      rw [hbearer, hfind]
      split_ifs with hl
      · cases hc : r.state.drbs.find? cfg.lcid with
        | none => rfl
        | some c => exact congrArg some ((hown _ c hc).mp rfl)
      · rfl
    · intro l
      rw [hfind, DrbRun.step, DrbState.step, hrlc, Finset.mem_insert]
      split_ifs with hl
      · exact iff_of_true (.inl hl) rfl
      · rw [or_iff_right hl]
        exact hr.rlc l

theorem consistent_release_iff (hr : r.Consistent) :
    (r.step (.release drbId)).Consistent ↔ r.Harmless (.release drbId) := by
  have hfind : ∀ l, (r.step (.release drbId)).state.drbs.find? l =
      if (r.state.drbs.find? drbId).isSome ∧ l = rbIdSrb2 + drbId then none
      else r.state.drbs.find? l := fun _ => releaseDrb_find?
  have hadded : (r.step (.release drbId)).added = update r.added drbId none := rfl
  obtain ⟨hpdcp, hrlc⟩ := releaseDrb_bearers r.state drbId
  constructor
  · intro h
    -- RLC still has every bearer, so that the table has to
    have hkeys : ∀ l, (r.state.drbs.find? l).isSome →
        ((r.step (.release drbId)).state.drbs.find? l).isSome := by
      intro l hl
      rw [← h.rlc, DrbRun.step, DrbState.step, hrlc]
      exact (hr.rlc l).mpr hl
    have hwrong : ¬ ((r.state.drbs.find? drbId).isSome ∧
        (r.state.drbs.find? (rbIdSrb2 + drbId)).isSome) := by
      rintro ⟨hfound, hhit⟩
      have hstill := hkeys _ hhit
      rw [hfind, if_pos ⟨hfound, rfl⟩] at hstill
      exact absurd hstill (by simp)
    refine ⟨fun l cfg hcfg hid => ?_, hwrong⟩
    have hstill : (r.step (.release drbId)).state.drbs.find? l = some cfg := by
      rw [hfind, if_neg, hcfg]
      rintro ⟨hfound, rfl⟩
      exact hwrong ⟨hfound, by rw [hcfg]; rfl⟩
    have hreleased := ((h.table l cfg).mp hstill).1
    rw [hadded, hid, update_self] at hreleased
    cases hreleased
  · rintro ⟨habsent, hwrong⟩
    have hsame : ∀ l, (r.step (.release drbId)).state.drbs.find? l = r.state.drbs.find? l := by
      intro l
      rw [hfind]
      split_ifs with hhit
      · obtain ⟨hfound, rfl⟩ := hhit
        have hnone := fun hsome => hwrong ⟨hfound, hsome⟩
        exact (Option.not_isSome_iff_eq_none.mp hnone).symm
      · rfl
    refine ⟨?_, ?_, ?_, getLcidForEpsBearer_spec _⟩
    · intro l cfg
      rw [hsame, hadded]
      constructor
      · intro hcfg
        rw [update_of_ne (habsent l cfg hcfg)]
        exact (hr.table l cfg).mp hcfg
      · rintro ⟨hcfg, hl⟩
        by_cases hid : cfg.drbId = drbId
        · rw [hid, update_self] at hcfg
          cases hcfg
        · rw [update_of_ne hid] at hcfg
          exact (hr.table l cfg).mpr ⟨hcfg, hl⟩
    · intro l
      rw [hsame, DrbRun.step, DrbState.step, hpdcp]
      exact hr.pdcp l
    · intro l
      rw [hsame, DrbRun.step, DrbState.step, hrlc]
      exact hr.rlc l

theorem consistent_step_iff (r : DrbRun ρ) (item : DrbItem ρ) (hr : r.Consistent) :
    (r.step item).Consistent ↔ r.Harmless item := by
  cases item with
  | addMod cfg => exact consistent_addMod_iff hr
  | release drbId => exact consistent_release_iff hr

theorem DrbRun.consistent_init : (DrbRun.init : DrbRun ρ).Consistent := by
  refine ⟨?_, ?_, ?_, getLcidForEpsBearer_spec _⟩
  · intro lcid cfg
    exact iff_of_false (by simp [DrbRun.init, DrbState.init]) (by simp [DrbRun.init])
  · intro lcid
    rfl
  · intro lcid
    simp [DrbRun.init, DrbState.init]

end Items

/-- The table and the bearers are those of the DRBs exactly along runs of harmless items. -/
theorem drbs_consistent_iff (items : List (DrbItem ρ)) :
    (∀ pre, pre <+: items → (pre.foldl DrbRun.step DrbRun.init).Consistent) ↔
      EventRun.Along DrbRun.step DrbRun.Harmless DrbRun.init items := by
  rw [EventRun.forall_prefix_iff, and_iff_right DrbRun.consistent_init]
  exact EventRun.along_congr (fun _ _ _ h => h) consistent_step_iff DrbRun.consistent_init

def usualDrb (drbId epsBearerId : ℕ) : DrbToAddMod Unit :=
  ⟨epsBearerId, drbId, some none, some (), some (rbIdSrb2 + drbId), some none⟩

/-- The first DRB cannot be released. -/
theorem drb_not_released :
    ¬ ∀ pre, pre <+: [DrbItem.addMod (usualDrb 1 5), .release 1] →
      (pre.foldl DrbRun.step DrbRun.init).Consistent := by
  intro h
  have hrun := h _ (List.prefix_refl _)
  have hkept := ((hrun.table 3 (usualDrb 1 5)).mp rfl).1
  cases hkept

end UeRrc

end SrsLte
