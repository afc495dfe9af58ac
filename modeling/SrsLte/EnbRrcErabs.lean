import SrsLte.EnbRrcChanges
import SrsLte.EventRun

/-!
# E-RABs that are reported as set up

The eNB reports E-RABs to the MME in answer to a `SecurityModeComplete` and to an
E-RABSetupRequest. Only DRB1 ever has its ciphering enabled, so that every other E-RAB is reported
without being what the UE makes of it. The theorem says which runs report what is so.
-/

namespace SrsLte

/-- `srsue::rrc::add_drb`: the LCID and the PDCP entity of the UE for a DRB, under its keys. -/
def addDrb (drb : DrbToAddMod) (security : SecurityConfig) : ℕ × PdcpEntityBase :=
  let pdcpCfg := makeDrbPdcpConfig drb.drbId true
  let pdcpCfg := if drb.cfg.pdcpSnSize7 then { pdcpCfg with snLen := 7 } else pdcpCfg
  (drb.lcChId,
    { (PdcpEntityBase.init pdcpCfg).configSecurity security with doEncryption := true })

namespace EnbRrcUe

/-- The UE has keys from a `SecurityModeCommand`. They are the ones that the context has. -/
def Commanded (s : EnbRrcUe) : Prop :=
  ∃ caps cipher integ, .securityModeCommand caps cipher integ ∈ s.trace

def Signalled (s : EnbRrcUe) (id : ℕ) : Prop :=
  ∃ recfg drb, .rrcConnRecfg recfg ∈ s.trace ∧ drb ∈ recfg.drbToAddModList ∧ drb.epsBearerId = id

/-- The E-RAB is known with a QCI of the configuration and an IPv4 address, it has its LCID in all
the layers, and PDCP ciphers as the UE does for a DRB that was sent to it. -/
structure SetUp (env : RrcEnv) (s : EnbRrcUe) (id : ℕ) : Prop where
  known : ∃ erab, s.erabs.find? id = some erab ∧ (env.qciConfig erab.qci).isSome ∧
    erab.address.length ≤ 32
  gtpu : (s.gtpu.find? (id - 2)).isSome
  mac : (s.mac.find? (id - 2)).isSome
  rlc : (s.rlc.rlcArray.find? (id - 2)).isSome
  inTables : id - 2 < enbNRadioBearers
  keys : s.Commanded
  ciphered : ∃ recfg drb e, .rrcConnRecfg recfg ∈ s.trace ∧ drb ∈ recfg.drbToAddModList ∧
    drb.epsBearerId = id ∧ (addDrb drb s.security).1 = id - 2 ∧ s.pdcp.find? (id - 2) = some e ∧
    e.ciphering = (addDrb drb s.security).2.ciphering

/-- The E-RABs that the entries behind those of `s` report. -/
def reported (s s' : EnbRrcUe) : List ℕ :=
  (s'.trace.drop s.trace.length).flatMap RrcEntry.reports

def ReportsSetUp (env : RrcEnv) (s : EnbRrcUe) (e : Event) : Prop :=
  ∀ id ∈ s.reported (s.step env e), (s.step env e).SetUp env id

def drb1Ciphering (s : EnbRrcUe) : Bool × CipheringAlgorithm × Bytes × ℕ :=
  (true, s.security.cipherAlgo, s.security.kUpEnc, 0)

def newDrb1Recfg (items : List (ErabToBeSetup × Bytes)) (cfg : QciConfig) : RrcConnRecfg :=
  ⟨false, List.replicate items.length (drbOf 1 cfg),
    List.replicate items.length ((items.getLast?.map Prod.snd).getD [])⟩

/-- When a step may report: a `SecurityModeComplete` with E-RAB 5 alone, whose DRB can be signalled
and was not made by an E-RABSetupRequest, and an E-RABSetupRequest for E-RAB 5 alone, when its DRB
is ciphered already. -/
def Reportable (env : RrcEnv) (s : EnbRrcUe) : Event → Prop
  | .ulDcch srb2 isProtected .securityModeComplete =>
    s.pdcpPasses (if srb2 then 2 else 1) isProtected = true →
      ∀ entry ∈ s.erabs.entries, entry.1 = 5 ∧ entry.2.id = 5 ∧ s.Commanded ∧
        (∃ cfg, env.qciConfig entry.2.qci = some cfg ∧
          (env.packs (s.drb1Recfg cfg) ∨ s.Signalled 5)) ∧
        ∀ e, s.pdcp.find? 3 = some e → e.securityBearer = 0
  | .setupUeErabs items =>
    (∀ item ∈ items, item.1.transportLayerAddress.length ≤ 32) →
      ∀ item ∈ items, item.1.erabId = 5 ∧ s.Commanded ∧
        (∃ cfg, (lastQci items 5).bind env.qciConfig = some cfg ∧
          (env.packs (newDrb1Recfg items cfg) ∨ s.Signalled 5)) ∧
        ∃ e, s.pdcp.find? 3 = some e ∧ e.ciphering = s.drb1Ciphering
  | _ => True

/-- A data bearer is a DRB, and no one but DRB1 is ciphered. An E-RAB that is not an empty one has
its identity and a tunnel. -/
structure Inv (s : EnbRrcUe) : Prop where
  entities : ∀ lcid e, s.pdcp.find? lcid = some e → 3 ≤ lcid →
    e.isDrb = true ∧ (3 < lcid → e.doEncryption = false)
  erabs : ∀ id erab, s.erabs.find? id = some erab → 5 ≤ id ∧ (erab.id = 0 ∨
    erab.id = id ∧ erab.address.length ≤ 32 ∧
      (id - 2 < enbNRadioBearers → (s.gtpu.find? (id - 2)).isSome))
  messages : ∀ recfg, .rrcConnRecfg recfg ∈ s.trace →
    ∀ drb ∈ recfg.drbToAddModList, ∃ drbId cfg, drb = drbOf drbId cfg

variable {env : RrcEnv} {s s' : EnbRrcUe}

theorem Inv.keep (h : s.Inv) (hpdcp : s'.pdcp = s.pdcp) (herabs : s'.erabs = s.erabs)
    (hgtpu : s'.gtpu = s.gtpu)
    (htrace : ∀ recfg, .rrcConnRecfg recfg ∈ s'.trace → .rrcConnRecfg recfg ∈ s.trace) :
    s'.Inv where
  entities := hpdcp ▸ h.entities
  erabs := by
    rw [herabs, hgtpu]
    exact h.erabs
  messages recfg hrecfg := h.messages recfg (htrace recfg hrecfg)

variable {ids : List ℕ} {id : ℕ} {cfg : QciConfig} {items : List (ErabToBeSetup × Bytes)}

theorem Inv.changes (h : s.Inv) (hc : Changes s ids s') : s'.Inv := by
  induction hc with
  | refl s => exact h
  | trans _ _ ih ih' => exact ih' (ih h)
  | fields _ hpdcp herabs hgtpu htrace => exact h.keep hpdcp herabs hgtpu fun _ => htrace ▸ id
  | note s entry hplain =>
    refine ⟨h.entities, h.erabs, fun recfg hrecfg => ?_⟩
    rcases List.mem_append.mp hrecfg with hold | hnew
    · exact h.messages recfg hold
    · have hrecfgPlain : RrcEntry.Plain (.rrcConnRecfg recfg) :=
        List.mem_singleton.mp hnew ▸ hplain
      exact hrecfgPlain
  | register s =>
    refine h.keep rfl rfl rfl fun recfg hrecfg => ?_
    exact (List.mem_append.mp hrecfg).resolve_right (by simp)
  | addBearer s lcid cfg hdrb =>
    refine ⟨fun k e hfind hk => ?_, h.erabs, fun recfg hrecfg => ?_⟩
    · rw [pdcpAddBearer, OrderedMap.find?_emplace] at hfind
      split_ifs at hfind with hlcid
      · subst hlcid
        cases hold : s.pdcp.find? k with
        | some e' =>
          rw [hold, Option.getD_some] at hfind
          exact Option.some.inj hfind ▸ h.entities k e' hold hk
        | none =>
          rw [hold, Option.getD_none] at hfind
          obtain rfl := Option.some.inj hfind
          exact ⟨decide_eq_true (hdrb hk), fun _ => rfl⟩
      · exact h.entities k e hfind hk
    · exact h.messages recfg ((List.mem_append.mp hrecfg).resolve_right (by simp))
  | change s hle hcfg =>
    rename_i lcid f
    refine ⟨fun k e hfind hk => ?_, h.erabs, h.messages⟩
    rw [PdcpBearers.find?_change] at hfind
    obtain ⟨e', hold, rfl⟩ := Option.map_eq_some_iff.mp hfind
    have hentity := h.entities k e' hold hk
    split_ifs with hlcid
    · refine ⟨?_, fun hlt => absurd hlt (by omega)⟩
      unfold PdcpEntityBase.isDrb
      rw [hcfg]
      exact hentity.1
    · exact hentity
  | emptyErab s hid =>
    rename_i id
    refine ⟨h.entities, fun k erab hfind => ?_, h.messages⟩
    rw [OrderedMap.find?_emplace] at hfind
    split_ifs at hfind with hk
    · subst hk
      cases hold : s.erabs.find? k with
      | some erab' =>
        rw [hold, Option.getD_some] at hfind
        exact Option.some.inj hfind ▸ h.erabs k erab' hold
      | none =>
        rw [hold, Option.getD_none] at hfind
        exact ⟨hid, Or.inl (Option.some.inj hfind ▸ rfl)⟩
    · exact h.erabs k erab hfind
  | setupErab s hshort =>
    rename_i item nasPdu
    rw [setupErab_eq]
    refine ⟨h.entities, fun k erab hfind => ?_, h.messages⟩
    rw [OrderedMap.find?_insert] at hfind
    dsimp only
    split_ifs at hfind with hk
    · subst hk
      obtain rfl := Option.some.inj hfind
      refine ⟨item.valid.1, Or.inr ⟨rfl, hshort, fun hlt => ?_⟩⟩
      rw [if_pos hlt, OrderedMap.find?_insert, if_pos rfl]
      rfl
    · obtain ⟨hge, hid⟩ := h.erabs k erab hfind
      refine ⟨hge, hid.imp_right fun h => ⟨h.1, h.2.1, fun hlt => ?_⟩⟩
      split_ifs
      · rw [OrderedMap.find?_insert]
        split_ifs
        · rfl
        · exact h.2.2 hlt
      · exact h.2.2 hlt
  | releaseErabs s =>
    exact ⟨h.entities, fun _ _ hfind => absurd hfind.symm (Option.some_ne_none _), h.messages⟩

theorem inv_init (rnti : ℕ) (caps : UeSecurityCapabilities) (keys : SecurityConfig) :
    (init rnti caps keys).Inv where
  entities _ _ hfind := nomatch hfind
  erabs _ _ hfind := nomatch hfind
  messages _ hrecfg := nomatch hrecfg

theorem ciphering_addDrb (drbId : ℕ) (cfg : QciConfig) (security : SecurityConfig) :
    (addDrb (drbOf drbId cfg) security).2.ciphering =
      (true, security.cipherAlgo, security.kUpEnc, (drbId + 255) % 256) := by
  unfold addDrb drbOf
  dsimp only
  cases cfg.pdcpSnSize7 <;> rfl

theorem SetUp.id_le (h : s.SetUp env id) (hs : s.Inv) : id ≤ 5 := by
  obtain ⟨recfg, drb, e, hrecfg, hdrb, -, -, hfind, hciphering⟩ := h.ciphered
  obtain ⟨drbId, cfg, rfl⟩ := hs.messages recfg hrecfg drb hdrb
  rw [ciphering_addDrb] at hciphering
  have hencrypted : e.doEncryption = true := congrArg Prod.fst hciphering
  by_contra hgt
  have hplain := (hs.entities (id - 2) e hfind (by omega)).2 (by omega)
  exact absurd (hencrypted.symm.trans hplain) (by simp)

theorem SetUp.id_ge (h : s.SetUp env id) (hs : s.Inv) : 5 ≤ id :=
  have ⟨erab, hfind, _⟩ := h.known
  (hs.erabs id erab hfind).1

theorem ciphered_iff (hs : s.Inv) :
    (∃ recfg drb e, .rrcConnRecfg recfg ∈ s.trace ∧ drb ∈ recfg.drbToAddModList ∧
      drb.epsBearerId = 5 ∧ (addDrb drb s.security).1 = 3 ∧ s.pdcp.find? 3 = some e ∧
      e.ciphering = (addDrb drb s.security).2.ciphering) ↔
    s.Signalled 5 ∧ ∃ e, s.pdcp.find? 3 = some e ∧ e.ciphering = s.drb1Ciphering := by
  have hdrb1 : ∀ recfg, .rrcConnRecfg recfg ∈ s.trace → ∀ drb ∈ recfg.drbToAddModList,
      drb.epsBearerId = 5 → (addDrb drb s.security).1 = 3 ∧
        (addDrb drb s.security).2.ciphering = s.drb1Ciphering := by
    intro recfg hrecfg drb hdrb heps
    obtain ⟨drbId, cfg, rfl⟩ := hs.messages recfg hrecfg drb hdrb
    have hid : drbId = 1 := by
      have heq : drbId + 4 = 5 := heps
      omega
    subst hid
    exact ⟨rfl, ciphering_addDrb 1 cfg s.security⟩
  constructor
  · rintro ⟨recfg, drb, e, hrecfg, hdrb, heps, -, hfind, hciphering⟩
    exact ⟨⟨recfg, drb, hrecfg, hdrb, heps⟩, e, hfind,
      hciphering.trans (hdrb1 recfg hrecfg drb hdrb heps).2⟩
  · rintro ⟨⟨recfg, drb, hrecfg, hdrb, heps⟩, e, hfind, hciphering⟩
    obtain ⟨hlcid, haddDrb⟩ := hdrb1 recfg hrecfg drb hdrb heps
    exact ⟨recfg, drb, e, hrecfg, hdrb, heps, hlcid, hfind, hciphering.trans haddDrb.symm⟩

def secured (s : EnbRrcUe) (e : PdcpEntityBase) : PdcpEntityBase :=
  { e.configSecurity s.security with doIntegrity := true, doEncryption := true }

theorem find?_drb1Pdcp (cfg : QciConfig) : ∃ e₀ : PdcpEntityBase, e₀.isDrb = true ∧
    e₀.securityBearer = 0 ∧
      (s.drb1Pdcp cfg).find? 3 = some (s.secured ((s.pdcp.find? 3).getD e₀)) := by
  refine ⟨.init (if cfg.pdcpSnSize7 then { makeDrbPdcpConfig 1 false with snLen := 7 }
    else makeDrbPdcpConfig 1 false), ?_, ?_, ?_⟩
  · cases cfg.pdcpSnSize7 <;> rfl
  · cases cfg.pdcpSnSize7 <;> rfl
  · simp only [drb1Pdcp, PdcpBearers.find?_change, OrderedMap.find?_emplace, Option.map_some,
      if_true, secured]
    cases s.pdcp.find? 3 <;> rfl

theorem ciphering_secured {e : PdcpEntityBase} (hdrb : e.isDrb = true) :
    (s.secured e).ciphering = s.drb1Ciphering ↔ e.securityBearer = 0 := by
  have hsrb : e.isSrb = false := by
    unfold PdcpEntityBase.isDrb at hdrb
    unfold PdcpEntityBase.isSrb
    rw [of_decide_eq_true hdrb]
    rfl
  have hkey : (s.secured e).kEnc = s.security.kUpEnc := by
    unfold PdcpEntityBase.kEnc
    exact if_neg (by
      intro hsrb'
      exact absurd (hsrb.symm.trans hsrb') (by simp))
  unfold PdcpEntityBase.ciphering drb1Ciphering
  rw [hkey]
  constructor
  · intro h
    exact congrArg (fun c => c.2.2.2) h
  · intro h
    exact congrArg (fun bearer => (true, s.security.cipherAlgo, s.security.kUpEnc, bearer)) h

theorem parseUlDcch_complete_of_none (h : env.qciConfig (s.erabQci 5) = none) :
    ∃ trace pdcp, s.parseUlDcch env .securityModeComplete =
      { s with
        state := .waitForConReconfComplete
        erabs := s.erabs.emplace 5 ⟨0, 0, [], 0, 0⟩
        pdcp := pdcp
        trace := trace } := by
  have hreconf := sendConnectionReconf_of_none env
    s.handleSecurityModeComplete.notifyS1apUeCtxtSetupComplete h
  unfold parseUlDcch
  dsimp only
  rw [hreconf]
  exact ⟨_, _, rfl⟩

theorem parseUlDcch_complete_of_some (h : env.qciConfig (s.erabQci 5) = some cfg) :
    ∃ erabIds, s.parseUlDcch env .securityModeComplete =
      { s with
        state := .waitForConReconfComplete
        erabs := s.erabs.emplace 5 ⟨0, 0, [], 0, 0⟩
        mac := (s.mac.insert 2 (some 0)).insert 3 (some cfg.lcChGroup)
        rlc := (s.rlc.addBearer 2 ⟨.lte, .am⟩).addBearer 3 cfg.rlcCfg
        pdcp := (s.pdcpEnableEncryption 1).drb1Pdcp cfg
        trace := s.trace ++ [.securityModeComplete] ++ [.ueCtxtSetupComplete erabIds] ++
          [.bearer 2] ++ [.bearer 3] ++
          if env.packs (s.drb1Recfg cfg) then [.rrcConnRecfg (s.drb1Recfg cfg)] else [] } := by
  have hreconf := sendConnectionReconf_of_some env
    s.handleSecurityModeComplete.notifyS1apUeCtxtSetupComplete h
  unfold parseUlDcch
  dsimp only
  rw [hreconf]
  exact ⟨_, rfl⟩

theorem commanded_of_mem (h : ∀ caps cipher integ,
    .securityModeCommand caps cipher integ ∈ s'.trace ↔
      .securityModeCommand caps cipher integ ∈ s.trace) : s'.Commanded ↔ s.Commanded := by
  unfold Commanded
  simp only [h]

theorem signalled_of_mem (message : RrcConnRecfg) {sent : Prop}
    (h : ∀ recfg, .rrcConnRecfg recfg ∈ s'.trace ↔
      .rrcConnRecfg recfg ∈ s.trace ∨ sent ∧ recfg = message)
    (hdrb : ∃ drb ∈ message.drbToAddModList, drb.epsBearerId = id) :
    s'.Signalled id ↔ sent ∨ s.Signalled id := by
  unfold Signalled
  simp only [h]
  constructor
  · rintro ⟨recfg, drb, hold | ⟨hsent, rfl⟩, hmem, heps⟩
    · exact Or.inr ⟨recfg, drb, hold, hmem, heps⟩
    · exact Or.inl hsent
  · rintro (hsent | ⟨recfg, drb, hold, hmem, heps⟩)
    · obtain ⟨drb, hmem, heps⟩ := hdrb
      exact ⟨message, drb, Or.inr ⟨hsent, rfl⟩, hmem, heps⟩
    · exact ⟨recfg, drb, Or.inl hold, hmem, heps⟩

theorem isSome_addBearer {r : RlcBearers} {lcid l : ℕ} {cnfg : RlcConfig}
    (hsupported : cnfg.supported = true) : ((r.addBearer lcid cnfg).rlcArray.find? l).isSome ↔
      l = lcid ∨ (r.rlcArray.find? l).isSome := by
  unfold RlcBearers.addBearer
  rw [if_pos hsupported]
  dsimp only
  rw [OrderedMap.find?_emplace]
  split_ifs with h <;> simp [h]

theorem setUp_iff_of_channels (hs : s.Inv) (hknown : ∃ erab, s.erabs.find? 5 = some erab ∧
      (env.qciConfig erab.qci).isSome ∧ erab.address.length ≤ 32)
    (hgtpu : (s.gtpu.find? 3).isSome) (hmac : (s.mac.find? 3).isSome)
    (hrlc : (s.rlc.rlcArray.find? 3).isSome) :
    s.SetUp env 5 ↔ s.Commanded ∧ s.Signalled 5 ∧
      ∃ e, s.pdcp.find? 3 = some e ∧ e.ciphering = s.drb1Ciphering := by
  rw [← ciphered_iff hs]
  constructor
  · exact fun h => ⟨h.keys, h.ciphered⟩
  · rintro ⟨hkeys, hciphered⟩
    exact
      { known := hknown
        gtpu := hgtpu
        mac := hmac
        rlc := hrlc
        inTables := by decide
        keys := hkeys
        ciphered := hciphered }

theorem setUp_complete_iff (hs : s.Inv) {erab : Erab} (hfind : s.erabs.find? 5 = some erab)
    (hid : erab.id = 5) :
    (s.parseUlDcch env .securityModeComplete).SetUp env 5 ↔ s.Commanded ∧
      (∃ cfg, env.qciConfig erab.qci = some cfg ∧
        (env.packs (s.drb1Recfg cfg) ∨ s.Signalled 5)) ∧
      ∀ e, s.pdcp.find? 3 = some e → e.securityBearer = 0 := by
  have hs' : (s.parseUlDcch env .securityModeComplete).Inv := hs.changes (changes_parseUlDcch _)
  have hqci : s.erabQci 5 = erab.qci := by rw [erabQci, hfind]; rfl
  have hkept : (s.erabs.emplace 5 ⟨0, 0, [], 0, 0⟩).find? 5 = some erab := by
    rw [OrderedMap.find?_emplace, if_pos rfl, hfind]
    rfl
  cases hcfg : env.qciConfig erab.qci with
  | none =>
    obtain ⟨trace, pdcp, heq⟩ := parseUlDcch_complete_of_none (s := s) (by rw [hqci, hcfg])
    rw [heq]
    refine iff_of_false (fun h => ?_) (fun h => by simp at h)
    obtain ⟨erab', hfind', hsome, -⟩ := h.known
    obtain rfl := Option.some.inj (hkept.symm.trans hfind')
    rw [hcfg] at hsome
    exact absurd hsome (by simp)
  | some cfg =>
    obtain ⟨erabIds, heq⟩ := parseUlDcch_complete_of_some (s := s) (by rw [hqci, hcfg])
    obtain ⟨e₀, hdrb₀, hbearer₀, hdrb1⟩ := find?_drb1Pdcp (s := s.pdcpEnableEncryption 1) cfg
    have hold : (s.pdcpEnableEncryption 1).pdcp.find? 3 = s.pdcp.find? 3 := by
      rw [pdcpEnableEncryption, PdcpBearers.find?_change]
      cases s.pdcp.find? 3 <;> rfl
    rw [hold] at hdrb1
    obtain ⟨hshort, hgtpu⟩ : erab.address.length ≤ 32 ∧ (s.gtpu.find? 3).isSome := by
      obtain ⟨-, hzero | ⟨-, hshort, htunnel⟩⟩ := hs.erabs 5 erab hfind
      · omega
      · exact ⟨hshort, htunnel (by decide)⟩
    have hcommanded : (s.parseUlDcch env .securityModeComplete).Commanded ↔ s.Commanded := by
      apply commanded_of_mem
      intro caps cipher integ
      rw [heq]
      split_ifs <;> simp
    have hsignalled : (s.parseUlDcch env .securityModeComplete).Signalled 5 ↔
        env.packs (s.drb1Recfg cfg) = true ∨ s.Signalled 5 := by
      refine signalled_of_mem (s.drb1Recfg cfg) (fun recfg => ?_)
        ⟨drbOf 1 cfg, List.mem_cons_self, rfl⟩
      rw [heq]
      split_ifs with hpacks <;> simp [hpacks]
    have hdrb : ((s.pdcp.find? 3).getD e₀).isDrb = true := by
      cases hentity : s.pdcp.find? 3 with
      | none => exact hdrb₀
      | some e => exact (hs.entities 3 e hentity (le_refl 3)).1
    have hbearer : ((s.pdcp.find? 3).getD e₀).securityBearer = 0 ↔
        ∀ e, s.pdcp.find? 3 = some e → e.securityBearer = 0 := by
      cases s.pdcp.find? 3 with
      | none => simpa using hbearer₀
      | some e => simp
    have hentity : (∃ e, (s.parseUlDcch env .securityModeComplete).pdcp.find? 3 = some e ∧
        e.ciphering = (s.parseUlDcch env .securityModeComplete).drb1Ciphering) ↔
          ∀ e, s.pdcp.find? 3 = some e → e.securityBearer = 0 := by
      rw [heq]
      change (∃ e, ((s.pdcpEnableEncryption 1).drb1Pdcp cfg).find? 3 = some e ∧
        e.ciphering = (s.pdcpEnableEncryption 1).drb1Ciphering) ↔ _
      rw [hdrb1, ← hbearer, ← ciphering_secured hdrb]
      exact (exists_congr fun e => and_congr_left' (by rw [Option.some.injEq])).trans
        exists_eq_left'
    have hchannels := @setUp_iff_of_channels env _ hs'
      (by rw [heq]; exact ⟨erab, hkept, by rw [hcfg]; rfl, hshort⟩) (by rw [heq]; exact hgtpu)
      (by
        rw [heq]
        dsimp only
        rw [OrderedMap.find?_insert]
        rfl)
      (by rw [heq]; exact (isSome_addBearer cfg.supported).mpr (Or.inl rfl))
    rw [hchannels, hcommanded, hsignalled, hentity]
    simp only [Option.some.injEq, exists_eq_left']

theorem reports_complete_iff (hs : s.Inv) :
    (∀ id ∈ s.erabs.entries.map fun erab => erab.2.id,
      (s.parseUlDcch env .securityModeComplete).SetUp env id) ↔
    ∀ entry ∈ s.erabs.entries, entry.1 = 5 ∧ entry.2.id = 5 ∧ s.Commanded ∧
      (∃ cfg, env.qciConfig entry.2.qci = some cfg ∧
        (env.packs (s.drb1Recfg cfg) ∨ s.Signalled 5)) ∧
      ∀ e, s.pdcp.find? 3 = some e → e.securityBearer = 0 := by
  have hs' : (s.parseUlDcch env .securityModeComplete).Inv := hs.changes (changes_parseUlDcch _)
  rw [List.forall_mem_map]
  refine forall₂_congr fun entry hentry => ?_
  have hfind : s.erabs.find? entry.1 = some entry.2 := OrderedMap.find?_eq_some_iff.mpr hentry
  constructor
  · intro h
    have hid : entry.2.id = 5 := le_antisymm (h.id_le hs') (h.id_ge hs')
    have hkey : entry.1 = 5 := by
      rcases (hs.erabs _ _ hfind).2 with hzero | ⟨heq, -⟩ <;> omega
    rw [hid] at h
    exact ⟨hkey, hid, (setUp_complete_iff hs (hkey ▸ hfind) hid).mp h⟩
  · rintro ⟨hkey, hid, h⟩
    rw [hid]
    exact (setUp_complete_iff hs (hkey ▸ hfind) hid).mpr h

/-- What the loop over new bearers leaves: entities, E-RABs and channels that were there stay, and
a new entity is not ciphered. -/
structure NewBearers (s s' : EnbRrcUe) : Prop where
  pdcp : ∀ l, s'.pdcp.find? l = s.pdcp.find? l ∨ s.pdcp.find? l = none ∧
    ∀ e, s'.pdcp.find? l = some e → e.doEncryption = false
  erabs : ∀ id erab, s.erabs.find? id = some erab → s'.erabs.find? id = some erab
  security : s'.security = s.security
  gtpu : s'.gtpu = s.gtpu
  mac : ∀ l, (s.mac.find? l).isSome → (s'.mac.find? l).isSome
  rlc : ∀ l, (s.rlc.rlcArray.find? l).isSome → (s'.rlc.rlcArray.find? l).isSome
  trace : ∃ lcids : List ℕ, s'.trace = s.trace ++ lcids.map RrcEntry.bearer

theorem NewBearers.refl (s : EnbRrcUe) : NewBearers s s :=
  ⟨fun _ => Or.inl rfl, fun _ _ => id, rfl, rfl, fun _ => id, fun _ => id,
    [], (List.append_nil _).symm⟩

theorem NewBearers.trans {s'' : EnbRrcUe} (h : NewBearers s s') (h' : NewBearers s' s'') :
    NewBearers s s'' where
  pdcp l := by
    rcases h'.pdcp l with heq' | ⟨hnone', hplain'⟩ <;> rcases h.pdcp l with heq | ⟨hnone, hplain⟩
    · exact Or.inl (heq'.trans heq)
    · exact Or.inr ⟨hnone, heq' ▸ hplain⟩
    · exact Or.inr ⟨heq ▸ hnone', hplain'⟩
    · exact Or.inr ⟨hnone, hplain'⟩
  erabs id erab hfind := h'.erabs id erab (h.erabs id erab hfind)
  security := h'.security.trans h.security
  gtpu := h'.gtpu.trans h.gtpu
  mac l hl := h'.mac l (h.mac l hl)
  rlc l hl := h'.rlc l (h.rlc l hl)
  trace := by
    obtain ⟨lcids, heq⟩ := h.trace
    obtain ⟨lcids', heq'⟩ := h'.trace
    exact ⟨lcids ++ lcids', by rw [heq', heq, List.map_append, List.append_assoc]⟩

theorem newBearers_emptyErab (s : EnbRrcUe) (id : ℕ) :
    NewBearers s { s with erabs := s.erabs.emplace id ⟨0, 0, [], 0, 0⟩ } := by
  refine { NewBearers.refl s with erabs := fun k erab hfind => ?_ }
  rw [OrderedMap.find?_emplace]
  split_ifs with hk
  · rw [← hk, hfind]
    rfl
  · exact hfind

theorem newBearers_withBearer (s : EnbRrcUe) (id : ℕ) (cfg : QciConfig) :
    NewBearers s (s.withBearer id cfg) where
  pdcp l := by
    rw [withBearer, OrderedMap.find?_emplace]
    split_ifs with hl
    · subst hl
      cases s.pdcp.find? (id - 2) with
      | some e => exact Or.inl rfl
      | none => exact Or.inr ⟨rfl, fun e he => Option.some.inj he ▸ rfl⟩
    · exact Or.inl rfl
  erabs := (newBearers_emptyErab s id).erabs
  security := rfl
  gtpu := rfl
  mac l hl := by
    rw [withBearer]
    dsimp only
    split_ifs
    · rw [OrderedMap.find?_insert]
      split_ifs
      · rfl
      · exact hl
    · exact hl
  rlc l hl := (isSome_addBearer cfg.supported).mpr (Or.inr hl)
  trace := ⟨[id - 2], rfl⟩

theorem newBearers_addNewBearers (env : RrcEnv) (s : EnbRrcUe) (hids : ∀ id ∈ ids, 5 ≤ id)
    (drbs : List DrbToAddMod) (nas : List Bytes) :
    NewBearers s (s.addNewBearers env drbs nas ids).1 := by
  induction ids generalizing s drbs nas with
  | nil => exact .refl s
  | cons id ids ih =>
    obtain ⟨hid, hids⟩ := List.forall_mem_cons.mp hids
    cases hqci : env.qciConfig (s.erabQci id) with
    | none =>
      rw [addNewBearers_cons_of_none env s hid hqci]
      exact newBearers_emptyErab s id
    | some cfg =>
      rw [addNewBearers_cons_of_some env s hid hqci]
      exact (newBearers_withBearer s id cfg).trans
        (ih _ hids _ _)

theorem erabQci_withBearer (cfg : QciConfig) : (s.withBearer 5 cfg).erabQci 5 = s.erabQci 5 := by
  unfold erabQci withBearer
  dsimp only
  rw [OrderedMap.find?_emplace, if_pos rfl]
  cases s.erabs.find? 5 <;> rfl

theorem addNewBearers_replicate (h : env.qciConfig (s.erabQci 5) = some cfg)
    (n : ℕ) (drbs : List DrbToAddMod) (nas : List Bytes) :
    (s.addNewBearers env drbs nas (List.replicate n 5)).2 =
      (drbs ++ List.replicate n (drbOf 1 cfg),
        nas ++ (if s.nasPending then List.replicate n s.erabInfo else []), true) := by
  induction n generalizing s drbs nas with
  | zero => simp [addNewBearers]
  | succ n ih =>
    rw [List.replicate_succ, addNewBearers_cons_of_some env s (le_refl 5) h,
      ih (by rw [erabQci_withBearer, h])]
    have hpending : (s.withBearer 5 cfg).nasPending = s.nasPending := rfl
    have hinfo : (s.withBearer 5 cfg).erabInfo = s.erabInfo := rfl
    rw [hpending, hinfo]
    cases s.nasPending <;> simp [List.replicate_succ]

theorem channel_addNewBearers (h : env.qciConfig (s.erabQci 5) = some cfg)
    (n : ℕ) : ((s.addNewBearers env [] [] (List.replicate (n + 1) 5)).1.mac.find? 3).isSome ∧
      ((s.addNewBearers env [] [] (List.replicate (n + 1) 5)).1.rlc.rlcArray.find? 3).isSome := by
  rw [List.replicate_succ, addNewBearers_cons_of_some env s (le_refl 5) h]
  have hrest := newBearers_addNewBearers env (s.withBearer 5 cfg)
    (fun id (hid : id ∈ List.replicate n 5) => (List.eq_of_mem_replicate hid).ge)
    ([] ++ [drbOf (5 - 2 - 2) cfg]) (if s.nasPending then [] ++ [s.erabInfo] else [])
  refine ⟨hrest.mac 3 ?_, hrest.rlc 3 ((isSome_addBearer cfg.supported).mpr (Or.inl rfl))⟩
  rw [withBearer]
  dsimp only
  rw [if_pos (by decide), OrderedMap.find?_insert]
  rfl

theorem nas_setupErabList (items : List (ErabToBeSetup × Bytes)) (item : ErabToBeSetup × Bytes)
    (h : ∀ i ∈ items ++ [item], i.1.transportLayerAddress.length ≤ 32) :
    (s.setupErabList (bearerItems (items ++ [item]))).1.nasPending = true ∧
      (s.setupErabList (bearerItems (items ++ [item]))).1.erabInfo = item.2 := by
  induction items generalizing s with
  | nil =>
    have hshort := h item (List.mem_append_right _ List.mem_cons_self)
    simp only [bearerItems, List.nil_append, List.map_cons, List.map_nil, setupErabList]
    rw [if_neg (by omega), setupErab_eq]
    exact ⟨rfl, rfl⟩
  | cons first items ih =>
    have hshort := h first List.mem_cons_self
    have hrest := ih (s := s.setupErab first.1 (some first.2))
      (List.forall_mem_cons.mp h).2
    simp only [bearerItems, List.cons_append, List.map_cons, setupErabList] at hrest ⊢
    rw [if_neg (by omega)]
    exact hrest

theorem find?_five_setupErabList (hshort : ∀ item ∈ items, item.1.transportLayerAddress.length ≤ 32)
    {item : ErabToBeSetup × Bytes} (hmem : item ∈ items) (hid : item.1.erabId = 5) :
    ∃ erab, (s.setupErabList (bearerItems items)).1.erabs.find? 5 = some erab ∧
      lastQci items 5 = some erab.qci ∧ erab.id = 5 ∧ erab.address.length ≤ 32 := by
  have hbearer : ∀ item ∈ bearerItems items, item.1.transportLayerAddress.length ≤ 32 := by
    rw [bearerItems, List.forall_mem_map]
    exact hshort
  have hlast := find?_setupErabList s hbearer 5
  have hfilter : (item.1, some item.2) ∈
      (bearerItems items).filter fun item => item.1.erabId = 5 :=
    List.mem_filter.mpr ⟨List.mem_map_of_mem hmem, decide_eq_true hid⟩
  have hsome := List.getLast?_eq_some_getLast (List.ne_nil_of_mem hfilter)
  have hin := (List.mem_filter.mp (List.getLast_mem (List.ne_nil_of_mem hfilter))).1
  rw [hsome, Option.map_some, Option.some_or] at hlast
  refine ⟨_, hlast, ?_, rfl, hbearer _ hin⟩
  rw [← lastQci_bearerItems, lastQci, hsome]
  rfl

theorem sendConnectionReconfNewBearer_of_snd {drbs : List DrbToAddMod}
    {nas : List Bytes} (h : (s.addNewBearers env [] [] ids).2 = (drbs, nas, true)) :
    s.sendConnectionReconfNewBearer env ids =
      (s.addNewBearers env [] [] ids).1.sendRrcConnRecfg env ⟨false, drbs, nas⟩ := by
  unfold sendConnectionReconfNewBearer
  rcases hadd : s.addNewBearers env [] [] ids with ⟨s', lists⟩
  rw [hadd] at h
  dsimp only at h
  subst h
  rfl

def reportedErabs (s : EnbRrcUe) (items : List (ErabToBeSetup × Bytes)) : EnbRrcUe :=
  (s.setupErabList (bearerItems items)).1.note
    (.ueErabSetupComplete (items.map fun item => item.1.erabId))

theorem reportedErabs_frame (items : List (ErabToBeSetup × Bytes)) :
    (s.reportedErabs items).security = s.security ∧ (s.reportedErabs items).pdcp = s.pdcp ∧
      (s.reportedErabs items).trace =
        s.trace ++ [.ueErabSetupComplete (items.map fun item => item.1.erabId)] := by
  obtain ⟨_, _, _, _, heq⟩ := s.setupErabList_frame (bearerItems items)
  unfold reportedErabs note
  rw [heq]
  exact ⟨rfl, rfl, rfl⟩

theorem find?_setupErabsBearer
    (hshort : ∀ item ∈ items, item.1.transportLayerAddress.length ≤ 32) {erab : Erab}
    (h : (s.reportedErabs items).erabs.find? id = some erab) :
    (s.setupErabsBearer env items).erabs.find? id = some erab := by
  have hids : ∀ id ∈ items.map fun item => item.1.erabId, 5 ≤ id := by
    rw [List.forall_mem_map]
    exact fun item _ => item.1.valid.1
  have hnew := (newBearers_addNewBearers env (s.reportedErabs items) hids [] []).erabs id erab h
  unfold reportedErabs at hnew
  rw [setupErabsBearer_of_short env s hshort]
  unfold sendConnectionReconfNewBearer
  dsimp only
  split
  · rename_i hadd
    rw [hadd] at hnew
    exact hnew
  · rename_i hadd
    rw [hadd] at hnew
    rw [sendRrcConnRecfg_eq]
    exact hnew

theorem setupErabsBearer_five (hne : items ≠ [])
    (hshort : ∀ item ∈ items, item.1.transportLayerAddress.length ≤ 32)
    (hall : ∀ item ∈ items, item.1.erabId = 5)
    (hcfg : env.qciConfig ((s.reportedErabs items).erabQci 5) = some cfg) :
    ∃ t : EnbRrcUe, NewBearers (s.reportedErabs items) t ∧ (t.mac.find? 3).isSome ∧
      (t.rlc.rlcArray.find? 3).isSome ∧
      s.setupErabsBearer env items = t.sendRrcConnRecfg env (newDrb1Recfg items cfg) := by
  obtain ⟨init, last, rfl⟩ := (List.eq_nil_or_concat items).resolve_left hne
  rw [List.concat_eq_append] at *
  obtain ⟨hpending, hinfo⟩ := nas_setupErabList (s := s) init last hshort
  have hids : (init ++ [last]).map (fun item => item.1.erabId) =
      List.replicate (init.length + 1) 5 := by
    refine List.eq_replicate_iff.mpr ⟨by simp, fun id hid => ?_⟩
    obtain ⟨item, hitem, rfl⟩ := List.mem_map.mp hid
    exact hall item hitem
  have hmessage := addNewBearers_replicate hcfg (init.length + 1) [] []
  have hchannel := channel_addNewBearers hcfg init.length
  refine ⟨_, newBearers_addNewBearers env (s.reportedErabs (init ++ [last]))
    (fun id (hid : id ∈ List.replicate (init.length + 1) 5) => (List.eq_of_mem_replicate hid).ge)
    [] [], hchannel.1, hchannel.2, ?_⟩
  have hnas : (s.reportedErabs (init ++ [last])).nasPending = true ∧
      (s.reportedErabs (init ++ [last])).erabInfo = last.2 := ⟨hpending, hinfo⟩
  rw [hnas.1, hnas.2, if_pos rfl, List.nil_append, List.nil_append] at hmessage
  have hsent := sendConnectionReconfNewBearer_of_snd hmessage
  rw [setupErabsBearer_of_short env s hshort, newDrb1Recfg, List.length_append,
    List.length_singleton, List.getLast?_concat]
  dsimp only
  unfold reportedErabs at hsent ⊢
  rw [hids] at hsent ⊢
  exact hsent

theorem setUp_five_iff (hs : s.Inv) (hne : items ≠ [])
    (hshort : ∀ item ∈ items, item.1.transportLayerAddress.length ≤ 32)
    (hall : ∀ item ∈ items, item.1.erabId = 5) :
    (s.setupErabsBearer env items).SetUp env 5 ↔ s.Commanded ∧
      (∃ cfg, (lastQci items 5).bind env.qciConfig = some cfg ∧
        (env.packs (newDrb1Recfg items cfg) ∨ s.Signalled 5)) ∧
      ∃ e, s.pdcp.find? 3 = some e ∧ e.ciphering = s.drb1Ciphering := by
  have hs' : (s.setupErabsBearer env items).Inv := hs.changes (changes_setupErabsBearer items)
  obtain ⟨item, hitem⟩ := List.exists_mem_of_ne_nil items hne
  obtain ⟨erab, hfind, hlast, hid, haddress⟩ :=
    find?_five_setupErabList (s := s) hshort hitem (hall item hitem)
  have hreported : (s.reportedErabs items).erabs.find? 5 = some erab := hfind
  have hinv : (s.reportedErabs items).Inv :=
    hs.changes ((changes_setupErabList (bearerItems items)).trans
      (.note _ (.ueErabSetupComplete _) trivial))
  obtain ⟨hsecurity, hpdcp, htrace⟩ := s.reportedErabs_frame items
  have hqci : (s.reportedErabs items).erabQci 5 = erab.qci := by
    rw [erabQci, hreported]
    rfl
  rw [hlast, Option.bind_some]
  cases hcfg : env.qciConfig erab.qci with
  | none =>
    refine iff_of_false (fun h => ?_) (fun h => by simp at h)
    obtain ⟨erab', hfind', hsome, -⟩ := h.known
    obtain rfl := Option.some.inj ((find?_setupErabsBearer hshort hreported).symm.trans hfind')
    rw [hcfg] at hsome
    exact absurd hsome (by simp)
  | some cfg =>
    obtain ⟨t, hnew, hmac, hrlc, heq⟩ :=
      setupErabsBearer_five hne hshort hall ((congrArg env.qciConfig hqci).trans hcfg)
    rw [sendRrcConnRecfg_eq] at heq
    obtain ⟨lcids, hlcids⟩ := hnew.trace
    have hgtpu : (t.gtpu.find? 3).isSome := by
      obtain ⟨-, hzero | ⟨-, -, htunnel⟩⟩ := hinv.erabs 5 erab hreported
      · omega
      · exact hnew.gtpu ▸ htunnel (by decide)
    have hcommanded : (s.setupErabsBearer env items).Commanded ↔ s.Commanded := by
      apply commanded_of_mem
      intro caps cipher integ
      rw [heq]
      dsimp only
      rw [hlcids, htrace]
      split_ifs <;> simp
    have hsignalled : (s.setupErabsBearer env items).Signalled 5 ↔
        env.packs (newDrb1Recfg items cfg) = true ∨ s.Signalled 5 := by
      refine signalled_of_mem (newDrb1Recfg items cfg) (fun recfg => ?_)
        ⟨drbOf 1 cfg, List.mem_replicate.mpr ⟨?_, rfl⟩, rfl⟩
      · rw [heq]
        dsimp only
        rw [hlcids, htrace]
        split_ifs with hpacks <;> simp [hpacks]
      · exact fun hzero => hne (List.length_eq_zero_iff.mp hzero)
    have hentity : (∃ e, (s.setupErabsBearer env items).pdcp.find? 3 = some e ∧
        e.ciphering = (s.setupErabsBearer env items).drb1Ciphering) ↔
          ∃ e, s.pdcp.find? 3 = some e ∧ e.ciphering = s.drb1Ciphering := by
      rw [heq]
      unfold drb1Ciphering
      dsimp only
      rw [hnew.security, hsecurity, ← hpdcp]
      rcases hnew.pdcp 3 with hsame | ⟨hnone, hplain⟩
      · rw [hsame]
      · rw [hnone]
        refine iff_of_false (fun ⟨e, he, hciphering⟩ => ?_) (fun ⟨e, he, _⟩ => nomatch he)
        have hencrypted : e.doEncryption = true := congrArg Prod.fst hciphering
        exact absurd (hencrypted.symm.trans (hplain e he)) (by simp)
    have hchannels := @setUp_iff_of_channels env _ hs'
      (by rw [heq]; exact ⟨erab, hnew.erabs 5 erab hreported, by rw [hcfg]; rfl, haddress⟩)
      (by rw [heq]; exact hgtpu) (by rw [heq]; exact hmac) (by rw [heq]; exact hrlc)
    rw [hchannels, hcommanded, hsignalled, hentity]
    simp only [Option.some.injEq, exists_eq_left']

theorem reports_setupErabs_iff (hs : s.Inv)
    (hshort : ∀ item ∈ items, item.1.transportLayerAddress.length ≤ 32) :
    (∀ id ∈ items.map fun item => item.1.erabId, (s.setupErabsBearer env items).SetUp env id) ↔
    ∀ item ∈ items, item.1.erabId = 5 ∧ s.Commanded ∧
      (∃ cfg, (lastQci items 5).bind env.qciConfig = some cfg ∧
        (env.packs (newDrb1Recfg items cfg) ∨ s.Signalled 5)) ∧
      ∃ e, s.pdcp.find? 3 = some e ∧ e.ciphering = s.drb1Ciphering := by
  have hs' : (s.setupErabsBearer env items).Inv := hs.changes (changes_setupErabsBearer items)
  rw [List.forall_mem_map]
  constructor
  · intro h item hitem
    have hall : ∀ item ∈ items, item.1.erabId = 5 := fun item hitem =>
      le_antisymm ((h item hitem).id_le hs') item.1.valid.1
    refine ⟨hall item hitem, ?_⟩
    have hfive := h item hitem
    rw [hall item hitem] at hfive
    exact (setUp_five_iff hs (List.ne_nil_of_mem hitem) hshort hall).mp hfive
  · intro h item hitem
    rw [(h item hitem).1]
    exact (setUp_five_iff hs (List.ne_nil_of_mem hitem) hshort fun i hi => (h i hi).1).mpr
      (h item hitem).2

theorem reported_step (e : Event) : s.reported (s.step env e) = s.reportedBy e := by
  have hchanges : Changes s (s.reportedBy e) (s.step env e) := changes_step e
  obtain ⟨entries, heq, hids⟩ := hchanges.trace
  rw [reported, heq, List.drop_left]
  exact hids

theorem reportsSetUp_step_iff (hs : s.Inv) (e : Event) :
    s.ReportsSetUp env e ↔ s.Reportable env e := by
  unfold ReportsSetUp
  rw [reported_step]
  cases e with
  | rrcConReq | setupUeCtxt | modifyUeCtxt | releaseErabs =>
    exact iff_of_true (fun id hid => nomatch hid) trivial
  | ulDcch srb2 isProtected msg =>
    by_cases hpasses : s.pdcpPasses (if srb2 then 2 else 1) isProtected = true
    · cases msg with
      | securityModeComplete =>
        unfold reportedBy Reportable step
        dsimp only
        rw [if_pos hpasses, if_pos hpasses, forall_prop_of_true hpasses]
        exact reports_complete_iff hs
      | rrcConnSetupComplete | ulInfoTransfer | rrcConnRecfgComplete | securityModeFail |
          ueCapInfo | measReport | other =>
        exact iff_of_true (fun id hid => nomatch hid) trivial
    · cases msg with
      | securityModeComplete =>
        unfold reportedBy Reportable
        dsimp only
        rw [if_neg hpasses]
        exact iff_of_true (fun id hid => nomatch hid) fun h => absurd h hpasses
      | rrcConnSetupComplete | ulInfoTransfer | rrcConnRecfgComplete | securityModeFail |
          ueCapInfo | measReport | other =>
        exact iff_of_true (fun id hid => nomatch hid) trivial
  | setupUeErabs items =>
    unfold reportedBy Reportable
    dsimp only
    by_cases hshort : ∀ item ∈ items, item.1.transportLayerAddress.length ≤ 32
    · rw [if_pos hshort, forall_prop_of_true hshort]
      exact reports_setupErabs_iff hs hshort
    · rw [if_neg hshort]
      exact iff_of_true (fun id hid => nomatch hid) fun h => absurd h hshort

/-- In a run, all that is reported is set up exactly when every step may report what it does. -/
theorem reportsSetUp_iff_reportable (env : RrcEnv) (rnti : ℕ) (caps : UeSecurityCapabilities)
    (keys : SecurityConfig) (events : List Event) :
    EventRun.Along (step env) (ReportsSetUp env) (init rnti caps keys) events ↔
      EventRun.Along (step env) (Reportable env) (init rnti caps keys) events :=
  EventRun.along_congr (fun _ e hs _ => hs.changes (changes_step e))
    (fun _ e hs => reportsSetUp_step_iff hs e) (inv_init rnti caps keys)

/-- E-RAB 5 with the initial context, and then another E-RAB by a request of its own. -/
def sampleAttach (erabId qci : ℕ) (h : 5 ≤ erabId ∧ erabId ≤ 15) : List Event :=
  [.rrcConReq none true true,
    .setupUeCtxt ⟨⟨[true, true], [true, true]⟩, [7], [(⟨5, 9, [true], 1, by decide⟩, none)]⟩,
    .ulDcch false true .securityModeComplete,
    .setupUeErabs [(⟨erabId, qci, [true], 2, h⟩, [])]]

def sampleErabEnv : RrcEnv where
  qciCfg qci := if qci.val = 9 then some ⟨0, false, ⟨.lte, .am⟩, am_supported⟩ else none
  eeaPreferenceList := [.eea2]
  eiaPreferenceList := [.eia2]
  generateKRrc key _ _ := (key, key)
  generateKUp key _ _ := (key, key)
  packs _ := true
  unpacksEutraCap _ := true

/-- E-RAB 6 is reported without ciphering, with QCI 5 also without a configuration. -/
theorem second_erab_not_setUp :
    let start := init 0x46 ⟨[], []⟩ ⟨[], [], [], .eea0, .eia0⟩
    ¬ EventRun.Along (step sampleErabEnv) (ReportsSetUp sampleErabEnv) start
        (sampleAttach 6 9 (by decide)) ∧
      ¬ EventRun.Along (step sampleErabEnv) (ReportsSetUp sampleErabEnv) start
        (sampleAttach 6 5 (by decide)) := by
  refine ⟨fun h => ?_, fun h => ?_⟩
  · have hset := h.2.2.2.1 6 List.mem_cons_self
    obtain ⟨recfg, drb, e, -, -, -, -, hfind, hciphering⟩ := hset.ciphered
    have hencrypted : e.doEncryption = true := congrArg Prod.fst hciphering
    have hplain : e.doEncryption = false := Option.some.inj hfind ▸ rfl
    exact absurd (hencrypted.symm.trans hplain) (by simp)
  · have hset := h.2.2.2.1 6 List.mem_cons_self
    obtain ⟨erab, hfind, hsome, -⟩ := hset.known
    have hqci : erab.qci = 5 := Option.some.inj hfind ▸ rfl
    rw [hqci] at hsome
    exact absurd hsome (by decide)

end EnbRrcUe
end SrsLte
