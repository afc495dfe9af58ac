import SrsLte.EnbRrc

/-!
# The changes of a step of the RRC context

A step is a sequence of small changes: an entry of the trace, a bearer, an E-RAB, fields that no
invariant speaks of. An invariant that every small change keeps is kept by the step. The changes
are labelled with the E-RABs that are reported to the MME.
-/

namespace SrsLte

def RrcEntry.reports : RrcEntry → List ℕ
  | .ueCtxtSetupComplete erabIds => erabIds
  | .ueErabSetupComplete erabIds => erabIds
  | _ => []

/-- An entry that does not tell of a change. The DRBs of a message are numbered by the E-RABs. -/
def RrcEntry.Plain : RrcEntry → Prop
  | .registered => False
  | .bearer _ => False
  | .rrcConnRecfg recfg =>
    ∀ drb ∈ recfg.drbToAddModList, ∃ drbId cfg, drb = EnbRrcUe.drbOf drbId cfg
  | _ => True

namespace EnbRrcUe

inductive Changes : EnbRrcUe → List ℕ → EnbRrcUe → Prop
  | refl (s : EnbRrcUe) : Changes s [] s
  | trans {s s' s'' : EnbRrcUe} {a b : List ℕ} (h : Changes s a s') (h' : Changes s' b s'') :
      Changes s (a ++ b) s''
  | fields {s s' : EnbRrcUe} (hstate : s'.state = s.state ∨ s'.state ≠ .registered)
      (hpdcp : s'.pdcp = s.pdcp) (herabs : s'.erabs = s.erabs) (hgtpu : s'.gtpu = s.gtpu)
      (htrace : s'.trace = s.trace) : Changes s [] s'
  | note (s : EnbRrcUe) (entry : RrcEntry) (h : entry.Plain) :
      Changes s entry.reports (s.note entry)
  | register (s : EnbRrcUe) : Changes s [] { s.note .registered with state := .registered }
  | addBearer (s : EnbRrcUe) (lcid : ℕ) (cfg : PdcpConfig) (h : 3 ≤ lcid → cfg.rbType = .isDrb) :
      Changes s [] (s.pdcpAddBearer lcid cfg)
  | change (s : EnbRrcUe) {lcid : ℕ} {f : PdcpEntityBase → PdcpEntityBase} (h : lcid ≤ 3)
      (hcfg : ∀ e, (f e).cfg = e.cfg) : Changes s [] { s with pdcp := s.pdcp.change lcid f }
  | emptyErab (s : EnbRrcUe) {id : ℕ} (h : 5 ≤ id) :
      Changes s [] { s with erabs := s.erabs.emplace id ⟨0, 0, [], 0, 0⟩ }
  | setupErab (s : EnbRrcUe) {erab : ErabToBeSetup} {nasPdu : Option Bytes}
      (h : erab.transportLayerAddress.length ≤ 32) : Changes s [] (s.setupErab erab nasPdu)
  | releaseErabs (s : EnbRrcUe) : Changes s [] { s with erabs := .empty }

variable {env : RrcEnv} {s : EnbRrcUe}

namespace Changes

variable {s' : EnbRrcUe} {ids : List ℕ}

section

variable (h : Changes s ids s')
include h

theorem and_then {s'' : EnbRrcUe} (h' : Changes s' [] s'') :
    Changes s ids s'' :=
  List.append_nil ids ▸ h.trans h'

theorem notes (entry : RrcEntry) (hplain : entry.Plain)
    (hreports : entry.reports = []) : Changes s ids (s'.note entry) :=
  h.and_then (hreports ▸ note s' entry hplain)

theorem sets {state : RrcState} (hne : state ≠ .registered) :
    Changes s ids { s' with state := state } :=
  h.and_then (fields (Or.inr hne) rfl rfl rfl rfl)

theorem secures {lcid : ℕ} (hlt : lcid ≤ 3) : Changes s ids
    (((s'.pdcpConfigSecurity lcid).pdcpEnableIntegrity lcid).pdcpEnableEncryption lcid) := by
  refine Changes.and_then ?_ (change _ hlt (by exact fun _ => rfl))
  refine Changes.and_then ?_ (change _ hlt (by exact fun _ => rfl))
  exact h.and_then (change _ hlt (by exact fun _ => rfl))

theorem trace : ∃ entries, s'.trace = s.trace ++ entries ∧
    entries.flatMap RrcEntry.reports = ids := by
  induction h with
  | refl s => exact ⟨[], (List.append_nil _).symm, rfl⟩
  | trans _ _ ih ih' =>
    obtain ⟨entries, heq, hids⟩ := ih
    obtain ⟨entries', heq', hids'⟩ := ih'
    exact ⟨entries ++ entries', by rw [heq', heq, List.append_assoc],
      by rw [List.flatMap_append, hids, hids']⟩
  | fields _ _ _ _ htrace => exact ⟨[], by rw [htrace, List.append_nil], rfl⟩
  | note s _ _ => exact ⟨_, rfl, List.flatMap_singleton _ _⟩
  | register s => exact ⟨_, rfl, rfl⟩
  | addBearer s _ _ _ => exact ⟨_, rfl, rfl⟩
  | change s _ _ => exact ⟨[], (List.append_nil _).symm, rfl⟩
  | emptyErab s _ => exact ⟨[], (List.append_nil _).symm, rfl⟩
  | setupErab s _ => exact ⟨[], by rw [setupErab_eq, List.append_nil], rfl⟩
  | releaseErabs s => exact ⟨[], (List.append_nil _).symm, rfl⟩

end

end Changes

theorem changes_macBearerUeCfg (lcid : ℕ) (group : Option ℕ) :
    Changes s [] (s.macBearerUeCfg lcid group) := by
  rw [macBearerUeCfg_eq]
  exact .fields (Or.inl rfl) rfl rfl rfl rfl

theorem changes_rlcAddBearer (lcid : ℕ) (cnfg : RlcConfig) :
    Changes s [] (s.rlcAddBearer lcid cnfg) :=
  .fields (Or.inl rfl) rfl rfl rfl rfl

theorem changes_sendRrcConnRecfg {recfg : RrcConnRecfg}
    (h : ∀ drb ∈ recfg.drbToAddModList, ∃ drbId cfg, drb = drbOf drbId cfg) :
    Changes s [] (s.sendRrcConnRecfg env recfg) := by
  unfold sendRrcConnRecfg
  split_ifs
  · exact Changes.note s (.rrcConnRecfg recfg) h
  · exact .refl s

theorem changes_sendConnectionReconf : Changes s [] (s.sendConnectionReconf env) := by
  unfold sendConnectionReconf
  rw [getDrbidConfig_eq]
  have hempty := Changes.emptyErab s (le_refl 5)
  cases env.qciConfig (s.erabQci (1 + 4)) with
  | none => exact hempty
  | some cfg =>
    refine Changes.sets ?_ (by decide)
    refine Changes.and_then ?_ (changes_sendRrcConnRecfg fun drb hdrb =>
      ⟨1, cfg, List.mem_singleton.mp hdrb⟩)
    refine Changes.secures ?_ (le_refl 3)
    refine Changes.and_then ?_ (Changes.addBearer _ _ _ fun _ => by split_ifs <;> rfl)
    refine Changes.and_then ?_ (changes_rlcAddBearer _ _)
    refine Changes.secures ?_ (by decide)
    refine Changes.and_then ?_ (Changes.addBearer _ _ _ (by omega))
    refine Changes.and_then ?_ (changes_rlcAddBearer _ _)
    refine Changes.and_then ?_ (changes_macBearerUeCfg _ _)
    exact hempty.and_then (changes_macBearerUeCfg _ _)

theorem changes_addNewBearers (env : RrcEnv) (s : EnbRrcUe) {ids : List ℕ}
    (hids : ∀ id ∈ ids, 5 ≤ id)
    {drbs : List DrbToAddMod} (hdrbs : ∀ drb ∈ drbs, ∃ drbId cfg, drb = drbOf drbId cfg)
    (nas : List Bytes) :
    Changes s [] (s.addNewBearers env drbs nas ids).1 ∧
      ∀ drb ∈ (s.addNewBearers env drbs nas ids).2.1, ∃ drbId cfg, drb = drbOf drbId cfg := by
  induction ids generalizing s drbs nas with
  | nil => exact ⟨.refl s, hdrbs⟩
  | cons id ids ih =>
    obtain ⟨hid, hids⟩ := List.forall_mem_cons.mp hids
    have hkey : id - 2 - 2 + 4 = id := by omega
    have hempty := Changes.emptyErab s hid
    unfold addNewBearers
    dsimp only
    rw [getDrbidConfig_eq, hkey]
    cases env.qciConfig (s.erabQci id) with
    | none => exact ⟨hempty, hdrbs⟩
    | some cfg =>
      have hnew := ((hempty.and_then (changes_macBearerUeCfg (id - 2) none)).and_then
        (changes_rlcAddBearer (id - 2) cfg.rlcCfg)).and_then
        (Changes.addBearer _ (id - 2) (makeDrbPdcpConfig (id - 2 - 2 - 1) false) fun _ => rfl)
      have hmore : ∀ drb ∈ drbs ++ [drbOf (id - 2 - 2) cfg],
          ∃ drbId cfg, drb = drbOf drbId cfg := by
        intro drb hdrb
        rcases List.mem_append.mp hdrb with hold | hlast
        · exact hdrbs drb hold
        · exact ⟨_, _, List.mem_singleton.mp hlast⟩
      exact (ih _ hids hmore _).imp_left
        hnew.and_then

theorem changes_sendConnectionReconfNewBearer {ids : List ℕ} (hids : ∀ id ∈ ids, 5 ≤ id) :
    Changes s [] (s.sendConnectionReconfNewBearer env ids) := by
  have hnil : ∀ drb ∈ ([] : List DrbToAddMod), ∃ drbId cfg, drb = drbOf drbId cfg := by simp
  obtain ⟨hchanges, hdrbs⟩ := changes_addNewBearers env s hids hnil []
  unfold sendConnectionReconfNewBearer
  rcases hadd : s.addNewBearers env [] [] ids with ⟨s', drbs, nas, _ | _⟩ <;>
    rw [hadd] at hchanges hdrbs
  · exact hchanges
  · exact hchanges.and_then (changes_sendRrcConnRecfg hdrbs)

theorem changes_setupErabList (items : List (ErabToBeSetup × Option Bytes)) :
    Changes s [] (s.setupErabList items).1 := by
  induction items generalizing s with
  | nil => exact .refl s
  | cons item items ih =>
    unfold setupErabList
    split_ifs with hlong
    · exact .refl s
    · exact (Changes.setupErab s (Nat.le_of_not_gt hlong)).and_then ih

def reportedBy (s : EnbRrcUe) : Event → List ℕ
  | .ulDcch srb2 isProtected .securityModeComplete =>
    if s.pdcpPasses (if srb2 then 2 else 1) isProtected = true then
      s.erabs.entries.map fun erab => erab.2.id
    else []
  | .setupUeErabs items =>
    if ∀ item ∈ items, item.1.transportLayerAddress.length ≤ 32 then
      items.map fun item => item.1.erabId
    else []
  | _ => []

theorem changes_setupErabsBearer (items : List (ErabToBeSetup × Bytes)) :
    Changes s (s.reportedBy (.setupUeErabs items)) (s.setupErabsBearer env items) := by
  have hlist := changes_setupErabList (s := s) (bearerItems items)
  unfold reportedBy
  dsimp only
  split_ifs with hshort
  · have hids : ∀ id ∈ items.map fun item => item.1.erabId, 5 ≤ id := by
      intro id hid
      obtain ⟨item, -, rfl⟩ := List.mem_map.mp hid
      exact item.1.valid.1
    rw [setupErabsBearer_of_short env s hshort]
    refine Changes.and_then ?_ (changes_sendConnectionReconfNewBearer hids)
    exact hlist.trans (Changes.note _ (.ueErabSetupComplete _) trivial)
  · rw [setupErabsBearer_of_long env s hshort]
    exact hlist

theorem changes_setSecurityKey (key : Bytes) : Changes s [] (s.setSecurityKey env key) := by
  have hselected : Changes s [] { s with
      kEnb := key
      security := (s.setSecurityKey env key).security } :=
    .fields (Or.inl rfl) rfl rfl rfl rfl
  refine Changes.and_then ?_ (.change _ (by decide) (by exact fun _ => rfl))
  exact hselected.and_then (.change _ (by decide) (by exact fun _ => rfl))

theorem changes_sendConnectionSetup (allocated : Bool) :
    Changes s [] (s.sendConnectionSetup allocated) := by
  unfold sendConnectionSetup
  split_ifs
  · refine Changes.notes ?_ _ trivial rfl
    refine Changes.and_then ?_ (.addBearer _ 1 _ (by omega))
    exact .fields (Or.inl rfl) rfl rfl rfl rfl
  · exact .refl s

theorem changes_parseUlDcch (msg : UlDcchMsg) :
    Changes s
      (if msg = .securityModeComplete then s.erabs.entries.map fun erab => erab.2.id else [])
      (s.parseUlDcch env msg) := by
  cases msg with
  | rrcConnSetupComplete nas =>
    exact Changes.sets ((Changes.refl s).notes (.initialUe nas) trivial rfl) (by simp)
  | ulInfoTransfer nas => exact (Changes.refl s).notes (.uplinkNas nas) trivial rfl
  | rrcConnRecfgComplete => exact .register s
  | securityModeComplete =>
    rw [if_pos rfl]
    refine Changes.sets ?_ (by decide)
    refine Changes.and_then ?_ changes_sendConnectionReconf
    have hcomplete : Changes s [] s.handleSecurityModeComplete :=
      ((Changes.refl s).notes .securityModeComplete trivial rfl).and_then
        (.change _ (by decide) (by exact fun _ => rfl))
    exact hcomplete.trans (.note _ (.ueCtxtSetupComplete _) trivial)
  | securityModeFail | measReport | other => exact .refl s
  | ueCapInfo containers =>
    rw [if_neg (by simp)]
    unfold parseUlDcch
    dsimp only
    split_ifs
    · exact Changes.sets changes_sendConnectionReconf (by simp)
    · exact Changes.sets ((Changes.refl s).notes .rrcConnReject trivial rfl) (by simp)

theorem changes_step (e : Event) : Changes s (s.reportedBy e) (s.step env e) := by
  cases e with
  | rrcConReq sTmsi mmeConnected allocated =>
    have hreject : Changes s [] (if mmeConnected then s else s.note .rrcConnReject) := by
      split_ifs
      · exact .refl s
      · exact (Changes.refl s).notes .rrcConnReject trivial rfl
    refine Changes.sets ?_ (by decide)
    refine Changes.and_then ?_ (changes_sendConnectionSetup allocated)
    exact hreject.and_then (.fields (Or.inl rfl) rfl rfl rfl rfl)
  | ulDcch srb2 isProtected msg =>
    unfold step
    dsimp only
    by_cases hpasses : s.pdcpPasses (if srb2 then 2 else 1) isProtected = true
    · have hparsed : Changes s _ (s.parseUlDcch env msg) := changes_parseUlDcch msg
      rw [if_pos hpasses]
      cases msg <;> simpa [reportedBy, hpasses] using hparsed
    · rw [if_neg hpasses]
      have hnone : s.reportedBy (.ulDcch srb2 isProtected msg) = [] := by
        unfold reportedBy
        cases msg <;> simp [hpasses]
      exact hnone ▸ .refl s
  | setupUeCtxt msg =>
    refine Changes.and_then ?_ (changes_setupErabList _)
    refine Changes.notes ?_ _ trivial rfl
    refine Changes.notes ?_ _ trivial rfl
    refine Changes.and_then ?_ (changes_setSecurityKey _)
    exact .fields (Or.inl rfl) rfl rfl rfl rfl
  | modifyUeCtxt msg =>
    have hcaps : Changes s [] { s with securityCapabilities :=
        msg.ueSecurityCapabilities.getD s.securityCapabilities } :=
      .fields (Or.inl rfl) rfl rfl rfl rfl
    unfold step modifyUeCtxt
    dsimp only
    split_ifs
    · exact .refl s
    · split
      · exact hcaps
      · exact (hcaps.and_then (changes_setSecurityKey _)).notes _ trivial rfl
  | setupUeErabs items => exact changes_setupErabsBearer items
  | releaseErabs => exact .releaseErabs s

end EnbRrcUe
end SrsLte
