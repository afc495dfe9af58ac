import SrsLte.MmeS1apConsistent

/-!
# Runs of the S1AP object

Each handler keeps the maps consistent where no identifier and no IMSI of a stored context is
overwritten, and with it every run that takes such steps only.
-/

namespace SrsLte.S1ap

open KeyIndex EventRun

variable {P : NasEnv} {s : S1ap} {p id : ℕ} {c c' : NasCtx} {u : UplinkNas} {m : InitialUeMessage}

def performAll (s : S1ap) (p : ℕ) (c : NasCtx) (outputs : List NasOutput) : S1ap :=
  outputs.foldl (fun s o => s.perform p c o) s

def Located (c c' : NasCtx) : Prop :=
  c'.ecm.mmeUeS1apId = c.ecm.mmeUeS1apId ∧ c'.ecm.enbAssoc = c.ecm.enbAssoc

def Quiet (c : NasCtx) (h : NasCtx × List NasOutput) : Prop :=
  h.1.imsi = c.imsi ∧ Located c h.1 ∧ ∀ s p c', performAll s p c' h.2 = s

theorem quiet_self : Quiet c (c, []) := ⟨rfl, ⟨rfl, rfl⟩, fun _ _ _ => rfl⟩

theorem handleAuthenticationResponse_quiet (msg : Bytes) :
    Quiet c (c.handleAuthenticationResponse P u msg) := by
  unfold NasCtx.handleAuthenticationResponse
  split_ifs <;> exact ⟨rfl, ⟨rfl, rfl⟩, fun _ _ _ => rfl⟩

theorem handleAuthenticationFailure_quiet (msg : Bytes) :
    Quiet c (c.handleAuthenticationFailure P u msg) := by
  unfold NasCtx.handleAuthenticationFailure
  dsimp only
  by_cases hcause : (P.unpackAuthenticationFailure msg).emmCause = 21
  · rw [if_pos hcause]
    cases (P.unpackAuthenticationFailure msg).authFailParam with
    | none => exact quiet_self
    | some auts =>
      cases u.resyncOk with
      | false => exact ⟨rfl, ⟨rfl, rfl⟩, fun _ _ _ => rfl⟩
      | true => cases u.authInfo <;> exact ⟨rfl, ⟨rfl, rfl⟩, fun _ _ _ => rfl⟩
  · rw [if_neg hcause]
    exact quiet_self

theorem handleDetachRequest_quiet : Quiet c c.handleDetachRequest := by
  unfold NasCtx.handleDetachRequest
  split_ifs <;> exact ⟨rfl, ⟨rfl, rfl⟩, fun _ _ _ => rfl⟩

theorem handleSecurityModeComplete_quiet : Quiet c c.handleSecurityModeComplete := by
  unfold NasCtx.handleSecurityModeComplete
  split_ifs <;> exact ⟨rfl, ⟨rfl, rfl⟩, fun _ _ _ => rfl⟩

theorem handleAttachComplete_quiet (msg : Bytes) : Quiet c (c.handleAttachComplete P msg) := by
  unfold NasCtx.handleAttachComplete
  dsimp only
  split_ifs <;> exact ⟨rfl, ⟨rfl, rfl⟩, fun _ _ _ => rfl⟩

theorem handleIdentityResponse_effect (msg : Bytes) :
    let h := c.handleIdentityResponse P u msg
    Located c h.1 ∧ h.1.imsi = imsiOfDigits (P.unpackIdentityResponse msg) ∧
      (u.authInfo = none ∧ (∀ s p c', performAll s p c' h.2 = s) ∨
        u.authInfo ≠ none ∧ ∀ s p c', performAll s p c' h.2 =
          (s.deleteUeCtx
            (imsiOfDigits (P.unpackIdentityResponse msg))).addNasCtxToImsiMap p c') := by
  unfold NasCtx.handleIdentityResponse
  cases u.authInfo with
  | none => exact ⟨⟨rfl, rfl⟩, rfl, Or.inl ⟨rfl, fun _ _ _ => rfl⟩⟩
  | some v => exact ⟨⟨rfl, rfl⟩, rfl, Or.inr ⟨nofun, fun _ _ _ => rfl⟩⟩

theorem handleAttachRequest_effect (msg : Bytes) :
    let h := c.handleAttachRequest P u msg
    Quiet c h ∨
      ∃ attachReq, P.unpackAttachRequest msg = some attachReq ∧ attachReq.typeOfId ≠ .other ∧
        c.imsi = 0 ∧ Located c h.1 ∧ h.1.imsi = imsiOfDigits attachReq.imsi ∧
        ∀ s p c', performAll s p c' h.2 = s ∨
          performAll s p c' h.2 = s.addNasCtxToImsiMap p c' := by
  unfold NasCtx.handleAttachRequest
  cases P.unpackAttachRequest msg with
  | none => exact Or.inl quiet_self
  | some attachReq =>
    dsimp only
    split_ifs with htype himsi
    · exact Or.inl quiet_self
    · right
      cases u.authInfo with
      | none => exact ⟨_, rfl, htype, himsi, ⟨rfl, rfl⟩, rfl, fun _ _ _ => Or.inl rfl⟩
      | some v => exact ⟨_, rfl, htype, himsi, ⟨rfl, rfl⟩, rfl, fun _ _ _ => Or.inr rfl⟩
    · exact Or.inl quiet_self

/-- The message does not change the IMSI of the context, and stores it no second time. -/
def KeepsImsi (P : NasEnv) (u : UplinkNas) (c : NasCtx) (r : ReceivedNas) : Prop :=
  match r.msgType with
  | .identityResponse =>
    imsiOfDigits (P.unpackIdentityResponse r.msg) = c.imsi ∧ u.authInfo = none
  | .attachRequest =>
    ∀ attachReq, P.unpackAttachRequest r.msg = some attachReq → attachReq.typeOfId ≠ .other →
      c.imsi = 0 → imsiOfDigits attachReq.imsi = 0
  | _ => True

def UplinkOrderly (P : NasEnv) (s : S1ap) (mmeUeS1apId : ℕ) (u : UplinkNas) : Prop :=
  ∀ p c r, s.mmeUeS1apIdToNasCtx mmeUeS1apId = some p → s.nasCtx p = some c →
    c.receive P u.msg = some r → s.imsiToNasCtx c.imsi = some p → KeepsImsi P u c r

theorem Inv.absent (h : Inv s) (hc : s.nasCtx p = some c) (hne : s.imsiToNasCtx c.imsi ≠ some p)
    (imsi : ℕ) : s.imsiToNasCtx imsi ≠ some p := by
  intro himsi
  obtain ⟨d, hd, hkey⟩ := h.byImsi imsi p himsi
  obtain rfl : c = d := Option.some.inj (hc.symm.trans hd)
  obtain rfl : c.imsi = imsi := Option.some.inj hkey
  exact hne himsi

theorem Inv.setLocated (h : Inv s) (hc : s.nasCtx p = some c) (hloc : Located c c')
    (himsi : c'.imsi = c.imsi ∨ s.imsiToNasCtx c.imsi ≠ some p) : Inv (s.setNasCtx p c') :=
  h.setNasCtx hc hloc.1 hloc.2 (himsi.imp_right fun hne => h.absent hc hne)

theorem setNasCtx_self (s : S1ap) (p : ℕ) (c : NasCtx) : (s.setNasCtx p c).nasCtx p = some c :=
  Function.update_self _ _ _

theorem Inv.performReceived {r : ReceivedNas} {count : ℕ} (h : Inv s) (hc : s.nasCtx p = some c)
    (hkeeps : s.imsiToNasCtx c.imsi = some p → KeepsImsi P u c r) :
    let h' := (c.handleReceived P u r).1
    let c' := { h'.1 with ulNasCount := count }
    Inv (performAll (s.setNasCtx p c') p c' h'.2) := by
  have hquiet : ∀ {out : NasCtx × List NasOutput} {c₁ : NasCtx}, Quiet c out →
      c₁.imsi = out.1.imsi → c₁.ecm = out.1.ecm →
        Inv (performAll (s.setNasCtx p c₁) p c₁ out.2) := by
    intro out c₁ hq himsi hecm
    rw [hq.2.2]
    exact h.setLocated hc (by unfold Located; rw [hecm]; exact hq.2.1) (Or.inl (himsi.trans hq.1))
  unfold NasCtx.handleReceived
  unfold KeepsImsi at hkeeps
  cases htype : r.msgType with
  | attachRequest =>
    rw [htype] at hkeeps
    have heffect := handleAttachRequest_effect (P := P) (c := c) (u := u) r.msg
    dsimp only at heffect ⊢
    generalize c.handleAttachRequest P u r.msg = out at heffect ⊢
    rcases heffect with hq | ⟨attachReq, hreq, hother, hzero, hloc, himsi, hperform⟩
    · exact hquiet hq rfl rfl
    · have hinv : Inv (s.setNasCtx p { out.1 with ulNasCount := count }) := by
        refine h.setLocated hc hloc ?_
        by_cases hst : s.imsiToNasCtx c.imsi = some p
        · exact Or.inl ((himsi.trans (hkeeps hst attachReq hreq hother hzero)).trans hzero.symm)
        · exact Or.inr hst
      rcases hperform (s.setNasCtx p { out.1 with ulNasCount := count }) p
        { out.1 with ulNasCount := count } with hp | hp
      · rw [hp]
        exact hinv
      · rw [hp]
        exact hinv.addNasCtxToImsiMap (setNasCtx_self _ _ _)
  | identityResponse =>
    rw [htype] at hkeeps
    have heffect := handleIdentityResponse_effect (P := P) (c := c) (u := u) r.msg
    dsimp only at heffect ⊢
    generalize c.handleIdentityResponse P u r.msg = out at heffect ⊢
    obtain ⟨hloc, himsi, ⟨hauth, hperform⟩ | ⟨hauth, hperform⟩⟩ := heffect
    · rw [hperform]
      refine h.setLocated hc hloc ?_
      by_cases hst : s.imsiToNasCtx c.imsi = some p
      · exact Or.inl (himsi.trans (hkeeps hst).1)
      · exact Or.inr hst
    · have hst : s.imsiToNasCtx c.imsi ≠ some p := fun hst => hauth (hkeeps hst).2
      have hinv : Inv (s.setNasCtx p { out.1 with ulNasCount := count }) :=
        h.setLocated hc hloc (Or.inr hst)
      obtain ⟨hdeleted, -, hkept⟩ :=
        hinv.deleteUeCtx (imsiOfDigits (P.unpackIdentityResponse r.msg))
      rw [hperform]
      refine hdeleted.addNasCtxToImsiMap ?_
      exact (hkept p (h.absent hc hst _)).trans (setNasCtx_self _ _ _)
  | authenticationResponse => exact hquiet (handleAuthenticationResponse_quiet r.msg) rfl rfl
  | authenticationFailure => exact hquiet (handleAuthenticationFailure_quiet r.msg) rfl rfl
  | detachRequest => exact hquiet handleDetachRequest_quiet rfl rfl
  | securityModeComplete =>
    dsimp only
    split_ifs
    · exact hquiet handleSecurityModeComplete_quiet rfl rfl
    · exact hquiet quiet_self rfl rfl
  | attachComplete =>
    dsimp only
    split_ifs
    · exact hquiet (handleAttachComplete_quiet r.msg) rfl rfl
    · exact hquiet quiet_self rfl rfl
  | esmInformationResponse =>
    dsimp only
    split_ifs
    · exact hquiet ⟨rfl, ⟨rfl, rfl⟩, fun _ _ _ => rfl⟩ rfl rfl
    · exact hquiet quiet_self rfl rfl
  | trackingAreaUpdateRequest => exact hquiet quiet_self rfl rfl

theorem Inv.handleUplinkNasTransport (h : Inv s) (hord : UplinkOrderly P s id u) :
    Inv (s.handleUplinkNasTransport P id u) := by
  unfold S1ap.handleUplinkNasTransport
  cases hid : s.mmeUeS1apIdToNasCtx id with
  | none => exact h
  | some p =>
    obtain ⟨c, hc, -⟩ := h.idLive hid
    dsimp only
    rw [hc]
    dsimp only
    cases hr : c.receive P u.msg with
    | none =>
      rw [NasCtx.handleUplinkNasTransport_none hr]
      exact h.setLocated hc ⟨rfl, rfl⟩ (Or.inl rfl)
    | some r =>
      obtain ⟨count, heq⟩ := NasCtx.handleUplinkNasTransport_eq hr
      rw [heq]
      exact h.performReceived hc (hord p c r hid hc hr)

theorem Inv.handleUeContextReleaseComplete (h : Inv s) :
    Inv (s.handleUeContextReleaseComplete id) := by
  unfold S1ap.handleUeContextReleaseComplete
  cases hid : s.mmeUeS1apIdToNasCtx id with
  | none => exact h
  | some p =>
    obtain ⟨c, hc, rfl, hne⟩ := h.idLive hid
    obtain ⟨ueIds, hset, heq⟩ := h.releaseUeEcmCtx_eq hc hne
    dsimp only
    rw [hc]
    dsimp only
    rw [heq]
    exact h.released hc hne hset

theorem insertIfAbsent_isSome {V : Type} {f : ℕ → Option V} {k l : ℕ} {v : V}
    (h : (f l).isSome) : (insertIfAbsent f k v l).isSome := by
  unfold insertIfAbsent
  split_ifs
  · exact h
  · by_cases hl : l = k
    · simp [hl]
    · simpa [hl] using h

theorem Inv.handleS1SetupRequest (h : Inv s) (enbAssoc enbId : ℕ) :
    Inv (s.handleS1SetupRequest enbAssoc enbId) := by
  unfold S1ap.handleS1SetupRequest
  split_ifs with hactive
  · exact h
  refine ⟨h.byId, h.places.congr fun place => ?_, h.byImsi,
    fun p c hc hne => insertIfAbsent_isSome (h.sctp p c hc hne), h.fresh⟩
  simp only [InEnbSet, insertIfAbsent]
  split_ifs with hsome
  · exact Iff.rfl
  · by_cases ha : place.1 = enbAssoc
    · rw [Option.not_isSome_iff_eq_none, ← ha] at hsome
      simp [ha ▸ hsome, ha]
    · simp [ha]

theorem Inv.sendInitialContextSetupRequest (h : Inv s) (imsi : ℕ) :
    Inv (s.sendInitialContextSetupRequest imsi) := by
  unfold S1ap.sendInitialContextSetupRequest
  cases (s.imsiToNasCtx imsi).bind s.nasCtx with
  | none => exact h
  | some c =>
    dsimp only
    split_ifs
    · exact ⟨h.byId, h.places, h.byImsi, h.sctp, h.fresh⟩
    · exact h

theorem Inv.activateEpsBearer (h : Inv s) (imsi : ℕ) : Inv (s.activateEpsBearer imsi) := by
  unfold S1ap.activateEpsBearer
  cases himsi : s.imsiToNasCtx imsi with
  | none => exact h
  | some p =>
    obtain ⟨c, hc, -⟩ := h.byImsi imsi p himsi
    dsimp only
    rw [hc]
    dsimp only
    split_ifs
    · exact h.setLocated hc ⟨rfl, rfl⟩ (Or.inl rfl)
    · exact h

theorem releaseUesEcmCtxInEnb_empty {enbAssoc : ℕ}
    (hempty : ∀ ueIds, s.enbAssocToUeIds enbAssoc = some ueIds → ueIds = ∅) :
    s.releaseUesEcmCtxInEnb enbAssoc = s := by
  unfold releaseUesEcmCtxInEnb
  cases hset : s.enbAssocToUeIds enbAssoc with
  | none => rfl
  | some ueIds =>
    obtain rfl := hempty ueIds hset
    have hnas : (fun p => (s.nasCtx p).map fun c =>
        if ∃ id ∈ (∅ : Finset ℕ), s.mmeUeS1apIdToNasCtx id = some p then releaseCtx c else c) =
        s.nasCtx := by
      funext p
      simp
    dsimp only
    rw [hnas, ← hset, Function.update_eq_self]

theorem Inv.deleteEnbCtx (h : Inv s) {enbAssoc : ℕ}
    (hempty : ∀ ueIds, s.enbAssocToUeIds enbAssoc = some ueIds → ueIds = ∅) :
    Inv (s.deleteEnbCtx enbAssoc) := by
  unfold S1ap.deleteEnbCtx
  cases s.sctpToEnbId enbAssoc with
  | none => exact h
  | some enbId =>
    dsimp only
    split_ifs
    · rw [releaseUesEcmCtxInEnb_empty hempty]
      refine ⟨h.byId, h.places, h.byImsi, fun p c hc hne => ?_, h.fresh⟩
      obtain ⟨ueIds, hset, hmem⟩ := h.inEnbSet hc hne
      have hassoc : c.ecm.enbAssoc ≠ enbAssoc := by
        intro heq
        rw [hempty ueIds (heq ▸ hset)] at hmem
        exact absurd hmem (Finset.notMem_empty _)
      exact (congrArg Option.isSome (Function.update_of_ne hassoc _ _)).trans (h.sctp p c hc hne)
    · exact h

/-- An attach takes fresh identifiers on an association that has completed its setup, and skips the
authentication only for a context without an identifier; no service request comes from a registered
UE, and no detach request from a known one. -/
def InitialOrderly (P : NasEnv) (s : S1ap) (m : InitialUeMessage) : Prop :=
  if parseMsgHeader m.msg = 0x41 then
    ∀ attachReq, P.unpackAttachRequest m.msg = some attachReq → AttachOrderly P s m attachReq
  else if parseMsgHeader m.msg = 0xC then s.registeredCtx m = none
  else if parseMsgHeader m.msg = 0x45 then
    s.findImsiFromMTmsi m.sTmsi ≠ 0 → s.imsiToNasCtx (s.findImsiFromMTmsi m.sTmsi) = none
  else True

/-- The step overwrites no identifier and no IMSI of a stored context: an initial message is
orderly, an uplink message keeps the IMSI of a context that is stored under it, no release request
is for a known identifier, and an association that is shut down has no UEs. -/
def Orderly (P : NasEnv) (s : S1ap) : Event → Prop
  | .initialUeMessage m => InitialOrderly P s m
  | .uplinkNasTransport id u => UplinkOrderly P s id u
  | .ueContextReleaseRequest id => s.mmeUeS1apIdToNasCtx id = none
  | .shutdown enbAssoc => ∀ ueIds, s.enbAssocToUeIds enbAssoc = some ueIds → ueIds = ∅
  | _ => True

theorem Inv.handleInitialUeMessage (h : Inv s) (hord : InitialOrderly P s m) :
    Inv (s.handleInitialUeMessage P m) := by
  unfold S1ap.handleInitialUeMessage
  unfold InitialOrderly at hord
  by_cases hattach : parseMsgHeader m.msg = 0x41
  · rw [if_pos hattach] at hord ⊢
    exact h.handleAttachRequest hord
  rw [if_neg hattach] at hord ⊢
  by_cases hservice : parseMsgHeader m.msg = 0xC
  · rw [if_pos hservice] at hord ⊢
    unfold S1ap.handleServiceRequest
    rw [hord]
    exact h.takeMmeUeS1apId
  rw [if_neg hservice] at hord ⊢
  by_cases hdetach : parseMsgHeader m.msg = 0x45
  · rw [if_pos hdetach] at hord ⊢
    unfold S1ap.handleDetachRequest
    by_cases hzero : s.findImsiFromMTmsi m.sTmsi = 0
    · rw [if_pos hzero]
      exact h
    · rw [if_neg hzero, hord hzero]
      exact h
  · rw [if_neg hdetach]
    exact h

theorem Inv.step (e : Event) (h : Inv s) (hord : Orderly P s e) : Inv (s.step P e) := by
  cases e with
  | s1SetupRequest enbAssoc enbId => exact h.handleS1SetupRequest enbAssoc enbId
  | initialUeMessage m => exact h.handleInitialUeMessage hord
  | uplinkNasTransport id u => exact h.handleUplinkNasTransport hord
  | ueContextReleaseRequest id =>
    unfold S1ap.step S1ap.handleUeContextReleaseRequest
    dsimp only
    rw [hord]
    exact h
  | ueContextReleaseComplete id => exact h.handleUeContextReleaseComplete
  | initialContextSetup imsi => exact h.sendInitialContextSetupRequest imsi
  | activateEpsBearer imsi => exact h.activateEpsBearer imsi
  | shutdown enbAssoc => exact h.deleteEnbCtx hord

/-- In every state that orderly steps lead to, the maps fit the contexts. -/
theorem consistent_of_orderly (P : NasEnv) (nextMTmsi : ℕ) (events : List Event)
    (hord : Along (fun s e => s.step P e) (Orderly P) (init nextMTmsi) events) :
    Consistent (events.foldl (fun s e => s.step P e) (init nextMTmsi)) :=
  (Along.invariant (I := Inv) (fun _ e hinv hord => hinv.step e hord) (inv_init nextMTmsi)
    hord).consistent

/-! A UE that attaches, and one whose eNB asks for its release. -/

def sampleEnv : NasEnv where
  integAlgo := .eia2
  cipherAlgo := .eea0
  eia := fun _ _ _ _ => []
  eea := fun _ _ _ msg => msg
  generateKNas := fun _ _ _ => ([], [])
  unpackAttachRequest := fun _ =>
    some ⟨.imsi, fun i => [0, 0, 1, 0, 1, 0, 1, 2, 3, 4, 5, 6, 7, 8, 9].getD i 0, 0, false⟩
  unpackIdentityResponse := fun _ _ => 0
  unpackAuthenticationFailure := fun _ => ⟨20, none⟩
  unpackAttachComplete := fun _ => 5

def sampleAttach : InitialUeMessage where
  msg := [0x07, 0x41, 0x71, 0x08, 0x09, 0x10, 0x10, 0x10, 0x32, 0x54, 0x76, 0x98, 0x02, 0xE0, 0xE0,
    0x00, 0x04, 0x02, 0x01, 0xD0, 0x11]
  sTmsi := 0
  enbUeS1apId := 1
  enbAssoc := 1
  authInfo := some NasCtx.noVector

theorem consistent_of_orderly_attach :
    Consistent ([.s1SetupRequest 1 1, .initialUeMessage sampleAttach].foldl
      (fun s e => S1ap.step s sampleEnv e) (init 0)) := by
  refine consistent_of_orderly sampleEnv 0 _ ⟨trivial, fun attachReq hreq => ?_, trivial⟩
  obtain rfl := Option.some.inj hreq
  exact fun _ => ⟨⟨rfl, rfl⟩, by decide, rfl⟩

/-- After a release request the map still leads from the identifier to the context. -/
theorem releaseRequest_not_consistent :
    ¬ Consistent ([.s1SetupRequest 1 1, .initialUeMessage sampleAttach,
      .ueContextReleaseRequest 1].foldl (fun s e => S1ap.step s sampleEnv e) (init 0)) := by
  intro h
  obtain ⟨c, hc⟩ := Option.isSome_iff_exists.mp (h.idLive 1 0 rfl)
  have hid : c.ecm.mmeUeS1apId = 1 := (h.stored 1 0 c (by decide) hc).mp rfl
  cases hc
  exact absurd hid (by decide)

end SrsLte.S1ap
