import SrsLte.EventRun
import SrsLte.MmeNas
import Mathlib.Logic.Function.Basic

/-!
# Authentication before service in the MME

The history of a NAS context keeps how far the UE has answered each authentication vector that was
stored in it. The handlers check a MAC with whatever key the context holds, and look neither at
the vector that key came from nor at the IMSI that the vector was fetched for.
-/

namespace SrsLte

open EventRun

namespace NasCtx

variable (P : NasEnv) (c : NasCtx) (u : UplinkNas)

def xresOctets (v : AuthVector) : Bytes := (List.range 8).map fun i => v.xres.getD i 0

def AsksService (r : ReceivedNas) : Prop :=
  match r.msgType with
  | .securityModeComplete => r.secHdrType = 4 ∧ r.macValid = true ∧ c.ecm.eit = false
  | .esmInformationResponse => r.secHdrType = 2 ∧ r.macValid = true
  | .attachComplete =>
    r.secHdrType = 2 ∧ r.macValid = true ∧ c.state ≠ .registered ∧
      5 ≤ P.unpackAttachComplete r.msg ∧ P.unpackAttachComplete r.msg ≤ 15
  | _ => False

def fetched : List NasOutput → Option (ℕ × AuthVector)
  | [] => none
  | .genAuthInfoAnswer imsi (some v) :: _ => some (imsi, v)
  | _ :: outputs => fetched outputs

variable {P c u}

def Keeps (c : NasCtx) (h : NasCtx × List NasOutput) : Prop :=
  fetched h.2 = none ∧ h.1.vector = c.vector ∧ h.1.kNasInt = c.kNasInt

def Stores (c : NasCtx) (u : UplinkNas) (h : NasCtx × List NasOutput) : Prop :=
  ∃ imsi v, fetched h.2 = some (imsi, v) ∧ u.authInfo = some v ∧ h.1.vector = v ∧
    h.1.kNasInt = c.kNasInt

theorem handleAttachRequest_cases (msg : Bytes) :
    Stores c u (c.handleAttachRequest P u msg) ∨ Keeps c (c.handleAttachRequest P u msg) := by
  unfold handleAttachRequest
  cases P.unpackAttachRequest msg with
  | none => exact Or.inr ⟨rfl, rfl, rfl⟩
  | some attachReq =>
    dsimp only
    split_ifs with htype himsi
    · exact Or.inr ⟨rfl, rfl, rfl⟩
    · cases hauth : u.authInfo with
      | none => exact Or.inr ⟨rfl, rfl, rfl⟩
      | some v => exact Or.inl ⟨_, v, rfl, hauth, rfl, rfl⟩
    · exact Or.inr ⟨rfl, rfl, rfl⟩

theorem handleIdentityResponse_cases (msg : Bytes) :
    Stores c u (c.handleIdentityResponse P u msg) ∨
      Keeps c (c.handleIdentityResponse P u msg) := by
  unfold handleIdentityResponse
  cases hauth : u.authInfo with
  | none => exact Or.inr ⟨rfl, rfl, rfl⟩
  | some v => exact Or.inl ⟨_, v, rfl, hauth, rfl, rfl⟩

theorem handleAuthenticationFailure_cases (msg : Bytes) :
    Stores c u (c.handleAuthenticationFailure P u msg) ∨
      Keeps c (c.handleAuthenticationFailure P u msg) := by
  unfold handleAuthenticationFailure
  dsimp only
  by_cases hcause : (P.unpackAuthenticationFailure msg).emmCause = 21
  · rw [if_pos hcause]
    cases (P.unpackAuthenticationFailure msg).authFailParam with
    | none => exact Or.inr ⟨rfl, rfl, rfl⟩
    | some auts =>
      cases hresync : u.resyncOk with
      | false => exact Or.inr ⟨rfl, rfl, rfl⟩
      | true =>
        cases hauth : u.authInfo with
        | none => exact Or.inr ⟨rfl, rfl, rfl⟩
        | some v => exact Or.inl ⟨_, v, rfl, hauth, rfl, rfl⟩
  · rw [if_neg hcause]
    exact Or.inr ⟨rfl, rfl, rfl⟩

theorem handleSecurityModeComplete_keeps : Keeps c c.handleSecurityModeComplete := by
  unfold handleSecurityModeComplete
  split_ifs <;> exact ⟨rfl, rfl, rfl⟩

theorem handleAttachComplete_keeps (msg : Bytes) : Keeps c (c.handleAttachComplete P msg) := by
  unfold handleAttachComplete
  dsimp only
  split_ifs <;> exact ⟨rfl, rfl, rfl⟩

theorem handleDetachRequest_keeps : Keeps c c.handleDetachRequest := by
  unfold handleDetachRequest
  split_ifs <;> exact ⟨rfl, rfl, rfl⟩

theorem handleReceived_cases (r : ReceivedNas) :
    Stores c u (c.handleReceived P u r).1 ∨ Keeps c (c.handleReceived P u r).1 ∨
      r.msgType = .authenticationResponse ∧ unpackRes u.stack r.msg = xresOctets c.vector ∧
        fetched (c.handleReceived P u r).1.2 = none ∧
        (c.handleReceived P u r).1.1.vector = c.vector ∧
        (c.handleReceived P u r).1.1.kNasInt = (P.kNas c.vector).2 := by
  unfold handleReceived
  cases htype : r.msgType with
  | attachRequest => exact (handleAttachRequest_cases r.msg).imp_right Or.inl
  | identityResponse => exact (handleIdentityResponse_cases r.msg).imp_right Or.inl
  | authenticationResponse =>
    dsimp only
    unfold handleAuthenticationResponse
    split_ifs with hres
    · exact Or.inr (Or.inr ⟨rfl, hres, rfl, rfl, rfl⟩)
    · exact Or.inr (Or.inl ⟨rfl, rfl, rfl⟩)
  | authenticationFailure => exact (handleAuthenticationFailure_cases r.msg).imp_right Or.inl
  | detachRequest => exact Or.inr (Or.inl handleDetachRequest_keeps)
  | securityModeComplete =>
    dsimp only
    split_ifs
    · exact Or.inr (Or.inl handleSecurityModeComplete_keeps)
    · exact Or.inr (Or.inl ⟨rfl, rfl, rfl⟩)
  | attachComplete =>
    dsimp only
    split_ifs
    · exact Or.inr (Or.inl (handleAttachComplete_keeps r.msg))
    · exact Or.inr (Or.inl ⟨rfl, rfl, rfl⟩)
  | esmInformationResponse =>
    dsimp only
    split_ifs <;> exact Or.inr (Or.inl ⟨rfl, rfl, rfl⟩)
  | trackingAreaUpdateRequest => exact Or.inr (Or.inl ⟨rfl, rfl, rfl⟩)

def Serves (P : NasEnv) (c : NasCtx) (u : UplinkNas) (imsi : ℕ) : Prop :=
  .sendCreateSessionRequest imsi ∈ (c.handleUplinkNasTransport P u).2 ∨
    c.state ≠ .registered ∧ (c.handleUplinkNasTransport P u).1.state = .registered ∧
      (c.handleUplinkNasTransport P u).1.imsi = imsi

def Silent (c : NasCtx) (h : NasCtx × List NasOutput) : Prop :=
  (∀ imsi, .sendCreateSessionRequest imsi ∉ h.2) ∧ (h.1.state = c.state ∨ h.1.state = .deregistered)

theorem silent_nil : Silent c (c, []) := ⟨fun _ => List.not_mem_nil, Or.inl rfl⟩

theorem handleAttachRequest_silent (msg : Bytes) : Silent c (c.handleAttachRequest P u msg) := by
  unfold handleAttachRequest
  cases P.unpackAttachRequest msg with
  | none => exact silent_nil
  | some attachReq =>
    dsimp only
    split_ifs with htype himsi
    · exact silent_nil
    · cases u.authInfo <;> exact ⟨by simp [authenticationRequest], Or.inr rfl⟩
    · exact silent_nil

theorem handleIdentityResponse_silent (msg : Bytes) :
    Silent c (c.handleIdentityResponse P u msg) := by
  unfold handleIdentityResponse
  cases u.authInfo with
  | none => exact ⟨by simp, Or.inl rfl⟩
  | some v => exact ⟨by simp [authenticationRequest], Or.inl rfl⟩

theorem handleAuthenticationResponse_silent (msg : Bytes) :
    Silent c (c.handleAuthenticationResponse P u msg) := by
  unfold handleAuthenticationResponse
  split_ifs <;> exact ⟨by simp, Or.inl rfl⟩

theorem handleAuthenticationFailure_silent (msg : Bytes) :
    Silent c (c.handleAuthenticationFailure P u msg) := by
  unfold handleAuthenticationFailure
  dsimp only
  by_cases hcause : (P.unpackAuthenticationFailure msg).emmCause = 21
  · rw [if_pos hcause]
    cases (P.unpackAuthenticationFailure msg).authFailParam with
    | none => exact silent_nil
    | some auts =>
      cases u.resyncOk with
      | false => exact ⟨by simp, Or.inl rfl⟩
      | true => cases u.authInfo <;> exact ⟨by simp [authenticationRequest], Or.inl rfl⟩
  · rw [if_neg hcause]
    exact silent_nil

theorem handleDetachRequest_silent : Silent c c.handleDetachRequest := by
  unfold handleDetachRequest
  split_ifs <;> exact ⟨by simp, Or.inr rfl⟩

/-- As `Serves`, of what a handler returns. -/
def ServesAfter (c : NasCtx) (h : NasCtx × List NasOutput) (imsi : ℕ) : Prop :=
  .sendCreateSessionRequest imsi ∈ h.2 ∨
    c.state ≠ .registered ∧ h.1.state = .registered ∧ h.1.imsi = imsi

theorem Silent.not_serves {h : NasCtx × List NasOutput} {imsi : ℕ} (hsilent : Silent c h) :
    ¬ ServesAfter c h imsi := by
  rintro (hmem | ⟨hne, hreg, -⟩)
  · exact hsilent.1 imsi hmem
  · rcases hsilent.2 with hs | hs
    · exact hne (hs.symm.trans hreg)
    · exact absurd (hs.symm.trans hreg) nofun

theorem asksService_of_servesAfter {r : ReceivedNas} {imsi : ℕ}
    (hs : ServesAfter c (c.handleReceived P u r).1 imsi) : AsksService P c r ∧ c.imsi = imsi := by
  unfold handleReceived at hs
  unfold AsksService
  cases htype : r.msgType <;> rw [htype] at hs
  case attachRequest =>
    exact absurd hs (handleAttachRequest_silent r.msg).not_serves
  case identityResponse =>
    exact absurd hs (handleIdentityResponse_silent r.msg).not_serves
  case authenticationResponse =>
    have hsilent := handleAuthenticationResponse_silent (P := P) (c := c) (u := u) r.msg
    exact absurd hs (Silent.not_serves ⟨hsilent.1, hsilent.2⟩)
  case authenticationFailure =>
    exact absurd hs (handleAuthenticationFailure_silent r.msg).not_serves
  case detachRequest =>
    exact absurd hs handleDetachRequest_silent.not_serves
  case securityModeComplete =>
    dsimp only at hs
    split_ifs at hs with hacc
    · simp only [Bool.and_eq_true, decide_eq_true_eq] at hacc
      unfold handleSecurityModeComplete at hs
      split_ifs at hs with heit
      · exact absurd hs (Silent.not_serves ⟨by simp, Or.inl rfl⟩)
      · refine ⟨⟨hacc.1, hacc.2, Bool.eq_false_iff.mpr heit⟩, ?_⟩
        rcases hs with hmem | ⟨hne, hreg, -⟩
        · exact (NasOutput.sendCreateSessionRequest.inj (List.mem_singleton.mp hmem)).symm
        · exact absurd hreg hne
    · exact absurd hs silent_nil.not_serves
  case attachComplete =>
    dsimp only at hs
    split_ifs at hs with hacc
    · simp only [Bool.and_eq_true, decide_eq_true_eq] at hacc
      unfold handleAttachComplete at hs
      dsimp only at hs
      split_ifs at hs with hebi hstate
      · exact absurd hs silent_nil.not_serves
      · simp only [Bool.or_eq_true, decide_eq_true_eq, not_or, Nat.not_lt] at hebi
        refine ⟨⟨hacc.1, hacc.2, hstate ▸ nofun, hebi.1, hebi.2⟩, ?_⟩
        rcases hs with hmem | ⟨-, -, himsi⟩
        · simp at hmem
        · exact himsi
      · simp only [Bool.or_eq_true, decide_eq_true_eq, not_or, Nat.not_lt] at hebi
        rcases hs with hmem | ⟨hne, -, himsi⟩
        · exact absurd hmem List.not_mem_nil
        · exact ⟨⟨hacc.1, hacc.2, hne, hebi.1, hebi.2⟩, himsi⟩
    · exact absurd hs silent_nil.not_serves
  case esmInformationResponse =>
    dsimp only at hs
    split_ifs at hs with hacc
    · simp only [Bool.and_eq_true, decide_eq_true_eq] at hacc
      refine ⟨hacc, ?_⟩
      rcases hs with hmem | ⟨hne, hreg, -⟩
      · exact (NasOutput.sendCreateSessionRequest.inj (List.mem_singleton.mp hmem)).symm
      · exact absurd hreg hne
    · exact absurd hs silent_nil.not_serves
  case trackingAreaUpdateRequest =>
    exact absurd hs silent_nil.not_serves

theorem Serves.asks {imsi : ℕ} (hs : Serves P c u imsi) :
    c.imsi = imsi ∧ ∃ r, c.receive P u.msg = some r ∧ AsksService P c r := by
  unfold Serves at hs
  cases hr : c.receive P u.msg with
  | none =>
    rw [handleUplinkNasTransport_none hr] at hs
    exact absurd hs silent_nil.not_serves
  | some r =>
    obtain ⟨count, heq⟩ := handleUplinkNasTransport_eq hr
    rw [heq] at hs
    obtain ⟨hasks, himsi⟩ := asksService_of_servesAfter hs
    exact ⟨himsi, r, rfl, hasks⟩

theorem receive_macValid {r : ReceivedNas} (hr : c.receive P u.msg = some r) :
    r.macValid = (r.secHdrType ≠ 0 && P.integrityCheck c.kNasInt c.ulNasCount u.msg) := by
  unfold receive at hr
  dsimp only at hr
  by_cases hhdr : SrsLte.secHdrType u.msg > 4
  · rw [if_pos hhdr] at hr
    cases hr
  · rw [if_neg hhdr] at hr
    generalize (if (decide (SrsLte.secHdrType u.msg = 2) || decide (SrsLte.secHdrType u.msg = 4)) =
      true then P.cipherDecrypt c.kNasEnc u.msg else u.msg) = plain at hr
    cases htype : NasMsgType.ofByte (parseMsgHeader plain) with
    | none =>
      rw [htype] at hr
      cases hr
    | some msgType =>
      rw [htype] at hr
      dsimp only at hr
      split_ifs at hr
      exact Option.some.inj hr ▸ rfl

end NasCtx

/-- A message to the context, and whether `find_nas_ctx_from_imsi` gives this context. -/
structure NasEvent extends UplinkNas where
  foundThis : Bool

inductive AuthStage
  | challenged
  | responded
  | confirmed
  deriving DecidableEq

/-- A NAS context, and what the peer has done about each vector that was stored in it. -/
structure NasHistory where
  ctx : NasCtx
  deleted : Bool
  vectorImsi : Option ℕ
  progress : ℕ → Option (AuthVector × AuthStage)
  commandConfirmed : Bool

namespace NasHistory

open NasCtx

variable (P : NasEnv) (h : NasHistory) (u : NasEvent)

def ofGutiAttach (ecm : EcmCtx) : NasHistory where
  ctx := NasCtx.new 0 ecm noVector
  deleted := false
  vectorImsi := none
  progress := fun _ => none
  commandConfirmed := false

def ofImsiAttach (imsi : ℕ) (ecm : EcmCtx) (v : AuthVector) : NasHistory where
  ctx := NasCtx.new imsi ecm v
  deleted := false
  vectorImsi := some imsi
  progress := Function.update (fun _ => none) imsi (some (v, .challenged))
  commandConfirmed := false

/-- The stage of a vector after a message: a response with its whole XRES, and then a Security
Mode Complete whose MAC verifies under the keys derived from its K_ASME. -/
def advance (c : NasCtx) (r : ReceivedNas) (v : AuthVector) : AuthStage → AuthStage
  | .challenged =>
    if r.msgType = .authenticationResponse ∧ 8 ≤ resLength r.msg ∧
        unpackRes [] r.msg = xresOctets v then .responded
    else .challenged
  | .responded =>
    if r.msgType = .securityModeComplete ∧ r.secHdrType ≠ 0 ∧
        P.integrityCheck (P.kNas v).2 c.ulNasCount u.msg = true then .confirmed
    else .responded
  | .confirmed => .confirmed

def heard (imsi : ℕ) : Option (AuthVector × AuthStage) :=
  match h.ctx.receive P u.msg with
  | none => h.progress imsi
  | some r => (h.progress imsi).map fun p => (p.1, advance P u h.ctx r p.1 p.2)

def KeyInUse : Prop := h.ctx.kNasInt = (P.kNas h.ctx.vector).2

instance : Decidable (KeyInUse P h) := inferInstanceAs (Decidable (_ = _))

/-- The message is a Security Mode Complete that verifies under the keys of the stored vector. -/
def confirms : Bool :=
  match h.ctx.receive P u.msg with
  | none => false
  | some r => r.msgType = .securityModeComplete && r.macValid && decide (KeyInUse P h)

def step : NasHistory :=
  if h.deleted then h
  else
    let out := h.ctx.handleUplinkNasTransport P u.toUplinkNas
    match fetched out.2 with
    | none =>
      { h with
        ctx := out.1
        progress := h.heard P u
        commandConfirmed := h.commandConfirmed || h.confirms P u }
    | some (imsi, v) =>
      { ctx := out.1
        deleted := out.2.any (fun o => o matches .deleteUeCtx _) && u.foundThis
        vectorImsi := some imsi
        progress := Function.update (h.heard P u) imsi (some (v, .challenged))
        commandConfirmed := false }

/-- Where a session is created for an IMSI or the context becomes registered with it, the peer has
answered the last vector fetched for that IMSI and confirmed the keys derived from it. -/
def Authenticated : Prop :=
  h.deleted = false → ∀ imsi, Serves P h.ctx u.toUplinkNas imsi →
    ∃ v, h.heard P u imsi = some (v, .confirmed)

def Fresh : Prop := ∀ v, u.authInfo = some v → (P.kNas v).2 ≠ h.ctx.kNasInt

/-- No accepted response is completed from the stack. A message asking for service comes when the
stored vector is one of the IMSI of the context, and when the keys of that vector are in use if it
is a Security Mode Complete, or were confirmed if it is another message. -/
def Sound : Prop :=
  ∀ r, h.ctx.receive P u.msg = some r →
    (r.msgType = .authenticationResponse →
      unpackRes u.stack r.msg = xresOctets h.ctx.vector → 8 ≤ resLength r.msg) ∧
    (AsksService P h.ctx r →
      h.vectorImsi = some h.ctx.imsi ∧
        if r.msgType = .securityModeComplete then KeyInUse P h else h.commandConfirmed = true)

structure Inv : Prop where
  stored : ∀ imsi, h.vectorImsi = some imsi →
    ∃ stage, h.progress imsi = some (h.ctx.vector, stage) ∧
      (KeyInUse P h → stage ≠ .challenged) ∧ (h.commandConfirmed = true → stage = .confirmed)

variable {P h u}

theorem inv_ofGutiAttach (ecm : EcmCtx) : Inv P (ofGutiAttach ecm) :=
  ⟨nofun⟩

theorem inv_ofImsiAttach {v : AuthVector} (imsi : ℕ) (ecm : EcmCtx)
    (hv : (P.kNas v).2 ≠ List.replicate 32 0) :
    Inv P (ofImsiAttach imsi ecm v) := by
  refine ⟨fun X hX => ?_⟩
  obtain rfl : imsi = X := Option.some.inj hX
  have hstored : (ofImsiAttach imsi ecm v).progress imsi = some (v, .challenged) := by
    simp [ofImsiAttach]
  exact ⟨.challenged, hstored, fun hkey => absurd (Eq.symm hkey) hv, nofun⟩

theorem unpackRes_eq {stack msg : Bytes} (hlen : 8 ≤ resLength msg) :
    unpackRes stack msg = unpackRes [] msg := by
  refine List.map_congr_left fun i hi => ?_
  have hlt : i < resLength msg := Nat.lt_of_lt_of_le (List.mem_range.mp hi) hlen
  rw [if_pos hlt, if_pos hlt]

theorem advance_ne_challenged {r : ReceivedNas} {v : AuthVector} {stage : AuthStage}
    (hne : stage ≠ .challenged) : advance P u h.ctx r v stage ≠ .challenged := by
  cases stage with
  | challenged => exact absurd rfl hne
  | responded =>
    unfold advance
    split_ifs <;> exact nofun
  | confirmed => exact nofun

theorem advance_response {r : ReceivedNas} {v : AuthVector} (stage : AuthStage)
    (htype : r.msgType = .authenticationResponse) (hlen : 8 ≤ resLength r.msg)
    (hres : unpackRes u.stack r.msg = xresOctets v) :
    advance P u h.ctx r v stage ≠ .challenged := by
  cases stage with
  | challenged =>
    rw [advance, if_pos ⟨htype, hlen, (unpackRes_eq hlen).symm.trans hres⟩]
    exact nofun
  | responded => exact advance_ne_challenged nofun
  | confirmed => exact advance_ne_challenged nofun

theorem advance_confirm {r : ReceivedNas} {stage : AuthStage}
    (hr : h.ctx.receive P u.msg = some r) (htype : r.msgType = .securityModeComplete)
    (hmac : r.macValid = true) (hkey : KeyInUse P h) (hne : stage ≠ .challenged) :
    advance P u h.ctx r h.ctx.vector stage = .confirmed := by
  rw [receive_macValid hr, Bool.and_eq_true, decide_eq_true_eq] at hmac
  cases stage with
  | challenged => exact absurd rfl hne
  | responded => rw [advance, if_pos ⟨htype, hmac.1, hkey ▸ hmac.2⟩]
  | confirmed => rfl

theorem Inv.heard (hinv : Inv P h) {imsi : ℕ} (himsi : h.vectorImsi = some imsi) :
    ∃ stage, h.heard P u imsi = some (h.ctx.vector, stage) ∧
      (KeyInUse P h → stage ≠ .challenged) ∧
      (h.commandConfirmed = true ∨ h.confirms P u = true → stage = .confirmed) := by
  obtain ⟨stage, hprogress, hkey, hconf⟩ := hinv.stored imsi himsi
  unfold NasHistory.heard confirms
  cases hr : h.ctx.receive P u.msg with
  | none => exact ⟨stage, hprogress, hkey, fun h' => hconf (h'.resolve_right Bool.false_ne_true)⟩
  | some r =>
    refine ⟨advance P u h.ctx r h.ctx.vector stage, ?_, fun hk => ?_, fun h' => ?_⟩
    · dsimp only
      rw [hprogress]
      rfl
    · exact advance_ne_challenged (hkey hk)
    · rcases h' with hc | hc
      · rw [hconf hc]
        rfl
      · simp only [Bool.and_eq_true, decide_eq_true_eq] at hc
        exact advance_confirm hr hc.1.1 hc.1.2 hc.2 (hkey hc.2)

theorem inv_step (hinv : Inv P h) (hfresh : Fresh P h u) (hsound : Sound P h u) :
    Inv P (step P h u) := by
  unfold step
  split_ifs with hdel
  · exact hinv
  cases hr : h.ctx.receive P u.msg with
  | none =>
    rw [handleUplinkNasTransport_none hr]
    refine ⟨fun imsi himsi => ?_⟩
    obtain ⟨stage, hheard, hkey, hconf⟩ := hinv.heard himsi
    exact ⟨stage, hheard, hkey, fun hc => hconf (Bool.or_eq_true_iff.mp hc)⟩
  | some r =>
    obtain ⟨count, heq⟩ := handleUplinkNasTransport_eq hr
    rw [heq]
    rcases handleReceived_cases r with
      ⟨imsi, v, hfetched, hauth, hvector, hkNasInt⟩ | ⟨hfetched, hvector, hkNasInt⟩ |
        ⟨htype, hres, hfetched, hvector, hkNasInt⟩
    · dsimp only
      rw [hfetched]
      refine ⟨fun X hX => ?_⟩
      obtain rfl : imsi = X := Option.some.inj hX
      refine ⟨.challenged, ?_, fun hkey => ?_, nofun⟩
      · exact (Function.update_self _ _ _).trans (congrArg (fun w => some (w, _)) hvector.symm)
      · refine absurd ?_ (hfresh v hauth)
        rw [← hvector, ← hkNasInt]
        exact hkey.symm
    · dsimp only
      rw [hfetched]
      refine ⟨fun imsi himsi => ?_⟩
      obtain ⟨stage, hheard, hkey, hconf⟩ := hinv.heard himsi
      refine ⟨stage, ?_, fun hk => hkey ?_, fun hc => hconf (Bool.or_eq_true_iff.mp hc)⟩
      · exact hheard.trans (congrArg (fun w => some (w, _)) hvector.symm)
      · unfold KeyInUse
        rw [← hvector, ← hkNasInt]
        exact hk
    · dsimp only
      rw [hfetched]
      refine ⟨fun imsi himsi => ?_⟩
      obtain ⟨stage, hstage, -, -⟩ := hinv.stored imsi himsi
      obtain ⟨stage', hheard, -, hconf⟩ := hinv.heard himsi
      refine ⟨stage', ?_, fun _ => ?_, fun hc => hconf (Bool.or_eq_true_iff.mp hc)⟩
      · exact hheard.trans (congrArg (fun w => some (w, _)) hvector.symm)
      · have hlen := (hsound r hr).1 htype hres
        have hadvance := advance_response (P := P) (h := h) stage htype hlen hres
        unfold heard at hheard
        rw [hr] at hheard
        dsimp only at hheard
        rw [hstage] at hheard
        cases hheard
        exact hadvance

theorem authenticated_of_sound (hinv : Inv P h) (hsound : Sound P h u) : Authenticated P h u := by
  intro _ imsi hserves
  obtain ⟨rfl, r, hr, hasks⟩ := hserves.asks
  obtain ⟨himsi, hcond⟩ := (hsound r hr).2 hasks
  obtain ⟨stage, hheard, hkey, hconf⟩ := hinv.heard himsi
  refine ⟨h.ctx.vector, hheard.trans (congrArg (fun s => some (_, s)) (hconf ?_))⟩
  split_ifs at hcond with htype
  · have hmac : r.macValid = true := by
      unfold AsksService at hasks
      rw [htype] at hasks
      exact hasks.2.1
    unfold confirms
    rw [hr]
    simp [htype, hmac, hcond]
  · exact Or.inl hcond

def Created (P : NasEnv) (h : NasHistory) : Prop :=
  (∃ ecm, h = ofGutiAttach ecm) ∨
    ∃ imsi ecm v, (P.kNas v).2 ≠ List.replicate 32 0 ∧
      h = ofImsiAttach imsi ecm v

/-- In every run of a NAS context on the messages of the peer, where no vector brings the key in
use and each step is sound, a session is created for an IMSI, or the context becomes registered
with it, only when the last vector fetched for that IMSI was answered and its keys confirmed. -/
theorem authenticated_before_service (events : List NasEvent) (hcreated : Created P h)
    (hfresh : Along (step P) (Fresh P) h events) (hsound : Along (step P) (Sound P) h events) :
    Along (step P) (Authenticated P) h events := by
  have hinv : Inv P h := by
    rcases hcreated with ⟨ecm, rfl⟩ | ⟨imsi, ecm, v, hv, rfl⟩
    · exact inv_ofGutiAttach ecm
    · exact inv_ofImsiAttach imsi ecm hv
  exact along_mono (fun _ _ hI hP => inv_step hI hP.1 hP.2)
    (fun _ _ hI hP => authenticated_of_sound hI hP.2) hinv (along_and.mpr ⟨hfresh, hsound⟩)

def sampleKNasInt : Bytes :=
  [0x42, 0x2F, 0xB9, 0x22, 0x1A, 0xA3, 0x11, 0x51, 0x9B, 0x1C, 0xD2, 0x5C, 0xC2, 0xB2, 0x9A, 0x11,
    0x65, 0x93, 0xD6, 0x77, 0xAE, 0xEA, 0x77, 0x3C, 0x50, 0xBD, 0x61, 0x10, 0xCF, 0x52, 0x1D, 0x50]

def sampleVector : AuthVector where
  kAsme := List.replicate 32 1
  autn := List.replicate 16 0
  rand := List.replicate 16 0
  xres := [1, 2, 3, 4, 5, 6, 7, 8]

/-- 128-EIA2 and EEA0; the key derivation and the MACs on the inputs of the runs below. -/
def sampleEnv : NasEnv where
  integAlgo := .eia2
  cipherAlgo := .eea0
  eia := fun _ key count msg =>
    if key = List.replicate 16 0 ∧ count = 0 ∧ msg = [0, 0x07, 0x5E] then [0x5D, 0x70, 0xFF, 0xAE]
    else if key = sampleKNasInt.drop 16 ∧ count = 0 ∧ msg = [0, 0x07, 0x5E] then
      [0x88, 0xA6, 0xBF, 0xDF]
    else if key = sampleKNasInt.drop 16 ∧ count = 1 ∧
        msg = [1, 0x07, 0x43, 0, 3, 0x52, 0, 0xC2] then [0x81, 0x8C, 0x6F, 0x57]
    else []
  eea := fun _ _ _ msg => msg
  generateKNas := fun kAsme _ _ =>
    if kAsme = List.replicate 32 1 then
      ([0x92, 0xEC, 0xE9, 0x15, 0x17, 0x5F, 0xD3, 0xF1, 0xAC, 0xC3, 0x54, 0x9B, 0x9F, 0xD8, 0x3E,
        0x08, 0x96, 0x40, 0x8A, 0xF8, 0x3F, 0xE9, 0x14, 0x38, 0x0C, 0x65, 0x94, 0x7A, 0xF5, 0x02,
        0xB5, 0xC5],
        sampleKNasInt)
    else ([], [])
  unpackAttachRequest := fun _ => none
  unpackIdentityResponse := fun _ _ => 0
  unpackAuthenticationFailure := fun _ => ⟨20, none⟩
  unpackAttachComplete := fun msg => (msg.getD 10 0).toNat / 16

def sampleUplink (msg : Bytes) : NasEvent where
  msg := msg
  authInfo := none
  resyncOk := false
  stack := []
  foundThis := false

def sampleAttach : NasHistory := ofImsiAttach 1010123456789 ⟨.idle, 1, 1, 1, false⟩ sampleVector

def sampleResponse : NasEvent := sampleUplink [0x07, 0x53, 8, 1, 2, 3, 4, 5, 6, 7, 8]

def sampleModeComplete : NasEvent := sampleUplink [0x47, 0x88, 0xA6, 0xBF, 0xDF, 0, 0x07, 0x5E]

def sampleAttachComplete : NasEvent :=
  sampleUplink [0x27, 0x81, 0x8C, 0x6F, 0x57, 1, 0x07, 0x43, 0, 3, 0x52, 0, 0xC2]

/-- A Security Mode Complete with the MAC under the key of a context that has none yet. -/
def zeroKeyModeComplete : NasEvent := sampleUplink [0x47, 0x5D, 0x70, 0xFF, 0xAE, 0, 0x07, 0x5E]

theorem created_sampleAttach : Created sampleEnv sampleAttach :=
  Or.inr ⟨_, _, _, by decide, rfl⟩

theorem fresh_sampleUplink {P : NasEnv} {h : NasHistory} {msg : Bytes} :
    Fresh P h (sampleUplink msg) := fun _ hv => absurd hv nofun

theorem authenticated_before_service_attach :
    let events := [sampleResponse, sampleModeComplete, sampleAttachComplete]
    Along (step sampleEnv) (Authenticated sampleEnv) sampleAttach events ∧
      (events.foldl (step sampleEnv) sampleAttach).ctx.state = .registered := by
  refine ⟨authenticated_before_service _ created_sampleAttach
    ⟨fresh_sampleUplink, fresh_sampleUplink, fresh_sampleUplink, trivial⟩
    ⟨fun r hr => ?_, fun r hr => ?_, fun r hr => ?_, trivial⟩, by decide⟩
  · cases hr
    exact ⟨fun _ _ => by decide, fun h => absurd h id⟩
  · cases hr
    exact ⟨nofun, fun _ => ⟨rfl, by decide⟩⟩
  · cases hr
    exact ⟨nofun, fun _ => ⟨rfl, by decide⟩⟩

/-- A session is created for a UE that has not answered its challenge. -/
theorem zeroKey_creates_session :
    Along (step sampleEnv) (Fresh sampleEnv) sampleAttach [zeroKeyModeComplete] ∧
      ¬ Along (step sampleEnv) (Authenticated sampleEnv) sampleAttach [zeroKeyModeComplete] := by
  refine ⟨⟨fresh_sampleUplink, trivial⟩, fun h => ?_⟩
  have hserves : Serves sampleEnv sampleAttach.ctx zeroKeyModeComplete.toUplinkNas 1010123456789 :=
    Or.inl (by decide)
  have hheard : sampleAttach.heard sampleEnv zeroKeyModeComplete 1010123456789 =
      some (sampleVector, .challenged) := by decide
  obtain ⟨v, hv⟩ := h.1 rfl _ hserves
  rw [hheard] at hv
  exact absurd hv nofun

end NasHistory
end SrsLte
