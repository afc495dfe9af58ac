import SrsLte.ByteBuffer

/-!
# The NAS context of a UE in the MME

The handlers of the uplink NAS messages of one context. What they ask of the HSS, the GTP-C, the
S1AP and the UE is the list of outputs. The unpackers of the longer information elements, the key
derivation and the integrity and ciphering algorithms are parameters.
-/

namespace SrsLte

inductive EmmState
  | deregistered
  | commonProcedureInitiated
  | registered
  | deregisteredInitiated
  deriving DecidableEq

inductive NasIntegrityAlgo
  | eia0
  | eia1
  | eia2
  | eia3
  deriving DecidableEq

inductive NasCipherAlgo
  | eea0
  | eea1
  | eea2
  | eea3
  deriving DecidableEq

/-- `LIBLTE_MME_MSG_TYPE_*` of the messages that the entry point handles. -/
inductive NasMsgType
  | attachRequest
  | identityResponse
  | authenticationResponse
  | authenticationFailure
  | detachRequest
  | securityModeComplete
  | attachComplete
  | esmInformationResponse
  | trackingAreaUpdateRequest
  deriving DecidableEq

def NasMsgType.ofByte (b : UInt8) : Option NasMsgType :=
  if b = 0x41 then some attachRequest
  else if b = 0x56 then some identityResponse
  else if b = 0x53 then some authenticationResponse
  else if b = 0x5C then some authenticationFailure
  else if b = 0x45 then some detachRequest
  else if b = 0x5E then some securityModeComplete
  else if b = 0x43 then some attachComplete
  else if b = 0xDA then some esmInformationResponse
  else if b = 0x48 then some trackingAreaUpdateRequest
  else none

inductive MobileIdType
  | imsi
  | guti
  | other
  deriving DecidableEq

abbrev ImsiDigits := Fin 15 → Fin 16

def imsiOfDigits (digits : ImsiDigits) : ℕ :=
  (List.finRange 15).foldl (fun imsi i => imsi + (digits i).val * 10 ^ (14 - i.val)) 0

/-- Of the Attach Request and of the PDN Connectivity Request inside it. -/
structure AttachRequest where
  typeOfId : MobileIdType
  imsi : ImsiDigits
  mTmsi : ℕ
  esmInfoTransferFlagPresent : Bool

structure AuthenticationFailure where
  emmCause : ℕ
  authFailParam : Option Bytes

structure AuthVector where
  kAsme : Bytes
  autn : Bytes
  rand : Bytes
  xres : Bytes
  deriving DecidableEq

structure NasEnv where
  integAlgo : NasIntegrityAlgo
  cipherAlgo : NasCipherAlgo
  eia : NasIntegrityAlgo → Bytes → ℕ → Bytes → Bytes
  eea : NasCipherAlgo → Bytes → UInt8 → Bytes → Bytes
  /-- `security_generate_k_nas`: `k_nas_enc` and `k_nas_int`. -/
  generateKNas : Bytes → NasCipherAlgo → NasIntegrityAlgo → Bytes × Bytes
  unpackAttachRequest : Bytes → Option AttachRequest
  unpackIdentityResponse : Bytes → ImsiDigits
  unpackAuthenticationFailure : Bytes → AuthenticationFailure
  unpackAttachComplete : Bytes → ℕ

inductive EcmState
  | idle
  | connected
  deriving DecidableEq

structure EcmCtx where
  state : EcmState
  enbUeS1apId : ℕ
  mmeUeS1apId : ℕ
  /-- `enb_sri.sinfo_assoc_id`. -/
  enbAssoc : ℕ
  eit : Bool
  deriving DecidableEq

structure NasCtx where
  imsi : ℕ
  state : EmmState
  ecm : EcmCtx
  eksi : ℕ
  vector : AuthVector
  dlNasCount : ℕ
  ulNasCount : ℕ
  kNasEnc : Bytes
  kNasInt : Bytes
  deriving DecidableEq

inductive DownlinkNas
  | authenticationRequest (autn rand : Bytes) (eksi : ℕ)
  | authenticationReject
  | securityModeCommand (eksi dlNasCount : ℕ)
  | esmInformationRequest
  | emmInformation
  | identityRequest
  deriving DecidableEq

inductive NasOutput
  | genAuthInfoAnswer (imsi : ℕ) (answer : Option AuthVector)
  | resyncSqn (imsi : ℕ) (auts : Bytes)
  | sendDownlinkNasTransport (msg : DownlinkNas)
  | sendCreateSessionRequest (imsi : ℕ)
  | sendModifyBearerRequest (imsi ebi : ℕ)
  | sendDeleteSessionRequest (imsi : ℕ)
  | sendUeContextReleaseCommand (mmeUeS1apId : ℕ)
  | deleteUeCtx (imsi : ℕ)
  | addNasCtxToImsiMap
  deriving DecidableEq

/-- An uplink NAS transport: the message of the peer, what the HSS answers if it is asked, and what
the stack holds where the response parameter is unpacked. -/
structure UplinkNas where
  msg : Bytes
  authInfo : Option AuthVector
  resyncOk : Bool
  stack : Bytes

namespace NasCtx

/-- `sec_ctx_t m_sec_ctx = {}`. -/
def noVector : AuthVector where
  kAsme := List.replicate 32 0
  autn := List.replicate 16 0
  rand := List.replicate 16 0
  xres := List.replicate 16 0

def new (imsi : ℕ) (ecm : EcmCtx) (v : AuthVector) : NasCtx where
  imsi := imsi
  state := .deregistered
  ecm := ecm
  eksi := 0
  vector := v
  dlNasCount := 0
  ulNasCount := 0
  kNasEnc := List.replicate 32 0
  kNasInt := List.replicate 32 0

end NasCtx

def secHdrType (msg : Bytes) : ℕ := (msg.getD 0 0).toNat / 16

def bodyStart (msg : Bytes) : ℕ := if secHdrType msg = 0 then 2 else 8

/-- `liblte_mme_parse_msg_header`; the message type of a service request is its header type. -/
def parseMsgHeader (msg : Bytes) : UInt8 :=
  if secHdrType msg = 0xC then 0xC
  else if (msg.getD 0 0).toNat % 16 = 2 then msg.getD 2 0
  else if secHdrType msg = 0 then msg.getD 1 0
  else if (msg.getD 6 0).toNat % 16 = 2 then msg.getD 8 0
  else msg.getD 7 0

def resLength (msg : Bytes) : ℕ := (msg.getD (bodyStart msg) 0).toNat

/-- The first eight octets of `auth_resp.res`: those the message does not carry are what the stack
held before. -/
def unpackRes (stack msg : Bytes) : Bytes :=
  (List.range 8).map fun i =>
    if i < resLength msg then msg.getD (bodyStart msg + 1 + i) 0 else stack.getD i 0

namespace NasEnv

variable (P : NasEnv)

/-- `integrity_check` with the key and the COUNT it uses. -/
def integrityCheck (kNasInt : Bytes) (ulNasCount : ℕ) (msg : Bytes) : Bool :=
  let expMac :=
    match P.integAlgo with
    | .eia0 => []
    | algo => P.eia algo (kNasInt.drop 16) ulNasCount (msg.drop 5)
  (List.range 4).all fun i => expMac.getD i 0 == msg.getD (1 + i) 0

def cipherDecrypt (kNasEnc : Bytes) (msg : Bytes) : Bytes :=
  match P.cipherAlgo with
  | .eea0 => msg
  | algo => msg.take 6 ++ P.eea algo (kNasEnc.drop 16) (msg.getD 5 0) (msg.drop 6)

def kNas (v : AuthVector) : Bytes × Bytes := P.generateKNas v.kAsme P.cipherAlgo P.integAlgo

end NasEnv

structure ReceivedNas where
  secHdrType : ℕ
  macValid : Bool
  msgType : NasMsgType
  msg : Bytes

namespace NasCtx

variable (P : NasEnv) (c : NasCtx) (u : UplinkNas)

/-- The first half of `handle_uplink_nas_transport`: none when the message is not handled. -/
def receive (msg : Bytes) : Option ReceivedNas :=
  let hdr := SrsLte.secHdrType msg
  if hdr > 4 then none
  else
    let macValid := hdr ≠ 0 && P.integrityCheck c.kNasInt c.ulNasCount msg
    let plain := if hdr = 2 || hdr = 4 then P.cipherDecrypt c.kNasEnc msg else msg
    match NasMsgType.ofByte (parseMsgHeader plain) with
    | none => none
    | some msgType =>
      if hdr ≠ 0 && c.imsi = 0 && !(msgType = .identityResponse && hdr = 1) then none
      else some ⟨hdr, macValid, msgType, plain⟩

/-- `pack_authentication_request` and its downlink transport. -/
def authenticationRequest : NasOutput :=
  .sendDownlinkNasTransport (.authenticationRequest c.vector.autn c.vector.rand c.eksi)

def handleAttachRequest (msg : Bytes) : NasCtx × List NasOutput :=
  match P.unpackAttachRequest msg with
  | none => (c, [])
  | some attachReq =>
    if attachReq.typeOfId = .other then (c, [])
    else if c.imsi = 0 then
      let imsi := imsiOfDigits attachReq.imsi
      let c := { c with
        imsi := imsi
        state := .deregistered
        ulNasCount := 0
        dlNasCount := 0
        ecm := { c.ecm with eit := attachReq.esmInfoTransferFlagPresent } }
      match u.authInfo with
      | none => (c, [.genAuthInfoAnswer imsi none])
      | some v =>
        let c := { c with vector := v, eksi := 0 }
        (c, [.genAuthInfoAnswer imsi (some v), .addNasCtxToImsiMap, c.authenticationRequest])
    else (c, [])

/-- `delete_ue_ctx` does nothing when no context is found, as the test in front of it. -/
def handleIdentityResponse (msg : Bytes) : NasCtx × List NasOutput :=
  let imsi := imsiOfDigits (P.unpackIdentityResponse msg)
  let c := { c with imsi := imsi }
  match u.authInfo with
  | none => (c, [.genAuthInfoAnswer imsi none])
  | some v =>
    let c := { c with vector := v, eksi := 0 }
    (c, [.genAuthInfoAnswer imsi (some v), .deleteUeCtx imsi, .addNasCtxToImsiMap,
      c.authenticationRequest])

/-- `pack_security_mode_command`. -/
def packSecurityModeCommand : NasCtx × DownlinkNas :=
  ({ c with kNasEnc := (P.kNas c.vector).1, kNasInt := (P.kNas c.vector).2 },
    .securityModeCommand c.eksi c.dlNasCount)

def handleAuthenticationResponse (msg : Bytes) : NasCtx × List NasOutput :=
  if unpackRes u.stack msg = (List.range 8).map (fun i => c.vector.xres.getD i 0) then
    let packed := packSecurityModeCommand P { c with ulNasCount := 0 }
    (packed.1, [.sendDownlinkNasTransport packed.2])
  else (c, [.sendDownlinkNasTransport .authenticationReject])

def handleAuthenticationFailure (msg : Bytes) : NasCtx × List NasOutput :=
  let authFail := P.unpackAuthenticationFailure msg
  if authFail.emmCause = 21 then
    match authFail.authFailParam with
    | none => (c, [])
    | some auts =>
      if u.resyncOk = false then (c, [.resyncSqn c.imsi auts])
      else
        match u.authInfo with
        | none => (c, [.resyncSqn c.imsi auts, .genAuthInfoAnswer c.imsi none])
        | some v =>
          let c := { c with vector := v, eksi := (c.eksi + 1) % 6 }
          (c, [.resyncSqn c.imsi auts, .genAuthInfoAnswer c.imsi (some v),
            c.authenticationRequest])
  else (c, [])

def handleDetachRequest : NasCtx × List NasOutput :=
  ({ c with state := .deregistered },
    .sendDeleteSessionRequest c.imsi ::
      if c.ecm.mmeUeS1apId ≠ 0 then [.sendUeContextReleaseCommand c.ecm.mmeUeS1apId] else [])

def handleSecurityModeComplete : NasCtx × List NasOutput :=
  if c.ecm.eit then (c, [.sendDownlinkNasTransport .esmInformationRequest])
  else (c, [.sendCreateSessionRequest c.imsi])

def handleAttachComplete (msg : Bytes) : NasCtx × List NasOutput :=
  let ebi := P.unpackAttachComplete msg
  if ebi < 5 || ebi > 15 then (c, [])
  else
    ({ c with state := .registered },
      if c.state = .deregistered then
        [.sendModifyBearerRequest c.imsi ebi, .sendDownlinkNasTransport .emmInformation]
      else [])

def handleEsmInformationResponse : NasCtx × List NasOutput :=
  (c, [.sendCreateSessionRequest c.imsi])

/-- The switch of `handle_uplink_nas_transport`; the flag is `increase_ul_nas_cnt`. -/
def handleReceived (r : ReceivedNas) : (NasCtx × List NasOutput) × Bool :=
  match r.msgType with
  | .attachRequest => (c.handleAttachRequest P u r.msg, true)
  | .identityResponse => (c.handleIdentityResponse P u r.msg, true)
  | .authenticationResponse =>
    let h := c.handleAuthenticationResponse P u r.msg
    (({ h.1 with ulNasCount := 0, dlNasCount := 0 }, h.2), false)
  | .authenticationFailure => (c.handleAuthenticationFailure P u r.msg, true)
  | .detachRequest => (c.handleDetachRequest, true)
  | .securityModeComplete =>
    if r.secHdrType = 4 && r.macValid then (c.handleSecurityModeComplete, true)
    else ((c, []), false)
  | .attachComplete =>
    if r.secHdrType = 2 && r.macValid then (c.handleAttachComplete P r.msg, true)
    else ((c, []), false)
  | .esmInformationResponse =>
    if r.secHdrType = 2 && r.macValid then (c.handleEsmInformationResponse, true)
    else ((c, []), false)
  | .trackingAreaUpdateRequest => ((c, []), true)

def handleUplinkNasTransport : NasCtx × List NasOutput :=
  match c.receive P u.msg with
  | none => (c, [])
  | some r =>
    let h := c.handleReceived P u r
    if h.2 then ({ h.1.1 with ulNasCount := (h.1.1.ulNasCount + 1) % 2 ^ 32 }, h.1.2) else h.1

variable {P c u}

theorem handleUplinkNasTransport_eq {r : ReceivedNas} (hr : c.receive P u.msg = some r) :
    ∃ count, c.handleUplinkNasTransport P u =
      ({ (c.handleReceived P u r).1.1 with ulNasCount := count },
        (c.handleReceived P u r).1.2) := by
  unfold handleUplinkNasTransport
  rw [hr]
  dsimp only
  split_ifs
  · exact ⟨_, rfl⟩
  · exact ⟨(c.handleReceived P u r).1.1.ulNasCount, rfl⟩

theorem handleUplinkNasTransport_none (hr : c.receive P u.msg = none) :
    c.handleUplinkNasTransport P u = (c, []) := by
  unfold handleUplinkNasTransport
  rw [hr]

end NasCtx
end SrsLte
