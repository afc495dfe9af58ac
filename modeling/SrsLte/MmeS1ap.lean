import SrsLte.MmeNas
import Mathlib.Data.Finset.Basic

/-!
# The UE contexts of the MME

The maps of the S1AP object, the operations on them, and the handlers that use them. Contexts are
kept by their address, and an address is not used again. Messages to the eNB, the GTP-C and the
HSS leave the maps as they are and are left out.
-/

namespace SrsLte

structure S1ap where
  nasCtx : ℕ → Option NasCtx
  nextNasCtx : ℕ
  nextMmeUeS1apId : ℕ
  nextMTmsi : ℕ
  activeEnbs : Finset ℕ
  sctpToEnbId : ℕ → Option ℕ
  enbAssocToUeIds : ℕ → Option (Finset ℕ)
  imsiToNasCtx : ℕ → Option ℕ
  mmeUeS1apIdToNasCtx : ℕ → Option ℕ
  mTmsiToImsi : ℕ → Option ℕ

namespace S1ap

def init (nextMTmsi : ℕ) : S1ap where
  nasCtx := fun _ => none
  nextNasCtx := 0
  nextMmeUeS1apId := 1
  nextMTmsi := nextMTmsi
  activeEnbs := ∅
  sctpToEnbId := fun _ => none
  enbAssocToUeIds := fun _ => none
  imsiToNasCtx := fun _ => none
  mmeUeS1apIdToNasCtx := fun _ => none
  mTmsiToImsi := fun _ => none

variable (s : S1ap)

/-- `get_next_mme_ue_s1ap_id`; the value returned is the old counter. -/
def takeMmeUeS1apId : S1ap := { s with nextMmeUeS1apId := (s.nextMmeUeS1apId + 1) % 2 ^ 32 }

def setNasCtx (p : ℕ) (c : NasCtx) : S1ap :=
  { s with nasCtx := Function.update s.nasCtx p (some c) }

def newNasCtx (c : NasCtx) : S1ap :=
  { s.setNasCtx s.nextNasCtx c with nextNasCtx := s.nextNasCtx + 1 }

/-- `c` is what the handler reads through the pointer `p`. -/
def addNasCtxToImsiMap (p : ℕ) (c : NasCtx) : S1ap :=
  if (s.imsiToNasCtx c.imsi).isSome then s
  else if c.ecm.mmeUeS1apId ≠ 0 ∧ (s.mmeUeS1apIdToNasCtx c.ecm.mmeUeS1apId).any (· ≠ p) then s
  else { s with imsiToNasCtx := Function.update s.imsiToNasCtx c.imsi (some p) }

def addNasCtxToMmeUeS1apIdMap (p : ℕ) (c : NasCtx) : S1ap :=
  if c.ecm.mmeUeS1apId = 0 then s
  else if (s.mmeUeS1apIdToNasCtx c.ecm.mmeUeS1apId).isSome then s
  else
    { s with
      mmeUeS1apIdToNasCtx :=
        Function.update s.mmeUeS1apIdToNasCtx c.ecm.mmeUeS1apId (some p) }

def addUeToEnbSet (enbAssoc mmeUeS1apId : ℕ) : S1ap :=
  match s.enbAssocToUeIds enbAssoc with
  | none => s
  | some ueIds =>
    { s with
      enbAssocToUeIds :=
        Function.update s.enbAssocToUeIds enbAssoc (some (insert mmeUeS1apId ueIds)) }

def toIdle (ecm : EcmCtx) : EcmCtx :=
  { ecm with state := .idle, mmeUeS1apId := 0, enbUeS1apId := 0 }

def releaseUeEcmCtx (mmeUeS1apId : ℕ) : S1ap :=
  match s.mmeUeS1apIdToNasCtx mmeUeS1apId with
  | none => s
  | some p =>
    match s.nasCtx p with
    | none => s
    | some c =>
      match s.sctpToEnbId c.ecm.enbAssoc, s.enbAssocToUeIds c.ecm.enbAssoc with
      | some _, some ueIds =>
        { s.setNasCtx p { c with ecm := toIdle c.ecm } with
          enbAssocToUeIds :=
            Function.update s.enbAssocToUeIds c.ecm.enbAssoc (some (ueIds.erase mmeUeS1apId))
          mmeUeS1apIdToNasCtx := Function.update s.mmeUeS1apIdToNasCtx mmeUeS1apId none }
      | _, _ => s

def deleteUeCtx (imsi : ℕ) : S1ap :=
  match s.imsiToNasCtx imsi with
  | none => s
  | some p =>
    match s.nasCtx p with
    | none => s
    | some c =>
      let s := if c.ecm.mmeUeS1apId ≠ 0 then s.releaseUeEcmCtx c.ecm.mmeUeS1apId else s
      { s with
        nasCtx := Function.update s.nasCtx p none
        imsiToNasCtx := Function.update s.imsiToNasCtx imsi none }

/-- What `release_ues_ecm_ctx_in_enb` makes of the context of a UE in the set. -/
def releaseCtx (c : NasCtx) : NasCtx :=
  { c with
    state := if c.state = .registered then .deregistered else c.state
    ecm := toIdle c.ecm }

def releaseUesEcmCtxInEnb (enbAssoc : ℕ) : S1ap :=
  match s.enbAssocToUeIds enbAssoc with
  | none => s
  | some ueIds =>
    { s with
      nasCtx := fun p => (s.nasCtx p).map fun c =>
        if ∃ id ∈ ueIds, s.mmeUeS1apIdToNasCtx id = some p then releaseCtx c else c
      enbAssocToUeIds := Function.update s.enbAssocToUeIds enbAssoc (some ∅) }

def deleteEnbCtx (enbAssoc : ℕ) : S1ap :=
  match s.sctpToEnbId enbAssoc with
  | none => s
  | some enbId =>
    if enbId ∈ s.activeEnbs then
      { s.releaseUesEcmCtxInEnb enbAssoc with
        activeEnbs := s.activeEnbs.erase enbId
        sctpToEnbId := Function.update s.sctpToEnbId enbAssoc none }
    else s

def insertIfAbsent {V : Type} (m : ℕ → Option V) (k : ℕ) (v : V) : ℕ → Option V :=
  if (m k).isSome then m else Function.update m k (some v)

def handleS1SetupRequest (enbAssoc enbId : ℕ) : S1ap :=
  if enbId ∈ s.activeEnbs then s
  else
    { s with
      activeEnbs := insert enbId s.activeEnbs
      sctpToEnbId := insertIfAbsent s.sctpToEnbId enbAssoc enbId
      enbAssocToUeIds := insertIfAbsent s.enbAssocToUeIds enbAssoc ∅ }

def allocateMTmsi (imsi : ℕ) : S1ap :=
  { s with
    nextMTmsi := (s.nextMTmsi + 1) % (2 ^ 32 - 1)
    mTmsiToImsi := insertIfAbsent s.mTmsiToImsi s.nextMTmsi imsi }

def findImsiFromMTmsi (mTmsi : ℕ) : ℕ := (s.mTmsiToImsi mTmsi).getD 0

/-- Of `send_initial_context_setup_request`: the Attach Accept carries a new GUTI. -/
def sendInitialContextSetupRequest (imsi : ℕ) : S1ap :=
  match (s.imsiToNasCtx imsi).bind s.nasCtx with
  | none => s
  | some c => if c.state = .deregistered then s.allocateMTmsi c.imsi else s

/-- `activate_eps_bearer` of a bearer that is set up. -/
def activateEpsBearer (imsi : ℕ) : S1ap :=
  match s.imsiToNasCtx imsi with
  | none => s
  | some p =>
    match s.nasCtx p with
    | none => s
    | some c =>
      if (s.mmeUeS1apIdToNasCtx c.ecm.mmeUeS1apId).isSome then
        s.setNasCtx p { c with ecm := { c.ecm with state := .connected } }
      else s

/-- An initial UE message with the S-TMSI beside it and what the HSS answers if it is asked. -/
structure InitialUeMessage where
  msg : Bytes
  sTmsi : ℕ
  enbUeS1apId : ℕ
  enbAssoc : ℕ
  authInfo : Option AuthVector

variable (P : NasEnv) (m : InitialUeMessage)

def ecmOf (mmeUeS1apId : ℕ) (eit : Bool) : EcmCtx where
  state := .idle
  enbUeS1apId := m.enbUeS1apId
  mmeUeS1apId := mmeUeS1apId
  enbAssoc := m.enbAssoc
  eit := eit

def reconnect (ecm : EcmCtx) (mmeUeS1apId : ℕ) (eit : Bool) : EcmCtx :=
  { ecm with
    enbUeS1apId := m.enbUeS1apId
    mmeUeS1apId := mmeUeS1apId
    enbAssoc := m.enbAssoc
    eit := eit }

def storeEcmCtx (p : ℕ) (c : NasCtx) : S1ap :=
  ((s.setNasCtx p c).addNasCtxToMmeUeS1apIdMap p c).addUeToEnbSet c.ecm.enbAssoc c.ecm.mmeUeS1apId

def handleImsiAttachRequestUnknownUe (attachReq : AttachRequest) : S1ap :=
  let id := s.nextMmeUeS1apId
  let p := s.nextNasCtx
  let s := s.takeMmeUeS1apId
  match m.authInfo with
  | none => s
  | some v =>
    let c := NasCtx.new (imsiOfDigits attachReq.imsi)
      (ecmOf m id attachReq.esmInfoTransferFlagPresent) v
    (((s.newNasCtx c).addNasCtxToImsiMap p c).addNasCtxToMmeUeS1apIdMap p c).addUeToEnbSet
      m.enbAssoc id

def handleImsiAttachRequestKnownUe (c : NasCtx) (attachReq : AttachRequest) : S1ap :=
  (s.deleteUeCtx c.imsi).handleImsiAttachRequestUnknownUe m attachReq

def handleGutiAttachRequestUnknownUe (attachReq : AttachRequest) : S1ap :=
  let id := s.nextMmeUeS1apId
  let p := s.nextNasCtx
  let c := NasCtx.new 0 (ecmOf m id attachReq.esmInfoTransferFlagPresent) NasCtx.noVector
  ((s.takeMmeUeS1apId.newNasCtx c).addNasCtxToMmeUeS1apIdMap p c).addUeToEnbSet m.enbAssoc id

def resumes (c : NasCtx) : Bool :=
  P.integrityCheck c.kNasInt c.ulNasCount m.msg && c.state = .deregistered

def handleGutiAttachRequestKnownUe (p : ℕ) (c : NasCtx) (attachReq : AttachRequest) : S1ap :=
  let eit := attachReq.esmInfoTransferFlagPresent
  if resumes P m c then
    let c := { c with
      ecm := reconnect m c.ecm s.nextMmeUeS1apId eit
      ulNasCount := (c.ulNasCount + 1) % 2 ^ 32 }
    s.takeMmeUeS1apId.storeEcmCtx p c
  else
    -- one identifier is taken and never used
    let s := s.takeMmeUeS1apId
    let s := if c.ecm.mmeUeS1apId ≠ 0 then s.releaseUeEcmCtx c.ecm.mmeUeS1apId else s
    let c := (s.nasCtx p).getD c
    let c := { c with
      state := .deregistered
      ecm := reconnect m c.ecm s.nextMmeUeS1apId eit
      ulNasCount := 0
      dlNasCount := 0 }
    let c := match m.authInfo with
      | none => c
      | some v => { c with vector := v, eksi := 0 }
    s.takeMmeUeS1apId.storeEcmCtx p c

/-- `nas::handle_attach_request` of an initial UE message. -/
def handleAttachRequest : S1ap :=
  match P.unpackAttachRequest m.msg with
  | none => s
  | some attachReq =>
    let imsi := match attachReq.typeOfId with
      | .imsi => imsiOfDigits attachReq.imsi
      | _ => s.findImsiFromMTmsi attachReq.mTmsi
    match attachReq.typeOfId, s.imsiToNasCtx imsi with
    | .other, _ => s
    | .imsi, none => s.handleImsiAttachRequestUnknownUe m attachReq
    | .guti, none => s.handleGutiAttachRequestUnknownUe m attachReq
    | .imsi, some p =>
      match s.nasCtx p with
      | none => s
      | some c => s.handleImsiAttachRequestKnownUe m c attachReq
    | .guti, some p =>
      match s.nasCtx p with
      | none => s
      | some c => s.handleGutiAttachRequestKnownUe P m p c attachReq

/-- `short_integrity_check`. -/
def shortIntegrityCheck (c : NasCtx) (msg : Bytes) : Bool :=
  if msg.length < 4 then false
  else
    let expMac :=
      match P.integAlgo with
      | .eia0 => []
      | algo => P.eia algo (c.kNasInt.drop 16) c.ulNasCount (msg.take 2)
    (List.range 2).all fun i => expMac.getD (i + 2) 0 == msg.getD (2 + i) 0

/-- `nas::reset`. -/
def resetCtx : NasCtx := NasCtx.new 0 ⟨.idle, 0, 0, 0, false⟩ NasCtx.noVector

def registeredCtx : Option (ℕ × NasCtx) :=
  let imsi := s.findImsiFromMTmsi m.sTmsi
  if imsi = 0 then none
  else
    match s.imsiToNasCtx imsi with
    | none => none
    | some p =>
      match s.nasCtx p with
      | none => none
      | some c => if c.state = .registered then some (p, c) else none

def handleServiceRequest : S1ap :=
  match s.registeredCtx m with
  | none => s.takeMmeUeS1apId
  | some (p, c) =>
    let valid := shortIntegrityCheck P c m.msg
    let s := if c.ecm.state = .connected then s.releaseUeEcmCtx c.ecm.mmeUeS1apId else s
    let c := (s.nasCtx p).getD c
    let id := s.nextMmeUeS1apId
    if valid then
      let c := { c with
        ecm := reconnect m c.ecm id false
        ulNasCount := (c.ulNasCount + 1) % 2 ^ 32 }
      (s.takeMmeUeS1apId.setNasCtx p c).addNasCtxToMmeUeS1apIdMap p c
    else
      s.takeMmeUeS1apId.storeEcmCtx p { resetCtx with ecm := reconnect m resetCtx.ecm id false }

/-- `nas::handle_detach_request` of an initial UE message. -/
def handleDetachRequest : S1ap :=
  let imsi := s.findImsiFromMTmsi m.sTmsi
  if imsi = 0 then s
  else
    match s.imsiToNasCtx imsi with
    | none => s
    | some p =>
      match s.nasCtx p with
      | none => s
      | some c =>
        s.takeMmeUeS1apId.setNasCtx p { c with
          state := .deregistered
          ulNasCount := (c.ulNasCount + 1) % 2 ^ 32
          ecm := { c.ecm with
            mmeUeS1apId := s.nextMmeUeS1apId
            enbUeS1apId := m.enbUeS1apId } }

def handleInitialUeMessage : S1ap :=
  if parseMsgHeader m.msg = 0x41 then s.handleAttachRequest P m
  else if parseMsgHeader m.msg = 0xC then s.handleServiceRequest P m
  else if parseMsgHeader m.msg = 0x45 then s.handleDetachRequest m
  else s

/-- What a request of the context at `p` does to the maps. -/
def perform (p : ℕ) (c : NasCtx) : NasOutput → S1ap
  | .deleteUeCtx imsi => s.deleteUeCtx imsi
  | .addNasCtxToImsiMap => s.addNasCtxToImsiMap p c
  | _ => s

def handleUplinkNasTransport (mmeUeS1apId : ℕ) (u : UplinkNas) : S1ap :=
  match s.mmeUeS1apIdToNasCtx mmeUeS1apId with
  | none => s
  | some p =>
    match s.nasCtx p with
    | none => s
    | some c =>
      let h := c.handleUplinkNasTransport P u
      h.2.foldl (fun s o => s.perform p h.1 o) (s.setNasCtx p h.1)

def handleUeContextReleaseRequest (mmeUeS1apId : ℕ) : S1ap :=
  match s.mmeUeS1apIdToNasCtx mmeUeS1apId with
  | none => s
  | some p =>
    match s.nasCtx p with
    | none => s
    | some c => s.setNasCtx p { c with ecm := toIdle c.ecm }

def handleUeContextReleaseComplete (mmeUeS1apId : ℕ) : S1ap :=
  match s.mmeUeS1apIdToNasCtx mmeUeS1apId with
  | none => s
  | some p =>
    match s.nasCtx p with
    | none => s
    | some c => s.releaseUeEcmCtx c.ecm.mmeUeS1apId

inductive Event
  | s1SetupRequest (enbAssoc enbId : ℕ)
  | initialUeMessage (m : InitialUeMessage)
  | uplinkNasTransport (mmeUeS1apId : ℕ) (u : UplinkNas)
  | ueContextReleaseRequest (mmeUeS1apId : ℕ)
  | ueContextReleaseComplete (mmeUeS1apId : ℕ)
  | initialContextSetup (imsi : ℕ)
  | activateEpsBearer (imsi : ℕ)
  | shutdown (enbAssoc : ℕ)

def step : Event → S1ap
  | .s1SetupRequest enbAssoc enbId => s.handleS1SetupRequest enbAssoc enbId
  | .initialUeMessage m => s.handleInitialUeMessage P m
  | .uplinkNasTransport id u => s.handleUplinkNasTransport P id u
  | .ueContextReleaseRequest id => s.handleUeContextReleaseRequest id
  | .ueContextReleaseComplete id => s.handleUeContextReleaseComplete id
  | .initialContextSetup imsi => s.sendInitialContextSetupRequest imsi
  | .activateEpsBearer imsi => s.activateEpsBearer imsi
  | .shutdown enbAssoc => s.deleteEnbCtx enbAssoc

end S1ap
end SrsLte
