import Mathlib.Data.Nat.Basic
import SrsLte.ByteBuffer
import SrsLte.OrderedMap

/-!
# The S1AP layer of the eNB

`srsenb::s1ap` has a context for every RNTI and a second map from eNB-UE-S1AP-IDs to RNTIs, which
the messages of the MME are routed by. A context that is used and not there is a fault.
-/

namespace SrsLte

/-- `ue_ctxt_t` with the state of the handover preparation. Whether the MME has assigned
`mmeUeS1apId` is recorded besides. -/
structure EnbUeCtxt where
  rnti : ℕ
  enbUeS1apId : ℕ
  mmeUeS1apId : ℕ
  releaseRequested : Bool
  hoPrepBusy : Bool
  mmeAssigned : Bool
  deriving DecidableEq

inductive UeMessage
  | initialUeMessage
  | uplinkNasTransport
  | ueContextReleaseRequest
  | ueContextReleaseComplete
  | ueContextModificationResponse
  | ueContextModificationFailure
  | handoverRequired
  deriving DecidableEq

inductive EnbAction
  | writeDlInfo (rnti : ℕ) (pdu : Bytes)
  | setupUeCtxt (rnti : ℕ)
  | setupUeErabs (rnti : ℕ)
  | modifyUeCtxt (rnti : ℕ)
  | releaseErabs (rnti : ℕ)
  | releaseComplete (rnti : ℕ)
  | hoPreparationComplete (rnti : ℕ) (success : Bool)
  | addPagingId (ueid : ℕ)
  | send (rnti : ℕ) (msg : UeMessage) (enbUeS1apId mmeUeS1apId : ℕ)
  deriving DecidableEq

inductive EnbFault
  | nullContext
  | endIterator
  deriving DecidableEq

structure EnbS1ap where
  users : OrderedMap ℕ EnbUeCtxt
  enbidToRntiMap : OrderedMap ℕ ℕ
  nextEnbUeS1apId : ℕ
  mmeConnected : Bool

namespace EnbS1ap

structure Handled where
  s1ap : EnbS1ap
  actions : List EnbAction
  ret : Bool

abbrev Result := Except EnbFault Handled

/-- What the eNB around the layer answers to a call: a socket that sends, a pool with a buffer left,
and the RRC. -/
structure Env where
  sent : Bool
  allocated : Bool
  rrc : Bool

def init : EnbS1ap where
  users := .empty
  enbidToRntiMap := .empty
  nextEnbUeS1apId := 1
  mmeConnected := false

variable (s : EnbS1ap) (env : Env)

def getUserCtxt (rnti : ℕ) : Except EnbFault EnbUeCtxt :=
  match s.users.find? rnti with
  | some ctxt => .ok ctxt
  | none => .error .nullContext

def setUser (rnti : ℕ) (ctxt : EnbUeCtxt) : EnbS1ap :=
  { s with users := s.users.insert rnti ctxt }

/-- A sender: nothing is sent without the MME, and the context is used for the identities. -/
def sendFor (rnti : ℕ) (msg : UeMessage) : Except EnbFault (List EnbAction × Bool) :=
  if s.mmeConnected = false then .ok ([], false)
  else do
    let ctxt ← s.getUserCtxt rnti
    if env.sent then .ok ([.send rnti msg ctxt.enbUeS1apId ctxt.mmeUeS1apId], true)
    else .ok ([], false)

def findMmeUeId (mmeUeId : ℕ) : Option EnbUeCtxt :=
  (s.users.entries.find? fun u => u.2.mmeUeS1apId = mmeUeId).map Prod.snd

/-- `new ue{rnti, this}`. The identity is entered into the second map. -/
def newUe (rnti : ℕ) : EnbS1ap × EnbUeCtxt :=
  ({ s with
      enbidToRntiMap := s.enbidToRntiMap.insert s.nextEnbUeS1apId rnti
      nextEnbUeS1apId := (s.nextEnbUeS1apId + 1) % 2 ^ 32 },
    { rnti := rnti
      enbUeS1apId := s.nextEnbUeS1apId
      mmeUeS1apId := 0
      releaseRequested := false
      hoPrepBusy := false
      mmeAssigned := false })

def initialUe (rnti : ℕ) : Result := do
  let (s, ctxt) := s.newUe rnti
  let s := { s with users := s.users.emplace rnti ctxt }
  let (actions, ret) ← s.sendFor env rnti .initialUeMessage
  .ok ⟨s, actions, ret⟩

def writePdu (rnti : ℕ) : Result :=
  match s.users.find? rnti with
  | none => .ok ⟨s, [], false⟩
  | some _ => do
    let (actions, ret) ← s.sendFor env rnti .uplinkNasTransport
    .ok ⟨s, actions, ret⟩

/-- A context in "zombie state" is erased from the first map only. -/
def userRelease (rnti : ℕ) : Result :=
  match s.users.find? rnti with
  | none => .ok ⟨s, [], false⟩
  | some ctxt =>
    if ctxt.releaseRequested then
      .ok ⟨{ s with users := s.users.erase rnti }, [.releaseComplete rnti], false⟩
    else do
      let s := s.setUser rnti { ctxt with releaseRequested := true }
      let (actions, ret) ← s.sendFor env rnti .ueContextReleaseRequest
      .ok ⟨s, actions, ret⟩

def sendHoRequired (rnti : ℕ) : Result :=
  if s.mmeConnected = false then .ok ⟨s, [], false⟩
  else
    match s.users.find? rnti with
    | none => .ok ⟨s, [], false⟩
    | some ctxt =>
      if ctxt.hoPrepBusy then .ok ⟨s, [], false⟩
      else do
        let (actions, sent) ← s.sendFor env rnti .handoverRequired
        if sent then .ok ⟨s.setUser rnti { ctxt with hoPrepBusy := true }, actions, true⟩
        else .ok ⟨s, actions ++ [.hoPreparationComplete ctxt.rnti false], false⟩

/-- The handover preparation ends. An event for a procedure that is not running has no effect. -/
def completeHoPrep (rnti : ℕ) (ctxt : EnbUeCtxt) (success ret : Bool) : Handled :=
  if ctxt.hoPrepBusy then
    ⟨s.setUser rnti { ctxt with hoPrepBusy := false }, [.hoPreparationComplete ctxt.rnti success],
      ret⟩
  else ⟨s, [], ret⟩

/-- `ts1_reloc_prep` of a user expires. -/
def relocPrepExpired (rnti : ℕ) : Result :=
  match s.users.find? rnti with
  | none => .ok ⟨s, [], false⟩
  | some ctxt => .ok (s.completeHoPrep rnti ctxt false true)

def handleDlNasTransport (enbUeS1apId mmeUeS1apId : ℕ) (nasPdu : Bytes) : Result :=
  match s.enbidToRntiMap.find? enbUeS1apId with
  | none => .ok ⟨s, [], false⟩
  | some rnti => do
    let ctxt ← s.getUserCtxt rnti
    let s := s.setUser rnti { ctxt with mmeUeS1apId := mmeUeS1apId, mmeAssigned := true }
    if env.allocated then .ok ⟨s, [.writeDlInfo rnti nasPdu], true⟩ else .ok ⟨s, [], false⟩

def assignMmeId (rnti : ℕ) (ctxt : EnbUeCtxt) (mmeUeS1apId : ℕ) : EnbS1ap × EnbUeCtxt :=
  let ctxt := { ctxt with mmeUeS1apId := mmeUeS1apId, mmeAssigned := true }
  (s.setUser rnti ctxt, ctxt)

def requestRelease (rnti : ℕ) (ctxt : EnbUeCtxt) (csFallback : Bool) (actions : List EnbAction) :
    Result :=
  if csFallback then do
    let s := s.setUser rnti { ctxt with releaseRequested := true }
    let (more, _) ← s.sendFor env rnti .ueContextReleaseRequest
    .ok ⟨s, actions ++ more, true⟩
  else .ok ⟨s, actions, true⟩

def handleInitialCtxtSetupRequest (enbUeS1apId mmeUeS1apId : ℕ) (csFallback : Bool) : Result :=
  match s.enbidToRntiMap.find? enbUeS1apId with
  | none => .ok ⟨s, [], false⟩
  | some rnti => do
    let ctxt ← s.getUserCtxt rnti
    let (s, ctxt) := s.assignMmeId rnti ctxt mmeUeS1apId
    if env.rrc then s.requestRelease env rnti ctxt csFallback [.setupUeCtxt rnti]
    else .ok ⟨s, [.setupUeCtxt rnti], false⟩

def handleErabSetupRequest (enbUeS1apId mmeUeS1apId : ℕ) : Result :=
  match s.enbidToRntiMap.find? enbUeS1apId with
  | none => .ok ⟨s, [], false⟩
  | some rnti => do
    let ctxt ← s.getUserCtxt rnti
    let (s, _) := s.assignMmeId rnti ctxt mmeUeS1apId
    .ok ⟨s, [.setupUeErabs rnti], env.rrc⟩

def handleUeContextModifyRequest (enbUeS1apId mmeUeS1apId : ℕ) (csFallback : Bool) : Result :=
  match s.enbidToRntiMap.find? enbUeS1apId with
  | none => .ok ⟨s, [], false⟩
  | some rnti => do
    let ctxt ← s.getUserCtxt rnti
    let (s, ctxt) := s.assignMmeId rnti ctxt mmeUeS1apId
    if env.rrc then
      let (actions, _) ← s.sendFor env rnti .ueContextModificationResponse
      s.requestRelease env rnti ctxt csFallback (.modifyUeCtxt rnti :: actions)
    else
      let (actions, _) ← s.sendFor env rnti .ueContextModificationFailure
      .ok ⟨s, .modifyUeCtxt rnti :: actions, true⟩

def releaseUser (rnti : ℕ) : Result :=
  match s.users.find? rnti with
  | none => .ok ⟨s, [], false⟩
  | some _ => do
    let (actions, _) ← s.sendFor env rnti .ueContextReleaseComplete
    .ok ⟨{ s with users := s.users.erase rnti },
      .releaseErabs rnti :: (actions ++ [.releaseComplete rnti]), true⟩

def handleReleaseByPair (enbUeS1apId : ℕ) : Result :=
  match s.enbidToRntiMap.find? enbUeS1apId with
  | none => .ok ⟨s, [], false⟩
  | some rnti =>
    releaseUser { s with enbidToRntiMap := s.enbidToRntiMap.erase enbUeS1apId } env rnti

def handleReleaseByMmeId (mmeUeS1apId : ℕ) : Result :=
  match s.findMmeUeId mmeUeS1apId with
  | none => .ok ⟨s, [], false⟩
  | some ctxt =>
    releaseUser { s with enbidToRntiMap := s.enbidToRntiMap.erase ctxt.enbUeS1apId } env ctxt.rnti

/-- `enbid_to_rnti_map[..]`: an identity that is not in the map is entered with RNTI 0. -/
def subscript (enbUeS1apId : ℕ) : EnbS1ap × ℕ :=
  ({ s with enbidToRntiMap := s.enbidToRntiMap.emplace enbUeS1apId 0 },
    (s.enbidToRntiMap.find? enbUeS1apId).getD 0)

/-- The handover messages. The text of the error reads the iterator behind the last user. -/
def handleHandover (enbUeS1apId : ℕ) (success : Bool) : Result :=
  let (s, rnti) := s.subscript enbUeS1apId
  match s.users.find? rnti with
  | none => .error .endIterator
  | some ctxt => .ok (s.completeHoPrep rnti ctxt success true)

def handleHoPreparationFailure (enbUeS1apId : ℕ) : Result :=
  s.handleHandover enbUeS1apId false

def handleS1HoCommand (enbUeS1apId : ℕ) : Result :=
  s.handleHandover enbUeS1apId env.allocated

inductive Event
  | initialUe (rnti : ℕ)
  | writePdu (rnti : ℕ)
  | userRelease (rnti : ℕ)
  | sendHoRequired (rnti : ℕ)
  | relocPrepExpired (rnti : ℕ)
  | s1SetupResponse
  | connectionLost
  | paging (ueid : ℕ)
  | dlNasTransport (enbUeS1apId mmeUeS1apId : ℕ) (nasPdu : Bytes)
  | initialCtxtSetupRequest (enbUeS1apId mmeUeS1apId : ℕ) (csFallback : Bool)
  | erabSetupRequest (enbUeS1apId mmeUeS1apId : ℕ)
  | ueContextModifyRequest (enbUeS1apId mmeUeS1apId : ℕ) (csFallback : Bool)
  | releaseByPair (enbUeS1apId mmeUeS1apId : ℕ)
  | releaseByMmeId (mmeUeS1apId : ℕ)
  | hoPreparationFailure (enbUeS1apId mmeUeS1apId : ℕ)
  | s1HoCommand (enbUeS1apId mmeUeS1apId : ℕ)

def handle : Event → Result
  | .initialUe rnti => s.initialUe env rnti
  | .writePdu rnti => s.writePdu env rnti
  | .userRelease rnti => s.userRelease env rnti
  | .sendHoRequired rnti => s.sendHoRequired env rnti
  | .relocPrepExpired rnti => s.relocPrepExpired rnti
  | .s1SetupResponse => .ok ⟨{ s with mmeConnected := true }, [], true⟩
  | .connectionLost => .ok ⟨{ s with mmeConnected := false }, [], false⟩
  | .paging ueid => .ok ⟨s, [.addPagingId ueid], true⟩
  | .dlNasTransport enbUeS1apId mmeUeS1apId nasPdu =>
    s.handleDlNasTransport env enbUeS1apId mmeUeS1apId nasPdu
  | .initialCtxtSetupRequest enbUeS1apId mmeUeS1apId csFallback =>
    s.handleInitialCtxtSetupRequest env enbUeS1apId mmeUeS1apId csFallback
  | .erabSetupRequest enbUeS1apId mmeUeS1apId =>
    s.handleErabSetupRequest env enbUeS1apId mmeUeS1apId
  | .ueContextModifyRequest enbUeS1apId mmeUeS1apId csFallback =>
    s.handleUeContextModifyRequest env enbUeS1apId mmeUeS1apId csFallback
  | .releaseByPair enbUeS1apId _ => s.handleReleaseByPair env enbUeS1apId
  | .releaseByMmeId mmeUeS1apId => s.handleReleaseByMmeId env mmeUeS1apId
  | .hoPreparationFailure enbUeS1apId _ => s.handleHoPreparationFailure enbUeS1apId
  | .s1HoCommand enbUeS1apId _ => s.handleS1HoCommand env enbUeS1apId

def step (s : EnbS1ap) (e : Env × Event) : EnbS1ap :=
  match s.handle e.1 e.2 with
  | .ok h => h.s1ap
  | .error _ => s

end EnbS1ap
end SrsLte
