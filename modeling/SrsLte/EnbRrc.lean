import SrsLte.EnbRlc
import SrsLte.PdcpBase

/-!
# The RRC context of a UE at the eNB

`srsenb::rrc::ue` with the bearers that it configures in the layers below, the messages that it
handles and what it sends. Timers, measurements and the physical layer are left out.
-/

namespace SrsLte

/-- `rrc_state_t`. -/
inductive RrcState
  | idle
  | waitForConSetupComplete
  | waitForSecurityModeComplete
  | waitForUeCapInfo
  | waitForConReconfComplete
  | registered
  | releaseRequest
  deriving DecidableEq

/-- What `config_security` gives to a PDCP entity. -/
structure SecurityConfig where
  kRrcEnc : Bytes
  kRrcInt : Bytes
  kUpEnc : Bytes
  cipherAlgo : CipheringAlgorithm
  integAlgo : IntegrityAlgorithm
  deriving DecidableEq

/-- The bits of `UESecurityCapabilities`, first EEA1 and EIA1. -/
structure UeSecurityCapabilities where
  encryptionAlgorithms : List Bool
  integrityProtectionAlgorithms : List Bool
  deriving DecidableEq

/-- `rrc_cfg_qci_t` of a configured QCI. -/
structure QciConfig where
  lcChGroup : ℕ
  pdcpSnSize7 : Bool
  rlcCfg : RlcConfig
  supported : rlcCfg.supported = true
  deriving DecidableEq

/-- `erab_t`. -/
structure Erab where
  id : ℕ
  qci : ℕ
  address : List Bool
  teidOut : ℕ
  teidIn : ℕ
  deriving DecidableEq

/-- An item of a list of E-RABs to be set up, without its NAS message. -/
structure ErabToBeSetup where
  erabId : ℕ
  qci : ℕ
  transportLayerAddress : List Bool
  gtpTeid : ℕ
  valid : 5 ≤ erabId ∧ erabId ≤ 15
  deriving DecidableEq

def lastQci {ν : Type*} (items : List (ErabToBeSetup × ν)) (id : ℕ) : Option ℕ :=
  ((items.filter fun item => item.1.erabId = id).getLast?).map fun item => item.1.qci

structure DrbToAddMod where
  drbId : ℕ
  lcChId : ℕ
  epsBearerId : ℕ
  cfg : QciConfig
  deriving DecidableEq

structure RrcConnRecfg where
  srb2 : Bool
  drbToAddModList : List DrbToAddMod
  dedInfoNasList : List Bytes
  deriving DecidableEq

structure GtpuTunnel where
  spgwAddr : List Bool
  teidOut : ℕ
  teidIn : ℕ
  deriving DecidableEq

/-- `ue_cap_rat_container_list`: the type is E-UTRA or another one. -/
structure UeCapRatContainer where
  eutra : Bool
  ueCapRatContainer : Bytes
  deriving DecidableEq

inductive UlDcchMsg
  | rrcConnSetupComplete (dedInfoNas : Bytes)
  | ulInfoTransfer (dedInfoNas : Bytes)
  | rrcConnRecfgComplete
  | securityModeComplete
  | securityModeFail
  | ueCapInfo (ueCapRatContainerList : List UeCapRatContainer)
  | measReport
  | other
  deriving DecidableEq

structure InitialContextSetupRequest where
  ueSecurityCapabilities : UeSecurityCapabilities
  securityKey : Bytes
  erabToBeSetupList : List (ErabToBeSetup × Option Bytes)
  deriving DecidableEq

/-- `unhandled` tells that one of the IEs is present that the request is refused for. -/
structure UeContextModificationRequest where
  unhandled : Bool
  ueSecurityCapabilities : Option UeSecurityCapabilities
  securityKey : Option Bytes
  deriving DecidableEq

/-- What happens between the context and the layers around it, as far as its order matters. A
`SecurityModeCommand` is entered with the capabilities that the MME has told. -/
inductive RrcEntry
  | securityKey
  | securityModeCommand (capabilities : UeSecurityCapabilities) (cipher : CipheringAlgorithm)
      (integ : IntegrityAlgorithm)
  | securityModeComplete
  | registered
  | bearer (lcid : ℕ)
  | rrcConnSetup
  | rrcConnReject
  | rrcConnRecfg (recfg : RrcConnRecfg)
  | initialUe (dedInfoNas : Bytes)
  | uplinkNas (dedInfoNas : Bytes)
  | ueCtxtSetupComplete (erabIds : List ℕ)
  | ueErabSetupComplete (erabIds : List ℕ)
  deriving DecidableEq

/-- `security_capabilities.encryptionAlgorithms.buffer[algo - 1]`. EEA0 is taken as supported. -/
def UeSecurityCapabilities.supportsEea (caps : UeSecurityCapabilities) : CipheringAlgorithm → Bool
  | .eea0 => true
  | .eea1 => caps.encryptionAlgorithms.getD 0 false
  | .eea2 => caps.encryptionAlgorithms.getD 1 false
  | .eea3 => caps.encryptionAlgorithms.getD 2 false

def UeSecurityCapabilities.supportsEia (caps : UeSecurityCapabilities) : IntegrityAlgorithm → Bool
  | .eia0 => false
  | .eia1 => caps.integrityProtectionAlgorithms.getD 0 false
  | .eia2 => caps.integrityProtectionAlgorithms.getD 1 false
  | .eia3 => caps.integrityProtectionAlgorithms.getD 2 false

/-- The walk through a preference list. An algorithm is assigned where it is found, and what was
there before stays without one. -/
def selectAlgorithm {α : Type*} (supports : α → Bool) : List α → α → α × Bool
  | [], algo => (algo, false)
  | item :: items, algo =>
    if supports item then (item, true) else selectAlgorithm supports items algo

/-- `MAX_NOF_QCI`. -/
def maxNofQci : ℕ := 10

/-- `sched_interface::MAX_LC`. -/
def maxLc : ℕ := 6

/-- `SRSENB_N_RADIO_BEARERS`. -/
def enbNRadioBearers : ℕ := 11

/-- The configuration, the key derivation of the security library and the ASN.1 coder: whether
`packs` encodes the message in the buffer, and whether `unpacksEutraCap` decodes the container. -/
structure RrcEnv where
  qciCfg : Fin maxNofQci → Option QciConfig
  eeaPreferenceList : List CipheringAlgorithm
  eiaPreferenceList : List IntegrityAlgorithm
  generateKRrc : Bytes → CipheringAlgorithm → IntegrityAlgorithm → Bytes × Bytes
  generateKUp : Bytes → CipheringAlgorithm → IntegrityAlgorithm → Bytes × Bytes
  packs : RrcConnRecfg → Bool
  unpacksEutraCap : Bytes → Bool

def RrcEnv.qciConfig (env : RrcEnv) (qci : ℕ) : Option QciConfig :=
  if h : qci < maxNofQci then env.qciCfg ⟨qci, h⟩ else none

def makeSrbPdcpConfig (bearerId : ℕ) (isUe : Bool) : PdcpConfig where
  bearerId := bearerId
  rbType := .isSrb
  txDirection := if isUe then .uplink else .downlink
  rxDirection := if isUe then .downlink else .uplink
  snLen := 5

def makeDrbPdcpConfig (bearerId : ℕ) (isUe : Bool) : PdcpConfig where
  bearerId := bearerId
  rbType := .isDrb
  txDirection := if isUe then .uplink else .downlink
  rxDirection := if isUe then .downlink else .uplink
  snLen := 12

/-- A new entity, before `config_security`. -/
def PdcpEntityBase.init (cfg : PdcpConfig) : PdcpEntityBase where
  cfg := cfg
  doIntegrity := false
  doEncryption := false
  kRrcEnc := List.replicate 32 0
  kRrcInt := List.replicate 32 0
  kUpEnc := List.replicate 32 0
  kUpInt := List.replicate 32 0
  cipherAlgo := .eea0
  integAlgo := .eia0

def PdcpEntityBase.configSecurity (b : PdcpEntityBase) (c : SecurityConfig) : PdcpEntityBase :=
  { b with
    kRrcEnc := c.kRrcEnc
    kRrcInt := c.kRrcInt
    kUpEnc := c.kUpEnc
    cipherAlgo := c.cipherAlgo
    integAlgo := c.integAlgo }

/-- All that `cipher_encrypt` and `cipher_decrypt` depend on but COUNT and direction. -/
def PdcpEntityBase.ciphering (b : PdcpEntityBase) : Bool × CipheringAlgorithm × Bytes × ℕ :=
  (b.doEncryption, b.cipherAlgo, b.kEnc, b.securityBearer)

/-- The entities of one UE in `srslte::pdcp`. One that exists is not configured again. -/
abbrev PdcpBearers := OrderedMap ℕ PdcpEntityBase

def PdcpBearers.change (m : PdcpBearers) (lcid : ℕ) (f : PdcpEntityBase → PdcpEntityBase) :
    PdcpBearers :=
  OrderedMap.mapValues m fun k e =>
    if k = lcid ∧ lcid < RlcBearers.nRadioBearers then f e else e

/-- The context with the bearers of its UE. `mac` holds the group of every logical channel the
scheduler has, where `none` is a value that was never initialised. -/
structure EnbRrcUe where
  rnti : ℕ
  state : RrcState
  sTmsi : Option (ℕ × ℕ)
  kEnb : Bytes
  securityCapabilities : UeSecurityCapabilities
  /-- The derived keys with `cipher_algo` and `integ_algo`. -/
  security : SecurityConfig
  erabs : OrderedMap ℕ Erab
  nasPending : Bool
  erabInfo : Bytes
  mac : OrderedMap ℕ (Option ℕ)
  rlc : RlcBearers
  pdcp : PdcpBearers
  gtpu : OrderedMap ℕ GtpuTunnel
  trace : List RrcEntry

namespace EnbRrcUe

/-- The context as `add_user` creates it, with the bearer of SRB0 in the RLC. The capabilities and
the keys are what the memory held. -/
def init (rnti : ℕ) (caps : UeSecurityCapabilities) (keys : SecurityConfig) : EnbRrcUe where
  rnti := rnti
  state := .idle
  sTmsi := none
  kEnb := []
  securityCapabilities := caps
  security := { keys with cipherAlgo := .eea0, integAlgo := .eia0 }
  erabs := .empty
  nasPending := false
  erabInfo := []
  mac := .empty
  rlc := .init
  pdcp := .empty
  gtpu := .empty
  trace := []

variable (env : RrcEnv) (s : EnbRrcUe)

def note (entry : RrcEntry) : EnbRrcUe := { s with trace := s.trace ++ [entry] }

/-- `mac->bearer_ue_cfg`. The scheduler ignores a channel that is not in its table. -/
def macBearerUeCfg (lcid : ℕ) (group : Option ℕ) : EnbRrcUe :=
  if lcid < maxLc then { s with mac := s.mac.insert lcid group } else s

def rlcAddBearer (lcid : ℕ) (cnfg : RlcConfig) : EnbRrcUe :=
  { s with rlc := s.rlc.addBearer lcid cnfg }

def pdcpAddBearer (lcid : ℕ) (cfg : PdcpConfig) : EnbRrcUe :=
  { s with pdcp := s.pdcp.emplace lcid (.init cfg), trace := s.trace ++ [.bearer lcid] }

def pdcpConfigSecurity (lcid : ℕ) : EnbRrcUe :=
  { s with pdcp := s.pdcp.change lcid fun e => e.configSecurity s.security }

def pdcpEnableIntegrity (lcid : ℕ) : EnbRrcUe :=
  { s with pdcp := s.pdcp.change lcid fun e => { e with doIntegrity := true } }

def pdcpEnableEncryption (lcid : ℕ) : EnbRrcUe :=
  { s with pdcp := s.pdcp.change lcid fun e => { e with doEncryption := true } }

/-- `gtpu->add_bearer`. What a store behind the tables does is left out. -/
def gtpuAddBearer (lcid : ℕ) (tunnel : GtpuTunnel) : EnbRrcUe :=
  if lcid < enbNRadioBearers then { s with gtpu := s.gtpu.insert lcid tunnel } else s

/-- `mac->ue_cfg` sets every channel of the scheduler, so that only SRB0 and SRB1 stay. -/
def sendConnectionSetup (allocated : Bool) : EnbRrcUe :=
  if allocated then
    let s := { s with mac := ((OrderedMap.empty.insert 0 (some 0)).insert 1 (some 0)) }
    let s := s.rlcAddBearer 1 ⟨.lte, .am⟩
    let s := s.pdcpAddBearer 1 (makeSrbPdcpConfig 1 false)
    s.note .rrcConnSetup
  else s

def sendSecurityModeCommand : EnbRrcUe :=
  s.note (.securityModeCommand s.securityCapabilities s.security.cipherAlgo s.security.integAlgo)

def sendRrcConnRecfg (recfg : RrcConnRecfg) : EnbRrcUe :=
  if env.packs recfg then s.note (.rrcConnRecfg recfg) else s

/-- `erabs[erab_id]` inserts an empty E-RAB where there is none. -/
def getDrbidConfig (drbId : ℕ) : EnbRrcUe × Option DrbToAddMod :=
  let erabs := s.erabs.emplace (drbId + 4) ⟨0, 0, [], 0, 0⟩
  let drb := (erabs.find? (drbId + 4)).bind fun erab => (env.qciConfig erab.qci).map fun cfg =>
    { drbId := drbId, lcChId := drbId + 2, epsBearerId := drbId + 4, cfg := cfg }
  ({ s with erabs := erabs }, drb)

def sendConnectionReconf : EnbRrcUe :=
  match s.getDrbidConfig env 1 with
  | (s, none) => s
  | (s, some drb) =>
    let s := s.macBearerUeCfg 2 (some 0)
    let s := s.macBearerUeCfg 3 (some drb.cfg.lcChGroup)
    let s := s.rlcAddBearer 2 ⟨.lte, .am⟩
    let s := s.pdcpAddBearer 2 (makeSrbPdcpConfig 2 false)
    let s := ((s.pdcpConfigSecurity 2).pdcpEnableIntegrity 2).pdcpEnableEncryption 2
    let s := s.rlcAddBearer 3 drb.cfg.rlcCfg
    let pdcpCnfgDrb := makeDrbPdcpConfig 1 false
    let s := s.pdcpAddBearer 3
      (if drb.cfg.pdcpSnSize7 then { pdcpCnfgDrb with snLen := 7 } else pdcpCnfgDrb)
    let s := ((s.pdcpConfigSecurity 3).pdcpEnableIntegrity 3).pdcpEnableEncryption 3
    let nas := if s.nasPending then [s.erabInfo] else []
    let s := s.sendRrcConnRecfg env ⟨true, [drb], nas⟩
    { s with state := .waitForConReconfComplete }

/-- The loop over the items: the lists of the message so far, and whether it came to its end. The
bearer identity is one less than the DRB's. -/
def addNewBearers : EnbRrcUe → List DrbToAddMod → List Bytes → List ℕ →
    EnbRrcUe × List DrbToAddMod × List Bytes × Bool
  | s, drbs, nas, [] => (s, drbs, nas, true)
  | s, drbs, nas, id :: ids =>
    let lcid := id - 2
    match s.getDrbidConfig env (lcid - 2) with
    | (s, none) => (s, drbs, nas, false)
    | (s, some drb) =>
      let s := s.macBearerUeCfg lcid none
      let s := s.rlcAddBearer lcid drb.cfg.rlcCfg
      let s := s.pdcpAddBearer lcid (makeDrbPdcpConfig (drb.drbId - 1) false)
      let nas := if s.nasPending then nas ++ [s.erabInfo] else nas
      addNewBearers s (drbs ++ [drb]) nas ids

def sendConnectionReconfNewBearer (ids : List ℕ) : EnbRrcUe :=
  match s.addNewBearers env [] [] ids with
  | (s, _, _, false) => s
  | (s, drbs, nas, true) => s.sendRrcConnRecfg env ⟨false, drbs, nas⟩

def setupErab (erab : ErabToBeSetup) (nasPdu : Option Bytes) : EnbRrcUe :=
  let lcid := erab.erabId - 2
  let teidIn := s.rnti <<< 16 ||| lcid
  let s := { s with
    erabs := s.erabs.insert erab.erabId
      ⟨erab.erabId, erab.qci, erab.transportLayerAddress, erab.gtpTeid, teidIn⟩ }
  let s := s.gtpuAddBearer lcid ⟨erab.transportLayerAddress, erab.gtpTeid, teidIn⟩
  match nasPdu with
  | some nas => { s with nasPending := true, erabInfo := nas }
  | none => { s with nasPending := false }

/-- The loop of both `setup_erabs`. It stops at an address of more than 32 bits. -/
def setupErabList : EnbRrcUe → List (ErabToBeSetup × Option Bytes) → EnbRrcUe × Bool
  | s, [] => (s, true)
  | s, (erab, nasPdu) :: items =>
    if erab.transportLayerAddress.length > 32 then (s, false)
    else setupErabList (s.setupErab erab nasPdu) items

def notifyS1apUeCtxtSetupComplete : EnbRrcUe :=
  s.note (.ueCtxtSetupComplete (s.erabs.entries.map fun erab => erab.2.id))

/-- `setup_erabs` for an E-RABSetupRequest. Every item is reported as set up. -/
def setupErabsBearer (items : List (ErabToBeSetup × Bytes)) : EnbRrcUe :=
  match s.setupErabList (items.map fun item => (item.1, some item.2)) with
  | (s, false) => s
  | (s, true) =>
    let ids := items.map fun item => item.1.erabId
    (s.note (.ueErabSetupComplete ids)).sendConnectionReconfNewBearer env ids

def selectSecurityAlgorithms : EnbRrcUe × Bool :=
  let caps := s.securityCapabilities
  let (cipherAlgo, encAlgoFound) :=
    selectAlgorithm caps.supportsEea env.eeaPreferenceList s.security.cipherAlgo
  let (integAlgo, integAlgoFound) :=
    selectAlgorithm caps.supportsEia env.eiaPreferenceList s.security.integAlgo
  ({ s with security := { s.security with cipherAlgo := cipherAlgo, integAlgo := integAlgo } },
    encAlgoFound && integAlgoFound)

def setSecurityKey (key : Bytes) : EnbRrcUe :=
  let s := { s with kEnb := key }
  let s := (s.selectSecurityAlgorithms env).1
  let kRrc := env.generateKRrc s.kEnb s.security.cipherAlgo s.security.integAlgo
  let kUp := env.generateKUp s.kEnb s.security.cipherAlgo s.security.integAlgo
  let s := { s with
    security := { s.security with kRrcEnc := kRrc.1, kRrcInt := kRrc.2, kUpEnc := kUp.1 } }
  (s.pdcpConfigSecurity 1).pdcpEnableIntegrity 1

/-- The result of `setup_erabs` is dropped. -/
def setupUeCtxt (msg : InitialContextSetupRequest) : EnbRrcUe :=
  let s := { s with securityCapabilities := msg.ueSecurityCapabilities }
  let s := (s.setSecurityKey env msg.securityKey).note .securityKey
  (s.sendSecurityModeCommand.setupErabList msg.erabToBeSetupList).1

def modifyUeCtxt (msg : UeContextModificationRequest) : EnbRrcUe :=
  if msg.unhandled then s
  else
    let s := { s with
      securityCapabilities := msg.ueSecurityCapabilities.getD s.securityCapabilities }
    match msg.securityKey with
    | none => s
    | some key => (s.setSecurityKey env key).sendSecurityModeCommand

def handleRrcConReq (sTmsi : Option (ℕ × ℕ)) (mmeConnected allocated : Bool) : EnbRrcUe :=
  let s := if mmeConnected then s else s.note .rrcConnReject
  let s := { s with sTmsi := sTmsi.or s.sTmsi }
  { s.sendConnectionSetup allocated with state := .waitForConSetupComplete }

def handleUeCapInfo (containers : List UeCapRatContainer) : Bool :=
  containers.all fun c => !c.eutra ||
    env.unpacksEutraCap ((containers.map UeCapRatContainer.ueCapRatContainer).headD [])

def handleSecurityModeComplete : EnbRrcUe :=
  (s.note .securityModeComplete).pdcpEnableEncryption 1

def parseUlDcch : UlDcchMsg → EnbRrcUe
  | .rrcConnSetupComplete nas =>
    { s.note (.initialUe nas) with state := .waitForConReconfComplete }
  | .ulInfoTransfer nas => s.note (.uplinkNas nas)
  | .rrcConnRecfgComplete => { s.note .registered with state := .registered }
  | .securityModeComplete =>
    let s := s.handleSecurityModeComplete.notifyS1apUeCtxtSetupComplete
    { s.sendConnectionReconf env with state := .waitForConReconfComplete }
  | .securityModeFail => s
  | .ueCapInfo containers =>
    if handleUeCapInfo env containers then
      { s.sendConnectionReconf env with state := .waitForConReconfComplete }
    else { s.note .rrcConnReject with state := .idle }
  | .measReport => s
  | .other => s

/-- The PDCP entity of the bearer lets the PDU through. A PDU that is protected passes, and any
other one passes as long as nothing has been enabled. -/
def pdcpPasses (lcid : ℕ) (isProtected : Bool) : Bool :=
  match s.pdcp.find? lcid with
  | none => false
  | some e => isProtected || !(e.doIntegrity && e.integAlgo ≠ .eia0 ||
      e.doEncryption && e.cipherAlgo ≠ .eea0)

/-- What the context reacts to: a request on SRB0, a message on SRB1 or SRB2, and the MME. -/
inductive Event
  | rrcConReq (sTmsi : Option (ℕ × ℕ)) (mmeConnected allocated : Bool)
  | ulDcch (srb2 isProtected : Bool) (msg : UlDcchMsg)
  | setupUeCtxt (msg : InitialContextSetupRequest)
  | modifyUeCtxt (msg : UeContextModificationRequest)
  | setupUeErabs (items : List (ErabToBeSetup × Bytes))
  | releaseErabs
  deriving DecidableEq

def step : Event → EnbRrcUe
  | .rrcConReq sTmsi mmeConnected allocated => s.handleRrcConReq sTmsi mmeConnected allocated
  | .ulDcch srb2 isProtected msg =>
    if s.pdcpPasses (if srb2 then 2 else 1) isProtected then s.parseUlDcch env msg else s
  | .setupUeCtxt msg => s.setupUeCtxt env msg
  | .modifyUeCtxt msg => s.modifyUeCtxt env msg
  | .setupUeErabs items => s.setupErabsBearer env items
  | .releaseErabs => { s with erabs := .empty }

def erabQci (id : ℕ) : ℕ := ((s.erabs.find? id).map Erab.qci).getD 0

def drbOf (drbId : ℕ) (cfg : QciConfig) : DrbToAddMod := ⟨drbId, drbId + 2, drbId + 4, cfg⟩

theorem getDrbidConfig_eq (drbId : ℕ) : s.getDrbidConfig env drbId =
    ({ s with erabs := s.erabs.emplace (drbId + 4) ⟨0, 0, [], 0, 0⟩ },
      (env.qciConfig (s.erabQci (drbId + 4))).map (drbOf drbId)) := by
  have hfind := OrderedMap.find?_emplace s.erabs (drbId + 4) (drbId + 4) ⟨0, 0, [], 0, 0⟩
  rw [if_pos rfl] at hfind
  unfold getDrbidConfig erabQci
  dsimp only
  rw [hfind, Option.bind_some]
  cases s.erabs.find? (drbId + 4) <;> rfl

theorem macBearerUeCfg_eq (lcid : ℕ) (group : Option ℕ) : s.macBearerUeCfg lcid group =
    { s with mac := if lcid < maxLc then s.mac.insert lcid group else s.mac } := by
  unfold macBearerUeCfg
  split_ifs <;> rfl

theorem gtpuAddBearer_eq (lcid : ℕ) (tunnel : GtpuTunnel) : s.gtpuAddBearer lcid tunnel =
    { s with gtpu := if lcid < enbNRadioBearers then s.gtpu.insert lcid tunnel else s.gtpu } := by
  unfold gtpuAddBearer
  split_ifs <;> rfl

theorem sendRrcConnRecfg_eq (recfg : RrcConnRecfg) : s.sendRrcConnRecfg env recfg =
    { s with trace := s.trace ++ if env.packs recfg then [.rrcConnRecfg recfg] else [] } := by
  unfold sendRrcConnRecfg note
  split_ifs
  · rfl
  · rw [List.append_nil]

/-- The message of `send_connection_reconf`. -/
def drb1Recfg (cfg : QciConfig) : RrcConnRecfg :=
  ⟨true, [drbOf 1 cfg], if s.nasPending then [s.erabInfo] else []⟩

def drb1Pdcp (cfg : QciConfig) : PdcpBearers :=
  let enable (m : PdcpBearers) (lcid : ℕ) : PdcpBearers :=
    ((m.change lcid fun e => e.configSecurity s.security).change lcid
      fun e => { e with doIntegrity := true }).change lcid fun e => { e with doEncryption := true }
  let srb2 := enable (s.pdcp.emplace 2 (.init (makeSrbPdcpConfig 2 false))) 2
  enable (srb2.emplace 3 (.init
    (if cfg.pdcpSnSize7 then { makeDrbPdcpConfig 1 false with snLen := 7 }
      else makeDrbPdcpConfig 1 false))) 3

theorem sendConnectionReconf_of_none (h : env.qciConfig (s.erabQci 5) = none) :
    s.sendConnectionReconf env =
      { s with erabs := s.erabs.emplace 5 ⟨0, 0, [], 0, 0⟩ } := by
  unfold sendConnectionReconf
  rw [getDrbidConfig_eq, h]
  rfl

theorem sendConnectionReconf_of_some {cfg : QciConfig}
    (h : env.qciConfig (s.erabQci 5) = some cfg) :
    s.sendConnectionReconf env =
      { s with
        state := .waitForConReconfComplete
        erabs := s.erabs.emplace 5 ⟨0, 0, [], 0, 0⟩
        mac := (s.mac.insert 2 (some 0)).insert 3 (some cfg.lcChGroup)
        rlc := (s.rlc.addBearer 2 ⟨.lte, .am⟩).addBearer 3 cfg.rlcCfg
        pdcp := s.drb1Pdcp cfg
        trace := s.trace ++ [.bearer 2] ++ [.bearer 3] ++
          if env.packs (s.drb1Recfg cfg) then [.rrcConnRecfg (s.drb1Recfg cfg)] else [] } := by
  unfold sendConnectionReconf
  rw [getDrbidConfig_eq, h]
  have h2 : 2 < maxLc := by decide
  have h3 : 3 < maxLc := by decide
  simp only [Option.map_some, sendRrcConnRecfg_eq, macBearerUeCfg_eq, if_pos h2, if_pos h3,
    pdcpEnableEncryption, pdcpEnableIntegrity, pdcpConfigSecurity, pdcpAddBearer, rlcAddBearer,
    drb1Pdcp, drb1Recfg, drbOf, Nat.reduceAdd]
  rfl

theorem setupErab_eq (erab : ErabToBeSetup) (nasPdu : Option Bytes) :
    s.setupErab erab nasPdu =
      let lcid := erab.erabId - 2
      let teidIn := s.rnti <<< 16 ||| lcid
      { s with
        erabs := s.erabs.insert erab.erabId
          ⟨erab.erabId, erab.qci, erab.transportLayerAddress, erab.gtpTeid, teidIn⟩
        gtpu := if lcid < enbNRadioBearers then
          s.gtpu.insert lcid ⟨erab.transportLayerAddress, erab.gtpTeid, teidIn⟩ else s.gtpu
        nasPending := nasPdu.isSome
        erabInfo := nasPdu.getD s.erabInfo } := by
  unfold setupErab
  dsimp only
  rw [gtpuAddBearer_eq]
  cases nasPdu <;> rfl

theorem setupErabList_frame (items : List (ErabToBeSetup × Option Bytes)) :
    ∃ erabs gtpu nasPending erabInfo, (s.setupErabList items).1 =
      { s with erabs := erabs, gtpu := gtpu, nasPending := nasPending, erabInfo := erabInfo } := by
  induction items generalizing s with
  | nil => exact ⟨_, _, _, _, rfl⟩
  | cons item items ih =>
    unfold setupErabList
    split_ifs
    · exact ⟨_, _, _, _, rfl⟩
    · obtain ⟨erabs, gtpu, nasPending, erabInfo, heq⟩ := ih (s.setupErab item.1 item.2)
      rw [setupErab_eq] at heq
      exact ⟨erabs, gtpu, nasPending, erabInfo, (setupErab_eq s item.1 item.2) ▸ heq⟩

theorem setupErabList_snd (items : List (ErabToBeSetup × Option Bytes)) :
    (s.setupErabList items).2 = true ↔
      ∀ item ∈ items, item.1.transportLayerAddress.length ≤ 32 := by
  induction items generalizing s with
  | nil => simp [setupErabList]
  | cons item items ih =>
    unfold setupErabList
    split_ifs with hlong
    · simp only [List.forall_mem_cons, false_iff]
      omega
    · rw [ih, List.forall_mem_cons, and_iff_right (by omega)]

theorem find?_setupErab (erab : ErabToBeSetup) (nasPdu : Option Bytes) (id : ℕ) :
    (s.setupErab erab nasPdu).erabs.find? id =
      if id = erab.erabId then some ⟨erab.erabId, erab.qci, erab.transportLayerAddress,
        erab.gtpTeid, s.rnti <<< 16 ||| (erab.erabId - 2)⟩ else s.erabs.find? id := by
  rw [setupErab_eq]
  exact OrderedMap.find?_insert _ _ _ _

theorem find?_setupErabList {items : List (ErabToBeSetup × Option Bytes)}
    (h : ∀ item ∈ items, item.1.transportLayerAddress.length ≤ 32) (id : ℕ) :
    (s.setupErabList items).1.erabs.find? id =
      (((items.filter fun item => item.1.erabId = id).getLast?).map fun item =>
        (⟨id, item.1.qci, item.1.transportLayerAddress, item.1.gtpTeid,
          s.rnti <<< 16 ||| (id - 2)⟩ : Erab)).or (s.erabs.find? id) := by
  induction items generalizing s with
  | nil => rfl
  | cons item items ih =>
    have hrnti : (s.setupErab item.1 item.2).rnti = s.rnti := by rw [setupErab_eq]
    rw [setupErabList, if_neg (by have := h item List.mem_cons_self; omega),
      ih _ (List.forall_mem_cons.mp h).2, find?_setupErab, hrnti]
    by_cases hid : item.1.erabId = id
    · rw [List.filter_cons_of_pos (by simpa using hid), List.getLast?_cons, if_pos hid.symm, hid]
      cases (items.filter fun item => item.1.erabId = id).getLast? <;> rfl
    · rw [List.filter_cons_of_neg (by simpa using hid), if_neg (Ne.symm hid)]

def bearerItems (items : List (ErabToBeSetup × Bytes)) : List (ErabToBeSetup × Option Bytes) :=
  items.map fun item => (item.1, some item.2)

theorem lastQci_bearerItems {items : List (ErabToBeSetup × Bytes)} (id : ℕ) :
    lastQci (bearerItems items) id = lastQci items id := by
  unfold lastQci bearerItems
  rw [List.filter_map, List.getLast?_map, Option.map_map]
  rfl

theorem setupErabsBearer_of_long {items : List (ErabToBeSetup × Bytes)}
    (h : ¬ ∀ item ∈ items, item.1.transportLayerAddress.length ≤ 32) :
    s.setupErabsBearer env items = (s.setupErabList (bearerItems items)).1 := by
  have hsnd := s.setupErabList_snd (bearerItems items)
  rw [bearerItems, List.forall_mem_map] at hsnd
  unfold setupErabsBearer bearerItems
  rw [show s.setupErabList _ = (_, false) from
    Prod.ext rfl (Bool.eq_false_iff.mpr fun htrue => h (hsnd.mp htrue))]

theorem setupErabsBearer_of_short {items : List (ErabToBeSetup × Bytes)}
    (h : ∀ item ∈ items, item.1.transportLayerAddress.length ≤ 32) :
    s.setupErabsBearer env items =
      let ids := items.map fun item => item.1.erabId
      ((s.setupErabList (bearerItems items)).1.note
        (.ueErabSetupComplete ids)).sendConnectionReconfNewBearer env ids := by
  have hsnd := s.setupErabList_snd (bearerItems items)
  rw [bearerItems, List.forall_mem_map] at hsnd
  unfold setupErabsBearer bearerItems
  rw [show s.setupErabList _ = (_, true) from Prod.ext rfl (hsnd.mpr h)]

def withBearer (id : ℕ) (cfg : QciConfig) : EnbRrcUe :=
  { s with
    erabs := s.erabs.emplace id ⟨0, 0, [], 0, 0⟩
    mac := if id - 2 < maxLc then s.mac.insert (id - 2) none else s.mac
    rlc := s.rlc.addBearer (id - 2) cfg.rlcCfg
    pdcp := s.pdcp.emplace (id - 2) (.init (makeDrbPdcpConfig (id - 2 - 2 - 1) false))
    trace := s.trace ++ [.bearer (id - 2)] }

theorem addNewBearers_cons_of_some {cfg : QciConfig} {drbs : List DrbToAddMod} {nas : List Bytes}
    {id : ℕ} {ids : List ℕ} (hid : 5 ≤ id) (h : env.qciConfig (s.erabQci id) = some cfg) :
    s.addNewBearers env drbs nas (id :: ids) =
      (s.withBearer id cfg).addNewBearers env (drbs ++ [drbOf (id - 2 - 2) cfg])
        (if s.nasPending then nas ++ [s.erabInfo] else nas) ids := by
  have hkey : id - 2 - 2 + 4 = id := by omega
  rw [addNewBearers, getDrbidConfig_eq, hkey, h]
  simp only [Option.map_some, macBearerUeCfg_eq, rlcAddBearer, pdcpAddBearer]
  rfl

theorem addNewBearers_cons_of_none {drbs : List DrbToAddMod} {nas : List Bytes} {id : ℕ}
    {ids : List ℕ} (hid : 5 ≤ id) (h : env.qciConfig (s.erabQci id) = none) :
    s.addNewBearers env drbs nas (id :: ids) =
      ({ s with erabs := s.erabs.emplace id ⟨0, 0, [], 0, 0⟩ }, drbs, nas, false) := by
  have hkey : id - 2 - 2 + 4 = id := by omega
  rw [addNewBearers, getDrbidConfig_eq, hkey, h]
  rfl

end EnbRrcUe

theorem PdcpBearers.find?_change (m : PdcpBearers) (lcid k : ℕ)
    (f : PdcpEntityBase → PdcpEntityBase) :
    (m.change lcid f).find? k =
      (m.find? k).map fun e => if k = lcid ∧ lcid < RlcBearers.nRadioBearers then f e else e :=
  OrderedMap.find?_mapValues m k _

end SrsLte
