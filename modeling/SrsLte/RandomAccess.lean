import Mathlib
import SrsLte.ByteBuffer
import SrsLte.EventRun

/-!
# The random access procedure of the UE

`ra_proc` with the RNTIs, the contention resolution timer and the Msg3 buffer that it changes. A
call gives the procedure after it and what it did. Random numbers, the state of the PRACH and the
outcome of `msg3_get` come with the events. Timing advance commands, which the procedure passes on,
are left out.
-/

namespace SrsLte

inductive RaState
  | idle
  | pdcchSetup
  | responseReception
  | backoffWait
  | contentionResolution
  | startWaitCompletion
  | waitingCompletion
  deriving DecidableEq

inductive RaGroup
  | groupA
  | groupB
  deriving DecidableEq

/-- `rach_cfg_t`. -/
structure RachCfg where
  nofPreambles : ℕ
  nofGroupAPreambles : ℕ
  messageSizeGroupA : ℕ
  responseWindowSize : ℕ
  powerRampingStep : ℤ
  preambleTransMax : ℕ
  iniReceivedTargetPower : ℤ
  contentionResolutionTimer : ℕ

/-- `ue_rnti_t`. -/
structure UeRntis where
  crnti : ℕ
  tempRnti : ℕ
  rarRnti : ℕ
  contentionId : ℕ

structure Msg3 where
  empty : Bool
  pending : Bool
  transmitted : Bool

structure ContentionTimer where
  duration : ℕ
  callback : Bool
  running : Bool

structure RaProc where
  state : RaState
  rachCfg : RachCfg
  newCfg : RachCfg
  deltaPreambleDb : ℤ
  maskIndex : ℕ
  preambleIndex : ℕ
  newRaMsgLen : ℕ
  noncontentionEnabled : Bool
  nextPreambleIdx : ℕ
  nextPrachMask : ℕ
  preambleTransmissionCounter : ℕ
  backoffParamMs : ℕ
  selMaskIndex : ℕ
  selPreamble : ℕ
  backoffIntervalStart : Option ℕ
  backoffInterval : ℕ
  raTti : ℕ
  lastMsg3Group : RaGroup
  transmittedContentionId : ℕ
  transmittedCrnti : ℕ
  raIsHo : Bool
  startedByPdcch : Bool
  rarReceived : Bool
  rntis : UeRntis
  msg3 : Msg3
  timer : ContentionTimer

/-- `prach_info_t`. -/
structure PrachInfo where
  isTransmitted : Bool
  ttiRa : ℕ
  fId : ℕ
  preambleFormat : ℕ

/-- A subheader of a RAR PDU; `rapid` is `none` for a backoff indicator. -/
structure RarSubh where
  rapid : Option ℕ
  schedGrant : Bytes
  tempCrnti : ℕ

structure RarPdu where
  backoff : Option ℕ
  subheaders : List RarSubh

/-- What `rand()` returns for a backoff interval and for a preamble. -/
structure Draws where
  backoff : ℕ
  preamble : ℕ

/-- What the procedure does: its internal steps `response_error` and `complete`, with the state in
which they are taken and the C-RNTI after the latter, and its calls. -/
inductive RaOutput
  | responseError (state : RaState)
  | complete (state : RaState) (crnti : ℕ)
  | prachSend (preamble : ℕ) (mask power : ℤ)
  | setRarGrant (grant : Bytes) (tempCrnti : ℕ)
  | appendCrntiCe (crnti : ℕ)
  | raProblem
  | hoRaCompleted (success : Bool)
  | waitRaCompletion (crnti : ℕ)
  deriving DecidableEq

def backoffTable : List ℕ :=
  [0, 10, 20, 30, 40, 60, 80, 120, 160, 240, 320, 480, 960, 960, 960, 960]

def deltaPreambleDbTable : List ℤ := [0, 0, -3, -3, 8]

/-- `srslte_tti_interval` on 32-bit values. -/
def RaProc.ttiInterval (tti1 tti2 : ℕ) : ℕ :=
  if tti1 ≥ tti2 then tti1 - tti2 else (10240 + 2 ^ 32 - tti2 + tti1) % 2 ^ 32

namespace Msg3

def flush : Msg3 := ⟨true, false, false⟩

def prepare (m : Msg3) : Msg3 := { m with pending := true, transmitted := false }

/-- `msg3_get` for a grant: whether `pdu_get` returns a PDU, and whether it leaves bytes in the
buffer when it returns none. -/
def get (m : Msg3) (written left : Bool) : Msg3 :=
  if m.empty then
    if written then ⟨false, false, true⟩ else { m with empty := !left }
  else { m with transmitted := true }

end Msg3

namespace RaProc

def preambleTransmission (s : RaProc) : RaProc × List RaOutput :=
  let power := s.rachCfg.iniReceivedTargetPower + s.deltaPreambleDb +
    ((s.preambleTransmissionCounter : ℤ) - 1) * s.rachCfg.powerRampingStep
  ({ s with
      rntis := { s.rntis with rarRnti := 0 }
      raTti := 0
      rarReceived := false
      backoffIntervalStart := none
      state := .pdcchSetup },
    [.prachSend s.selPreamble ((s.selMaskIndex : ℤ) - 1) power])

def nofGroupBPreambles (s : RaProc) : ℕ :=
  if s.rachCfg.nofGroupAPreambles > 0 then
    (s.rachCfg.nofPreambles + 2 ^ 32 - s.rachCfg.nofGroupAPreambles) % 2 ^ 32
  else 0

def selGroup (s : RaProc) : RaGroup :=
  if s.msg3.transmitted then s.lastMsg3Group
  else if s.nofGroupBPreambles ≠ 0 ∧ s.newRaMsgLen > s.rachCfg.messageSizeGroupA then .groupB
  else .groupA

def resourceSelection (s : RaProc) (rand : ℕ) : RaProc × List RaOutput :=
  if s.preambleIndex > 0 then
    { s with selMaskIndex := s.maskIndex, selPreamble := s.preambleIndex }.preambleTransmission
  else
    let group := s.selGroup
    let s := { s with lastMsg3Group := group }
    match group with
    | .groupA =>
      if s.rachCfg.nofGroupAPreambles ≠ 0 then
        { s with
          selPreamble := rand % s.rachCfg.nofGroupAPreambles
          selMaskIndex := 0 }.preambleTransmission
      else ({ s with state := .idle }, [])
    | .groupB =>
      if s.nofGroupBPreambles ≠ 0 then
        { s with
          selPreamble := s.rachCfg.nofGroupAPreambles + rand % s.nofGroupBPreambles
          selMaskIndex := 0 }.preambleTransmission
      else ({ s with state := .idle }, [])

def responseError (s : RaProc) (draws : Draws) : RaProc × List RaOutput :=
  let taken := RaOutput.responseError s.state
  let s := { s with
    rntis := { s.rntis with tempRnti := 0 }
    preambleTransmissionCounter := s.preambleTransmissionCounter + 1 }
  if s.preambleTransmissionCounter ≥ s.rachCfg.preambleTransMax + 1 then
    ({ s with state := .idle },
      taken :: .raProblem :: if s.raIsHo then [.hoRaCompleted false] else [])
  else
    let interval := if s.backoffParamMs ≠ 0 then draws.backoff % s.backoffParamMs else 0
    let s := { s with backoffIntervalStart := none, backoffInterval := interval }
    if interval ≠ 0 then ({ s with state := .backoffWait }, [taken])
    else
      let (s, out) := s.resourceSelection draws.preamble
      (s, taken :: out)

def complete (s : RaProc) : RaProc × List RaOutput :=
  let crnti := if s.transmittedCrnti = 0 then s.rntis.tempRnti else s.rntis.crnti
  ({ s with
      rntis := { s.rntis with crnti := crnti, tempRnti := 0 }
      msg3 := Msg3.flush
      state := .startWaitCompletion },
    .complete s.state crnti :: if s.raIsHo then [.hoRaCompleted true] else [])

def readParams (s : RaProc) (preambleFormat : ℕ) : RaProc :=
  let groupA := if s.newCfg.nofGroupAPreambles = 0 then s.newCfg.nofPreambles
    else s.newCfg.nofGroupAPreambles
  { s with
    rachCfg := { s.newCfg with nofGroupAPreambles := groupA }
    preambleIndex := if s.noncontentionEnabled then s.nextPreambleIdx else 0
    maskIndex := if s.noncontentionEnabled then s.nextPrachMask else 0
    noncontentionEnabled := false
    deltaPreambleDb := deltaPreambleDbTable.getD (preambleFormat % 5) 0
    timer := if s.newCfg.contentionResolutionTimer > 0 then
      { s.timer with duration := s.newCfg.contentionResolutionTimer, callback := true }
      else s.timer }

def initialization (s : RaProc) (preambleFormat rand : ℕ) : RaProc × List RaOutput :=
  { s.readParams preambleFormat with
    transmittedContentionId := 0
    preambleTransmissionCounter := 1
    msg3 := Msg3.flush
    backoffParamMs := 0 }.resourceSelection rand

def startMacOrder (s : RaProc) (msgLenBits : ℕ) (isHo : Bool) (preambleFormat rand : ℕ) :
    RaProc × List RaOutput :=
  if s.state = .idle then
    { s with raIsHo := isHo, startedByPdcch := false, newRaMsgLen := msgLenBits }.initialization
      preambleFormat rand
  else (s, [])

def startNoncont (s : RaProc) (preambleIdx prachMask preambleFormat rand : ℕ) :
    RaProc × List RaOutput :=
  { s with
    nextPreambleIdx := preambleIdx
    nextPrachMask := prachMask
    noncontentionEnabled := true }.startMacOrder 56 true preambleFormat rand

def startPdcchOrder (s : RaProc) (preambleFormat rand : ℕ) : RaProc × List RaOutput :=
  if s.state = .idle then { s with startedByPdcch := true }.initialization preambleFormat rand
  else (s, [])

/-- `step`, one case for each state function. -/
def step (s : RaProc) (tti : ℕ) (prach : PrachInfo) (draws : Draws) : RaProc × List RaOutput :=
  match s.state with
  | .idle => (s, [])
  | .pdcchSetup =>
    if prach.isTransmitted then
      ({ s with
          raTti := prach.ttiRa
          rntis := { s.rntis with rarRnti := 1 + prach.ttiRa % 10 + prach.fId }
          state := .responseReception }, [])
    else (s, [])
  | .responseReception =>
    let interval := ttiInterval tti (s.raTti + 3 + s.rachCfg.responseWindowSize - 1)
    if !s.rarReceived ∧ interval > 0 ∧ interval < 100 then s.responseError draws else (s, [])
  | .backoffWait =>
    if s.backoffInterval > 0 then
      if s.backoffInterval = 1 then s.resourceSelection draws.preamble
      else
        let s := if s.backoffIntervalStart = none then
            { s with backoffIntervalStart := some tti, backoffInterval := s.backoffInterval - 1 }
          else s
        if ttiInterval tti (s.backoffIntervalStart.getD 0) ≥ s.backoffInterval then
          { s with backoffInterval := 0 }.resourceSelection draws.preamble
        else (s, [])
    else (s, [])
  | .contentionResolution =>
    if s.msg3.transmitted ∧ !s.timer.running then
      ({ s with timer := { s.timer with running := true } }, [])
    else (s, [])
  | .startWaitCompletion =>
    ({ s with state := .waitingCompletion }, [.waitRaCompletion s.rntis.crnti])
  | .waitingCompletion => (s, [])

/-- One round of the loop of `tb_decoded_ok`. -/
def rarSubheader (s : RaProc) (sub : RarSubh) : RaProc × List RaOutput :=
  if sub.rapid = some s.selPreamble then
    let s := { s with rarReceived := true, rntis := { s.rntis with rarRnti := 0 } }
    if s.preambleIndex > 0 then
      let (s, out) := s.complete
      (s, .setRarGrant sub.schedGrant sub.tempCrnti :: out)
    else
      let first : Bool := s.msg3.empty
      let crnti := if first then s.rntis.crnti else s.transmittedCrnti
      ({ s with
          msg3 := s.msg3.prepare
          rntis := { s.rntis with tempRnti := sub.tempCrnti }
          transmittedCrnti := crnti
          transmittedContentionId := s.rntis.contentionId
          state := .contentionResolution },
        .setRarGrant sub.schedGrant sub.tempCrnti ::
          if first ∧ crnti ≠ 0 then [.appendCrntiCe crnti] else [])
  else (s, [])

def rarSubheaders (s : RaProc) : List RarSubh → RaProc × List RaOutput
  | [] => (s, [])
  | sub :: subs =>
    let (s, out) := s.rarSubheader sub
    let (s, out') := s.rarSubheaders subs
    (s, out ++ out')

def tbDecodedOk (s : RaProc) (rar : RarPdu) : RaProc × List RaOutput :=
  let backoff := match rar.backoff with
    | some indicator => backoffTable.getD (indicator % 16) 0
    | none => 0
  { s with backoffParamMs := backoff }.rarSubheaders rar.subheaders

def stopTimer (s : RaProc) : RaProc := { s with timer := { s.timer with running := false } }

def contentionResolutionIdReceived (s : RaProc) (rxContentionId : ℕ) (draws : Draws) :
    RaProc × List RaOutput :=
  if s.transmittedContentionId = rxContentionId then s.stopTimer.complete
  else s.stopTimer.responseError draws

/-- The contention resolution identities of a PDU for the temporary C-RNTI, up to a successful
one. -/
def tempCrntiPdu (s : RaProc) : List (ℕ × Draws) → RaProc × List RaOutput
  | [] => (s, [])
  | (id, draws) :: ids =>
    let success : Bool := s.transmittedContentionId = id
    let (s, out) := s.contentionResolutionIdReceived id draws
    if success then (s, out)
    else
      let (s, out') := s.tempCrntiPdu ids
      (s, out ++ out')

/-- `pdcch_to_crnti` as `mac` and `ul_harq` call it: for a grant to the C-RNTI during contention
resolution. -/
def pdcchToCrnti (s : RaProc) (rnti : ℕ) (isNewUplinkTransmission : Bool) :
    RaProc × List RaOutput :=
  if rnti = s.rntis.crnti ∧ s.state = .contentionResolution ∧
      (isNewUplinkTransmission ∨ s.startedByPdcch) then s.stopTimer.complete
  else (s, [])

def harqRetx (s : RaProc) : RaProc := { s with timer := { s.timer with running := true } }

def timerExpired (s : RaProc) (draws : Draws) : RaProc × List RaOutput :=
  if s.timer.running then
    if s.timer.callback then s.stopTimer.responseError draws else (s.stopTimer, [])
  else (s, [])

end RaProc

/-- What `mac` and its parts tell the procedure. Those that concern the temporary C-RNTI come with
the RNTI of their grant. -/
inductive RaEvent
  | setConfig (cfg : RachCfg)
  | setHoRnti (crnti : ℕ)
  | setContentionId (uecri : ℕ)
  | startMacOrder (msgLenBits : ℕ) (isHo : Bool) (preambleFormat rand : ℕ)
  | startNoncont (preambleIdx prachMask preambleFormat rand : ℕ)
  | startPdcchOrder (preambleFormat rand : ℕ)
  | step (tti : ℕ) (prach : PrachInfo) (draws : Draws)
  | tbDecodedOk (rar : RarPdu)
  | tempCrntiPdu (rnti : ℕ) (ids : List (ℕ × Draws))
  | pdcchToCrnti (rnti : ℕ) (isNewUplinkTransmission : Bool)
  | msg3Get (written left : Bool)
  | harqRetx (rnti : ℕ)
  | harqMaxRetx (rnti : ℕ) (draws : Draws)
  | timerExpired (draws : Draws)
  | notifyRaCompleted

namespace RaProc

def handle (s : RaProc) : RaEvent → RaProc × List RaOutput
  | .setConfig cfg => ({ s with newCfg := cfg }, [])
  | .setHoRnti crnti => ({ s with rntis := { s.rntis with crnti := crnti } }, [])
  | .setContentionId uecri => ({ s with rntis := { s.rntis with contentionId := uecri } }, [])
  | .startMacOrder msgLenBits isHo preambleFormat rand =>
    s.startMacOrder msgLenBits isHo preambleFormat rand
  | .startNoncont preambleIdx prachMask preambleFormat rand =>
    s.startNoncont preambleIdx prachMask preambleFormat rand
  | .startPdcchOrder preambleFormat rand => s.startPdcchOrder preambleFormat rand
  | .step tti prach draws => s.step tti prach draws
  | .tbDecodedOk rar => s.tbDecodedOk rar
  | .tempCrntiPdu rnti ids => if rnti = s.rntis.tempRnti then s.tempCrntiPdu ids else (s, [])
  | .pdcchToCrnti rnti isNewUplinkTransmission => s.pdcchToCrnti rnti isNewUplinkTransmission
  -- `ul_harq` asks for Msg3 while it is pending
  | .msg3Get written left =>
    if s.msg3.pending then ({ s with msg3 := s.msg3.get written left }, []) else (s, [])
  | .harqRetx rnti => if rnti = s.rntis.tempRnti then (s.harqRetx, []) else (s, [])
  | .harqMaxRetx rnti draws =>
    if rnti = s.rntis.tempRnti then s.responseError draws else (s, [])
  | .timerExpired draws => s.timerExpired draws
  | .notifyRaCompleted => ({ s with state := .idle }, [])

/-- After `init` and `reset`. -/
def init : RaProc where
  state := .idle
  rachCfg := ⟨0, 0, 0, 0, 0, 0, 0, 0⟩
  newCfg := ⟨0, 0, 0, 0, 0, 0, 0, 0⟩
  deltaPreambleDb := 0
  maskIndex := 0
  preambleIndex := 0
  newRaMsgLen := 0
  noncontentionEnabled := false
  nextPreambleIdx := 0
  nextPrachMask := 0
  preambleTransmissionCounter := 0
  backoffParamMs := 0
  selMaskIndex := 0
  selPreamble := 0
  backoffIntervalStart := some 0
  backoffInterval := 0
  raTti := 0
  lastMsg3Group := .groupA
  transmittedContentionId := 0
  transmittedCrnti := 0
  raIsHo := false
  startedByPdcch := false
  rarReceived := false
  rntis := ⟨0, 0, 0, 0⟩
  msg3 := Msg3.flush
  timer := ⟨0, false, false⟩

end RaProc
end SrsLte
