import SrsLte.OrderedMap
import SrsLte.RlcAmPdu
import SrsLte.Word

/-!
# Receiver of RLC acknowledged mode (LTE)

`rlc_am_lte_rx`. The SDUs handed to PDCP are logged in `delivered`. Buffers are always available,
and the copy of all segments of a PDU is a list, whose length is checked when the PDU is handled.
-/

namespace SrsLte

structure RlcAmdRxPdu where
  header : AmdPduHeader
  buf : Bytes
  deriving DecidableEq

structure RlcAmRx where
  rxSdu : Option Bytes
  vrR : ℕ
  vrMr : ℕ
  vrX : ℕ
  vrMs : ℕ
  vrH : ℕ
  rxWindow : OrderedMap ℕ RlcAmdRxPdu
  rxSegments : OrderedMap ℕ (List RlcAmdRxPdu)
  pollReceived : Bool
  doStatus : Bool
  /-- `reordering_timer.is_running()`. -/
  reorderingTimer : Bool
  delivered : List Bytes

namespace RlcAmRx

/-- The state after construction and after `stop`, which hands nothing to PDCP. -/
def init (delivered : List Bytes) : RlcAmRx where
  rxSdu := none
  vrR := 0
  vrMr := rlcAmWindowSize
  vrX := 0
  vrMs := 0
  vrH := 0
  rxWindow := OrderedMap.empty
  rxSegments := OrderedMap.empty
  pollReceived := false
  doStatus := false
  reorderingTimer := false
  delivered := delivered

/-- `RX_MOD_BASE`. -/
def rxModBase (rx : RlcAmRx) (x : ℕ) : ℕ := Word.sub32 x rx.vrR % rlcAmMod

def insideRxWindow (rx : RlcAmRx) (sn : ℕ) : Bool :=
  rx.rxModBase sn ≥ rx.rxModBase rx.vrR ∧ rx.rxModBase sn < rx.rxModBase rx.vrMr

/-- "Status packet requested through polling bit". -/
def requestStatus (rx : RlcAmRx) (p : Bool) : RlcAmRx :=
  if p then { rx with doStatus := true } else rx

/-- "Check poll bit". -/
def checkPollBit (rx : RlcAmRx) (header : AmdPduHeader) : RlcAmRx :=
  if header.p then
    { rx with
      pollReceived := true
      doStatus := rx.doStatus ∨ rx.rxModBase header.sn < rx.rxModBase rx.vrMs ∨
        rx.rxModBase header.sn ≥ rx.rxModBase rx.vrMr }
  else rx

def updateVrH (rx : RlcAmRx) (sn : ℕ) : RlcAmRx :=
  if rx.rxModBase sn ≥ rx.rxModBase rx.vrH then { rx with vrH := (sn + 1) % rlcAmMod } else rx

/-- `vr_ms` moves on to the next SN that is not in the window, within as many rounds as the window
has PDUs. -/
def advanceVrMs : ℕ → RlcAmRx → RlcAmRx
  | 0, rx => rx
  | fuel + 1, rx =>
    match rx.rxWindow.find? rx.vrMs with
    | none => rx
    | some _ => advanceVrMs fuel { rx with vrMs := (rx.vrMs + 1) % rlcAmMod }

/-- `rx_sdu` goes to PDCP, and a new buffer is allocated. -/
def deliver (rx : RlcAmRx) (sdu : Bytes) : RlcAmRx :=
  { rx with delivered := rx.delivered ++ [sdu], rxSdu := some [] }

def resetSdu (rx : RlcAmRx) : RlcAmRx := { rx with rxSdu := none }

/-- Takes `len` bytes off the front of a buffer. -/
def takeBytes (len : ℕ) (buf : Bytes) : Except RlcAmFault (Bytes × Bytes) :=
  if buf.length < len then .error .nBytesUnderflow else .ok (buf.take len, buf.drop len)

/-- "Handle any SDU segments", with the bytes that are left behind `used` others. Returns no bytes
when the rest of the PDU is given up. -/
def handleSegments : List ℕ → ℕ → Bytes → RlcAmRx → Except RlcAmFault (RlcAmRx × Option Bytes)
  | [], _, buf, rx => .ok (rx, some buf)
  | len :: li, used, buf, rx =>
    if len = 0 then .ok (rx, some buf)
    else
      match rx.rxSdu with
      | none => .error .nullSdu
      | some sdu =>
        if bufferTailroom - sdu.length ≥ len then
          if 1020 + used + len < maxBufferSizeBytes then
            if buf.length < len then .ok (rx.resetSdu, none)
            else
              match takeBytes len buf with
              | .error fault => .error fault
              | .ok (piece, buf) =>
                handleSegments li (used + len) buf (rx.deliver (sdu ++ piece))
          else .ok (rx.resetSdu, none)
        else .ok (rx.resetSdu, none)

/-- "Handle last segment". -/
def handleLastSegment (rx : RlcAmRx) (fi : ℕ) (buf : Bytes) : Except RlcAmFault RlcAmRx :=
  match rx.rxSdu with
  | none => .error .nullSdu
  | some sdu =>
    if bufferTailroom - sdu.length ≥ buf.length then
      if RlcFi.endAligned fi then .ok (rx.deliver (sdu ++ buf))
      else .ok { rx with rxSdu := some (sdu ++ buf) }
    else .ok rx.resetSdu

/-- "Move the rx_window". -/
def moveRxWindow (rx : RlcAmRx) : RlcAmRx :=
  { rx with
    rxSegments :=
      match rx.rxSegments.find? rx.vrR with
      | none => rx.rxSegments
      | some _ => rx.rxSegments.insert rx.vrR []
    rxWindow := rx.rxWindow.erase rx.vrR
    vrR := (rx.vrR + 1) % rlcAmMod
    vrMr := (rx.vrMr + 1) % rlcAmMod }

/-- One round of "Iterate through rx_window, assembling and delivering SDUs". -/
def reassemblePdu (rx : RlcAmRx) (pdu : RlcAmdRxPdu) : Except RlcAmFault RlcAmRx :=
  match rx.handleSegments pdu.header.li 0 pdu.buf with
  | .error fault => .error fault
  | .ok (rx, none) => .ok rx.moveRxWindow
  | .ok (rx, some buf) => (rx.handleLastSegment pdu.header.fi buf).map moveRxWindow

/-- Every round uses one unit of `fuel` and erases a PDU of the window. -/
def reassembleLoop : ℕ → RlcAmRx → Except RlcAmFault RlcAmRx
  | 0, rx => .ok rx
  | fuel + 1, rx =>
    match rx.rxWindow.find? rx.vrR with
    | none => .ok rx
    | some pdu =>
      match rx.reassemblePdu pdu with
      | .error fault => .error fault
      | .ok rx => reassembleLoop fuel rx

def reassembleRxSdus (rx : RlcAmRx) : Except RlcAmFault RlcAmRx :=
  reassembleLoop rx.rxWindow.entries.length { rx with rxSdu := some (rx.rxSdu.getD []) }

def stopTimer (rx : RlcAmRx) : RlcAmRx :=
  if rx.reorderingTimer ∧
      (rx.vrX = rx.vrR ∨ (¬ rx.insideRxWindow rx.vrX ∧ rx.vrX ≠ rx.vrMr)) then
    { rx with reorderingTimer := false }
  else rx

def startTimer (rx : RlcAmRx) : RlcAmRx :=
  if ¬ rx.reorderingTimer ∧ rx.rxModBase rx.vrH > rx.rxModBase rx.vrR then
    { rx with reorderingTimer := true, vrX := rx.vrH }
  else rx

def corrupted (header : AmdPduHeader) (payload : Bytes) : Bool :=
  header.li.sum > payload.length

def store (rx : RlcAmRx) (payload : Bytes) (header : AmdPduHeader) : RlcAmRx :=
  let rx := { rx with rxWindow := rx.rxWindow.insert header.sn ⟨header, payload⟩ }
  let rx := rx.updateVrH header.sn
  (advanceVrMs rx.rxWindow.entries.length rx).checkPollBit header

def handleDataPdu (rx : RlcAmRx) (payload : Bytes) (header : AmdPduHeader) :
    Except RlcAmFault RlcAmRx :=
  if corrupted header payload then .ok rx
  else if ¬ rx.insideRxWindow header.sn then .ok (rx.requestStatus header.p)
  else if (rx.rxWindow.find? header.sn).isSome then .ok (rx.requestStatus header.p)
  else if payload.length > bufferTailroom then .ok rx
  else (rx.store payload header).reassembleRxSdus.map fun rx => rx.stopTimer.startTimer

/-- The local variables of "Reconstruct li fields". -/
structure Reconstruction where
  li : List ℕ
  carryover : ℕ
  deriving DecidableEq

/-- `header.li[header.N_li] = len; header.N_li++`. -/
def pushLi (li : List ℕ) (len : ℕ) : Except RlcAmFault (List ℕ) :=
  if li.length < rlcAmWindowSize then .ok (li ++ [len]) else .error .liOverflow

def pushLis : List ℕ → List ℕ → Except RlcAmFault (List ℕ)
  | li, [] => .ok li
  | li, len :: lens =>
    match pushLi li len with
    | .error fault => .error fault
    | .ok li => pushLis li lens

def carried (carryover : ℕ) : List ℕ → List ℕ
  | [] => []
  | len :: lens => (len + carryover) % 2 ^ 16 :: lens

/-- What a segment adds to the indicators of the PDU. `more` tells that other segments follow. -/
def reconstructSegment (r : Reconstruction) (segment : RlcAmdRxPdu) (more : Bool) :
    Except RlcAmFault Reconstruction :=
  match pushLis r.li (carried r.carryover segment.header.li) with
  | .error fault => .error fault
  | .ok li =>
    let nBytes := segment.buf.length
    let carryover := if segment.header.li = [] then r.carryover else 0
    let count := segment.header.li.sum % 2 ^ 16
    let r : Reconstruction :=
      if count ≤ nBytes then
        { li := li, carryover := (carryover + (nBytes - count)) % 2 ^ 16 }
      else
        { li := li.dropLast
          carryover := (nBytes + li.getLastD 0 + (2 ^ 16 - count)) % 2 ^ 16 }
    if RlcFi.endAligned segment.header.fi ∧ more then
      match pushLi r.li r.carryover with
      | .error fault => .error fault
      | .ok li => .ok { li := li, carryover := 0 }
    else .ok r

def reconstructLoop : Reconstruction → List RlcAmdRxPdu → Except RlcAmFault Reconstruction
  | r, [] => .ok r
  | r, segment :: segments =>
    match reconstructSegment r segment (segments ≠ []) with
    | .error fault => .error fault
    | .ok r => reconstructLoop r segments

/-- "Check for complete": the segments follow one another from `so` on. -/
def contiguous : ℕ → List RlcAmdRxPdu → Bool
  | _, [] => true
  | so, segment :: segments =>
    so = segment.header.so && contiguous (so + segment.buf.length) segments

def nextOffset (segments : List RlcAmdRxPdu) : ℕ :=
  match segments.getLast? with
  | none => 0
  | some back => back.header.so + back.buf.length

def reconstructHeader (segments : List RlcAmdRxPdu) : Except RlcAmFault AmdPduHeader :=
  (reconstructLoop { li := [], carryover := 0 } segments).map fun r =>
    { rf := false
      p := false
      fi := RlcFi.startAndEndAligned |||
        ((segments.head?.map fun s => s.header.fi).getD 0 &&& RlcFi.notStartAligned) |||
        ((segments.getLast?.map fun s => s.header.fi).getD 0 &&& RlcFi.notEndAligned)
      sn := (segments.head?.map fun s => s.header.sn).getD 0
      lsf := false
      so := 0
      li := r.li }

/-- `add_segment_and_check` for the list of segments at `sn`. -/
def addSegmentAndCheck (rx : RlcAmRx) (sn : ℕ) (segments : List RlcAmdRxPdu)
    (segment : RlcAmdRxPdu) : Except RlcAmFault (RlcAmRx × Bool) :=
  if segment.header.so = 0 then
    .ok ({ rx with rxSegments := rx.rxSegments.insert sn [segment] }, false)
  else if segment.header.so ≠ nextOffset segments then .ok (rx, false)
  else
    let segments := segments ++ [segment]
    let rx := { rx with rxSegments := rx.rxSegments.insert sn segments }
    if ¬ contiguous 0 segments then .ok (rx, false)
    else if ¬ segment.header.lsf then .ok (rx, false)
    else
      match reconstructHeader segments with
      | .error fault => .error fault
      | .ok header =>
        (rx.handleDataPdu (segments.flatMap RlcAmdRxPdu.buf) header).map fun rx => (rx, true)

def handleDataPduSegment (rx : RlcAmRx) (payload : Bytes) (header : AmdPduHeader) :
    Except RlcAmFault RlcAmRx :=
  if ¬ rx.insideRxWindow header.sn then .ok (rx.requestStatus header.p)
  else if bufferTailroom < payload.length then .ok rx
  else
    match rx.rxSegments.find? header.sn with
    | some segments =>
      ((rx.requestStatus header.p).addSegmentAndCheck header.sn segments ⟨header, payload⟩).map
        fun r =>
          if r.2 then { r.1 with rxSegments := r.1.rxSegments.erase header.sn } else r.1
    | none =>
      let rx := { rx with rxSegments := rx.rxSegments.insert header.sn [⟨header, payload⟩] }
      .ok ((rx.updateVrH header.sn).checkPollBit header)

/-- `write_pdu`, with the status PDU that goes to the transmitter. Behind a header that lies inside
the PDU the remaining length is never larger than the PDU. -/
def writePdu (rx : RlcAmRx) (payload : Bytes) :
    Except RlcAmFault (RlcAmRx × Option RlcStatusPdu) :=
  if payload.length < 1 then .ok (rx, none)
  else if rlcAmIsControlPdu payload then (RlcStatusPdu.read payload).map fun s => (rx, some s)
  else
    match AmdPduHeader.read payload with
    | .error fault => .error fault
    | .ok (header, payload) =>
      if header.rf then (rx.handleDataPduSegment payload header).map fun rx => (rx, none)
      else (rx.handleDataPdu payload header).map fun rx => (rx, none)

/-- `timer_expired`: the timer has stopped running when it is called. -/
def timerExpired (rx : RlcAmRx) : RlcAmRx :=
  let rx := { rx with reorderingTimer := false, vrMs := rx.vrX }
  let rx := advanceVrMs rx.rxWindow.entries.length rx
  let rx := if rx.pollReceived then { rx with doStatus := true } else rx
  if rx.rxModBase rx.vrH > rx.rxModBase rx.vrMs then
    { rx with reorderingTimer := true, vrX := rx.vrH }
  else rx

def resetStatus (rx : RlcAmRx) : RlcAmRx := { rx with doStatus := false, pollReceived := false }

/-- An SN below `vr_ms` is either NACKed or the new `ACK_SN`. -/
def noteSn (rx : RlcAmRx) (i : ℕ) (status : RlcStatusPdu) : RlcStatusPdu :=
  match rx.rxWindow.find? i with
  | none => { status with nacks := status.nacks ++ [RlcStatusNack.whole i] }
  | some _ => { status with ackSn := i }

def removeLastNack (status : RlcStatusPdu) : RlcStatusPdu :=
  if status.nacks.length ≥ 1 ∧ status.nacks.length < rlcAmWindowSize then
    let status := { status with nacks := status.nacks.dropLast }
    if status.isValid then status else { status with nacks := [] }
  else status

/-- The loop of `get_status_pdu` at `i`. Every round uses one unit of `fuel`. -/
def statusLoop (rx : RlcAmRx) (maxPduSize : ℕ) : ℕ → ℕ → RlcStatusPdu → RlcStatusPdu
  | 0, _, status => status
  | fuel + 1, i, status =>
    if rx.rxModBase i < rx.rxModBase rx.vrMs ∧ status.nacks.length < rlcAmWindowSize then
      let status := rx.noteSn i status
      if status.packedLength > maxPduSize then removeLastNack status
      else statusLoop rx maxPduSize fuel ((i + 1) % rlcAmMod) status
    else status

def getStatusPdu (rx : RlcAmRx) (maxPduSize : ℕ) : RlcStatusPdu :=
  statusLoop rx maxPduSize rlcAmMod rx.vrR { ackSn := rx.vrR, nacks := [] }

/-- The loop of `get_status_pdu_length` at `i`, which counts the NACKs. -/
def statusLengthLoop (rx : RlcAmRx) : ℕ → ℕ → ℕ → ℕ
  | 0, _, nNack => nNack
  | fuel + 1, i, nNack =>
    if rx.rxModBase i < rx.rxModBase rx.vrMs ∧ nNack < rlcAmWindowSize then
      statusLengthLoop rx fuel ((i + 1) % rlcAmMod)
        (if (rx.rxWindow.find? i).isNone then nNack + 1 else nNack)
    else nNack

def getStatusPduLength (rx : RlcAmRx) : ℕ :=
  (15 + 12 * statusLengthLoop rx rlcAmMod rx.vrR 0 + 7) / 8

end RlcAmRx
end SrsLte
