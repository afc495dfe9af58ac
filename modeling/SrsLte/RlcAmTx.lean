import Mathlib.Data.List.TakeDrop
import SrsLte.RlcAmRx

/-!
# Transmitter of RLC acknowledged mode (LTE)

`rlc_am_lte_tx` next to a receiver, whose state it reads and resets. A timer is idle, running or
expired. Values that a subtraction may wrap have 32 bits, and what is built tells whether one did.
The value of `rand()` is given from outside. PDUs in the window always have a buffer.
-/

namespace SrsLte

inductive RlcTimer
  | idle
  | running
  | expired
  deriving DecidableEq

/-- `stop` does not alter a timer that has expired. -/
def RlcTimer.stop : RlcTimer → RlcTimer
  | expired => expired
  | _ => idle

structure RlcAmConfig where
  pollPdu : ℤ
  pollByte : ℤ
  maxRetxThresh : ℕ
  tStatusProhibit : ℤ
  txQueueLength : ℕ
  deriving DecidableEq

structure RlcAmdTxPdu where
  header : AmdPduHeader
  buf : Bytes
  retxCount : ℕ
  deriving DecidableEq

structure RlcAmdRetx where
  sn : ℕ
  isSegment : Bool
  soStart : ℕ
  soEnd : ℕ
  deriving DecidableEq

structure RlcAmTx where
  cfg : RlcAmConfig
  txSduQueue : List Bytes
  txSdu : Option Bytes
  txEnabled : Bool
  vtA : ℕ
  vtMs : ℕ
  vtS : ℕ
  pollSn : ℕ
  pduWithoutPoll : ℕ
  byteWithoutPoll : ℕ
  pollRetxTimer : RlcTimer
  statusProhibitTimer : RlcTimer
  txWindow : OrderedMap ℕ RlcAmdTxPdu
  retxQueue : List RlcAmdRetx
  /-- Calls of `rrc->max_retx_attempted`. -/
  maxRetxAttempted : ℕ

/-- What `read_pdu` writes, whether a size computation wrapped on the way, and whether the buffer of
the PDU was extended past its tailroom. -/
structure RlcAmOutput where
  pdu : Bytes
  underflow : Bool
  overrun : Bool
  deriving DecidableEq

def RlcAmOutput.none : RlcAmOutput := { pdu := [], underflow := false, overrun := false }

namespace RlcAmTx

/-- `poll_periodicity`. -/
def pollPeriodicity : ℕ := 8

def configure (cfg : RlcAmConfig) : RlcAmTx where
  cfg := cfg
  txSduQueue := []
  txSdu := none
  txEnabled := true
  vtA := 0
  vtMs := rlcAmWindowSize
  vtS := 0
  pollSn := 0
  pduWithoutPoll := 0
  byteWithoutPoll := 0
  pollRetxTimer := .idle
  statusProhibitTimer := .idle
  txWindow := OrderedMap.empty
  retxQueue := []
  maxRetxAttempted := 0

def emptyQueue (tx : RlcAmTx) : RlcAmTx := { tx with txSduQueue := [], txSdu := none }

def stop (tx : RlcAmTx) : RlcAmTx :=
  { tx.emptyQueue with
    txEnabled := false
    pollRetxTimer := tx.pollRetxTimer.stop
    statusProhibitTimer := tx.statusProhibitTimer.stop
    vtA := 0
    vtMs := rlcAmWindowSize
    vtS := 0
    pollSn := 0
    pduWithoutPoll := 0
    byteWithoutPoll := 0
    txWindow := OrderedMap.empty
    retxQueue := [] }

def reestablish (tx : RlcAmTx) : RlcAmTx := { tx.stop with txEnabled := true }

/-- `TX_MOD_BASE`. -/
def txModBase (tx : RlcAmTx) (x : ℕ) : ℕ := Word.sub32 x tx.vtA % rlcAmMod

/-- `tx_window.size()`. -/
def windowSize (tx : RlcAmTx) : ℕ := tx.txWindow.entries.length

/-- `write_sdu`: whether the queue takes the SDU. -/
def accepts (tx : RlcAmTx) : Bool :=
  tx.txEnabled ∧ (tx.cfg.txQueueLength = 0 ∨ tx.txSduQueue.length < tx.cfg.txQueueLength)

def writeSdu (tx : RlcAmTx) (sdu : Bytes) : RlcAmTx :=
  if tx.accepts then { tx with txSduQueue := tx.txSduQueue ++ [sdu] } else tx

/-- `poll_required`. The timer that it runs again is run again by every caller too. -/
def pollRequired (tx : RlcAmTx) : Bool :=
  (tx.cfg.pollPdu > 0 ∧ (tx.pduWithoutPoll : ℤ) > tx.cfg.pollPdu) ∨
    (tx.cfg.pollByte > 0 ∧ (tx.byteWithoutPoll : ℤ) > tx.cfg.pollByte) ∨
    tx.pollRetxTimer = .expired ∨ tx.windowSize ≥ rlcAmWindowSize ∨
    (tx.txSduQueue = [] ∧ tx.retxQueue = []) ∨
    (tx.cfg.pollPdu = 0 ∧ tx.cfg.pollByte = 0 ∧ tx.vtS % pollPeriodicity = 0)

/-- "Set poll bit" for a PDU of `nBytes` bytes. -/
def setPollBit (tx : RlcAmTx) (nBytes : ℕ) : RlcAmTx × Bool :=
  let tx :=
    { tx with
      pduWithoutPoll := (tx.pduWithoutPoll + 1) % 2 ^ 32
      byteWithoutPoll := (tx.byteWithoutPoll + nBytes) % 2 ^ 32 }
  if tx.pollRequired then
    ({ tx with
        pollSn := tx.vtS
        pduWithoutPoll := 0
        byteWithoutPoll := 0
        pollRetxTimer := .running }, true)
  else (tx, false)

/-- `retransmit_random_pdu`. -/
def retransmitRandomPdu (tx : RlcAmTx) (rand : ℕ) : RlcAmTx :=
  match tx.txWindow.entries[rand % tx.windowSize]? with
  | none => tx
  | some (sn, pdu) =>
    { tx with
      retxQueue := tx.retxQueue ++
        [{ sn := sn, isSegment := false, soStart := 0, soEnd := pdu.buf.length }] }

def retxQueueHasSn (tx : RlcAmTx) (sn : ℕ) : Bool := tx.retxQueue.any fun r => r.sn = sn

structure Rebuilding where
  soEnd : ℕ
  pduSpace : ℕ
  lower : ℕ
  upper : ℕ
  fi : ℕ
  li : List ℕ
  underflow : Bool
  deriving DecidableEq

/-- "Current SDU is needed". -/
def needed (r : Rebuilding) (soStart : ℕ) : Bool := r.upper > soStart ∧ r.lower < r.soEnd

def partLength (r : Rebuilding) (soStart : ℕ) : ℕ × Bool :=
  let li := Word.sub32 r.upper r.lower
  let behind := if r.upper > r.soEnd then r.upper - r.soEnd else 0
  let front := if r.lower < soStart then soStart - r.lower else 0
  (Word.sub32 (Word.sub32 li behind) front,
    decide (li < behind ∨ Word.sub32 li behind < front))

def alignPart (r : Rebuilding) (soStart : ℕ) : ℕ :=
  let fi := if r.lower > 0 ∧ r.lower = soStart then r.fi &&& RlcFi.notEndAligned else r.fi
  if r.upper = r.soEnd then fi &&& RlcFi.notStartAligned else fi

/-- The rounds of `required_buffer_size` for a segment. -/
def requiredLoop (soStart : ℕ) : List ℕ → Rebuilding → Rebuilding
  | [], r => r
  | len :: lens, r =>
    if r.lower ≥ r.soEnd then r
    else
      let r := { r with upper := r.upper + len }
      let r :=
        if needed r soStart then
          let part := partLength r soStart
          { r with
            fi := alignPart r soStart
            li := r.li ++ [part.1 % 2 ^ 16]
            underflow := r.underflow || part.2 }
        else r
      requiredLoop soStart lens { r with lower := r.lower + len }

/-- `required_buffer_size` for a PDU of the window, and whether a computation wraps. -/
def requiredBufferSize (pdu : RlcAmdTxPdu) (retx : RlcAmdRetx) : ℤ × Bool :=
  if ¬ retx.isSegment then
    ((AmdPduHeader.packedLength pdu.header.rf pdu.header.li.length + pdu.buf.length : ℕ), false)
  else
    let r := requiredLoop retx.soStart pdu.header.li
      { soEnd := retx.soEnd, pduSpace := 0, lower := 0, upper := 0
        fi := RlcFi.notStartOrEndAligned, li := [], underflow := false }
    (Word.toInt32 (AmdPduHeader.packedLength true r.li.length +
        Word.sub32 retx.soEnd retx.soStart),
      r.underflow || decide (retx.soEnd < retx.soStart))

def cutSegment (r : Rebuilding) (soStart : ℕ) : Rebuilding :=
  { r with
    soEnd :=
      if r.pduSpace < Word.sub32 r.soEnd soStart then (soStart + r.pduSpace) % 2 ^ 32 else r.soEnd
    underflow := r.underflow || decide (r.soEnd < soStart) }

/-- The room for the segment with the header that the indicators so far need and as many bytes as
the whole PDU has indicators. -/
def makeRoom (nofBytes nLi len : ℕ) (r : Rebuilding) : Rebuilding :=
  let headLen := AmdPduHeader.packedLength true r.li.length + nLi
  { r with
    upper := r.upper + len
    pduSpace := Word.sub32 nofBytes headLen
    underflow := r.underflow || decide (nofBytes < headLen) }

def addPart (soStart : ℕ) (r : Rebuilding) : Rebuilding :=
  if needed r soStart then
    let part := partLength r soStart
    { r with
      fi := alignPart r soStart
      li := if r.soEnd > r.upper then r.li ++ [part.1 % 2 ^ 16] else r.li
      underflow := r.underflow || part.2 }
  else r

/-- The rounds of `build_segment`, where `nLi` is the number of indicators of the whole PDU. -/
def segmentLoop (nofBytes nLi soStart : ℕ) : List ℕ → Rebuilding → Rebuilding
  | [], r => r
  | len :: lens, r =>
    if r.lower ≥ r.soEnd then r
    else if r.pduSpace ≤ 2 then r
    else
      let r := addPart soStart (cutSegment (makeRoom nofBytes nLi len r) soStart)
      segmentLoop nofBytes nLi soStart lens { r with lower := r.lower + len }

def range (pdu : RlcAmdTxPdu) (retx : RlcAmdRetx) : RlcAmdRetx :=
  if retx.isSegment then retx else { retx with soStart := 0, soEnd := pdu.buf.length }

/-- `head_len` in front of the loop of `build_segment`. -/
def headLen (pdu : RlcAmdTxPdu) : ℕ :=
  AmdPduHeader.packedLength true 0 + if pdu.header.li.length > 0 then 2 else 0

/-- The variables in front of the loop of `build_segment`. -/
def startSegment (nofBytes : ℕ) (pdu : RlcAmdTxPdu) (retx : RlcAmdRetx) : Rebuilding :=
  let r := cutSegment
    { soEnd := retx.soEnd, pduSpace := nofBytes - headLen pdu, lower := 0, upper := 0
      fi := RlcFi.notStartOrEndAligned, li := [], underflow := false } retx.soStart
  if retx.soStart = 0 ∧ RlcFi.startAligned pdu.header.fi then
    { r with fi := r.fi &&& RlcFi.notEndAligned }
  else r

/-- The variables behind the loop of `build_segment`. -/
def rebuild (nofBytes : ℕ) (pdu : RlcAmdTxPdu) (retx : RlcAmdRetx) : Rebuilding :=
  segmentLoop nofBytes pdu.header.li.length retx.soStart pdu.header.li
    (startSegment nofBytes pdu retx)

def segmentHeader (pdu : RlcAmdTxPdu) (soStart : ℕ) (p : Bool) (r : Rebuilding) : AmdPduHeader :=
  let last : Bool := pdu.buf.length = r.soEnd
  { rf := true
    p := p
    fi := if last ∧ RlcFi.endAligned pdu.header.fi then r.fi &&& RlcFi.notStartAligned else r.fi
    sn := pdu.header.sn
    lsf := last
    so := soStart % 2 ^ 16
    li := r.li }

/-- "Update retx_queue" after a segment that ends at `soEnd`. -/
def updateRetxQueue (queue : List RlcAmdRetx) (nBytes soEnd : ℕ) : List RlcAmdRetx :=
  match queue with
  | [] => []
  | front :: rest =>
    if nBytes = soEnd then rest
    else if front.soEnd = soEnd then rest
    else { front with isSegment := true, soStart := soEnd } :: rest

/-- `build_segment` for the first entry of the queue, which belongs to `pdu`. What lies in memory
behind the payload is taken to be zero. -/
def buildSegment (tx : RlcAmTx) (nofBytes : ℕ) (pdu : RlcAmdTxPdu) (retx : RlcAmdRetx) :
    RlcAmTx × RlcAmOutput :=
  let retx := range pdu retx
  let (tx, p) := tx.setPollBit (pdu.buf.length + AmdPduHeader.packedLength false 0)
  if nofBytes ≤ headLen pdu then (tx, .none)
  else
    let r := rebuild nofBytes pdu retx
    ({ tx with retxQueue := updateRetxQueue tx.retxQueue pdu.buf.length r.soEnd },
      { pdu := (segmentHeader pdu retx.soStart p r).write ++
          (pdu.buf.drop retx.soStart).takeD (Word.sub32 r.soEnd retx.soStart) 0
        underflow := r.underflow || decide (r.soEnd < retx.soStart)
        overrun := false })

def resendPdu (tx : RlcAmTx) (pdu : RlcAmdTxPdu) (retx : RlcAmdRetx) : RlcAmTx × RlcAmOutput :=
  let (tx, p) := tx.setPollBit
    (pdu.buf.length + AmdPduHeader.packedLength pdu.header.rf pdu.header.li.length)
  let count := pdu.retxCount + 1
  ({ tx with
      retxQueue := tx.retxQueue.tail
      txWindow := tx.txWindow.insert retx.sn { pdu with retxCount := count }
      maxRetxAttempted :=
        if count ≥ tx.cfg.maxRetxThresh then tx.maxRetxAttempted + 1 else tx.maxRetxAttempted },
    { pdu := { pdu.header with p := p }.write ++ pdu.buf, underflow := false, overrun := false })

/-- "Drop any retx SNs not present in tx_window". -/
def dropStale (tx : RlcAmTx) : RlcAmTx :=
  { tx with retxQueue := tx.retxQueue.dropWhile fun r => (tx.txWindow.find? r.sn).isNone }

/-- `build_retx_pdu`. -/
def buildRetxPdu (tx : RlcAmTx) (nofBytes : ℕ) : RlcAmTx × RlcAmOutput :=
  let tx := tx.dropStale
  match tx.retxQueue with
  | [] => (tx, .none)
  | retx :: rest =>
    match tx.txWindow.find? retx.sn with
    | none => (tx, .none)
    | some pdu =>
      let (reqSize, underflow) := requiredBufferSize pdu retx
      if reqSize < 0 then ({ tx with retxQueue := rest }, { RlcAmOutput.none with underflow })
      else
        let (tx, out) :=
          if retx.isSegment ∨ reqSize > Word.toInt32 nofBytes then tx.buildSegment nofBytes pdu retx
          else tx.resendPdu pdu retx
        (tx, { out with underflow := underflow || out.underflow })

/-- The local variables of `build_data_pdu`, with whether one of them wrapped. The subtractions that
stand behind a comparison of their operands are not checked again. -/
structure Building extends RlcUmTx.Building where
  underflow : Bool
  deriving DecidableEq

def countedLi (b : Building) : List ℕ :=
  if b.lastLi > 0 then b.li ++ [b.lastLi] else b.li

/-- "Pull SDUs from queue", with the SDUs that stay in the queue. -/
def pullSdus : Building → List Bytes → Building × List Bytes
  | b, [] => (b, [])
  | b, sdu :: queue =>
    if b.pduSpace > b.headLen + 1 ∧ b.li.length < rlcAmWindowSize then
      let li := countedLi b
      let headLen := AmdPduHeader.packedLength false li.length
      if headLen ≥ b.pduSpace then
        ({ b with
            li := li.dropLast
            headLen := headLen
            underflow := b.underflow || decide (li.length = 0) }, sdu :: queue)
      else
        let toMove := min (b.pduSpace - headLen) sdu.length
        pullSdus
          { li := li
            lastLi := toMove
            headLen := headLen
            pduSpace := b.pduSpace - toMove
            data := b.data ++ sdu.take toMove
            txSdu := RlcUmTx.remainder sdu toMove
            underflow := b.underflow } queue
    else (b, sdu :: queue)

/-- The variables after "Check for SDU segment". -/
def startPdu (tx : RlcAmTx) (nofBytes : ℕ) : Building :=
  let b : RlcUmTx.Building :=
    { li := []
      lastLi := 0
      headLen := AmdPduHeader.packedLength false 0
      pduSpace := min nofBytes bufferTailroom
      data := []
      txSdu := none }
  match tx.txSdu with
  | none => { b with underflow := false }
  | some sdu =>
    let b := RlcUmTx.addSegment b sdu
    { b with underflow := decide (bufferTailroom < b.data.length) }

def framingInfo (tx : RlcAmTx) (b : Building) : ℕ :=
  RlcFi.startAndEndAligned ||| (if tx.txSdu = none then 0 else RlcFi.notStartAligned) |||
    (if b.txSdu = none then 0 else RlcFi.notEndAligned)

/-- There is data to send, the window is not full, and the grant is large enough for a PDU. -/
def canBuild (tx : RlcAmTx) (nofBytes : ℕ) : Bool :=
  ¬ (tx.txSdu = none ∧ tx.txSduQueue = []) ∧
    ¬ (tx.txSdu = none ∧ tx.windowSize ≥ rlcAmWindowSize) ∧
    min nofBytes bufferTailroom > AmdPduHeader.packedLength false 0 + 1

def newPdu (sn fi : ℕ) (p : Bool) (b : Building) : RlcAmdTxPdu where
  header := { rf := false, p := p, fi := fi, sn := sn, lsf := false, so := 0, li := b.li }
  buf := b.data
  retxCount := 0

/-- "Place PDU in tx_window, write header and TX". -/
def placePdu (tx : RlcAmTx) (fi : ℕ) (b : Building) : RlcAmTx × RlcAmOutput :=
  let (tx, p) := tx.setPollBit (b.data.length + b.headLen)
  let pdu := newPdu tx.vtS fi p b
  ({ tx with
      vtS := (tx.vtS + 1) % rlcAmMod
      txWindow := tx.txWindow.insert tx.vtS pdu },
    { pdu := pdu.header.write ++ b.data
      underflow := b.underflow
      overrun := decide (b.data.length > bufferTailroom) })

/-- `build_data_pdu`. -/
def buildDataPdu (tx : RlcAmTx) (nofBytes : ℕ) : RlcAmTx × RlcAmOutput :=
  if ¬ tx.canBuild nofBytes then (tx, .none)
  else
    let (b, queue) := pullSdus (tx.startPdu nofBytes) tx.txSduQueue
    let fi := tx.framingInfo b
    let tx := { tx with txSdu := b.txSdu, txSduQueue := queue }
    if b.data.length = 0 then (tx, .none) else tx.placePdu fi b

def statusDue (tx : RlcAmTx) (rx : RlcAmRx) : Bool :=
  rx.doStatus ∧ tx.statusProhibitTimer ≠ .running

/-- `build_status_pdu`. -/
def buildStatusPdu (tx : RlcAmTx) (rx : RlcAmRx) (nofBytes : ℕ) :
    RlcAmTx × RlcAmRx × RlcAmOutput :=
  let status := rx.getStatusPdu nofBytes
  if nofBytes ≥ status.packedLength then
    (if tx.cfg.tStatusProhibit > 0 then { tx with statusProhibitTimer := .running } else tx,
      rx.resetStatus, { RlcAmOutput.none with pdu := status.write })
  else (tx, rx, .none)

/-- "If tx_window is full and retx_queue empty, retransmit random PDU". -/
def scheduleRetx (tx : RlcAmTx) (rand : ℕ) : RlcAmTx :=
  if tx.windowSize ≥ rlcAmWindowSize ∧ tx.retxQueue = [] then tx.retransmitRandomPdu rand else tx

/-- "RETX if required". -/
def retransmit (tx : RlcAmTx) (nofBytes : ℕ) : RlcAmTx × RlcAmOutput :=
  if tx.retxQueue = [] then (tx, .none) else tx.buildRetxPdu nofBytes

/-- `read_pdu` of the transmitter next to the receiver `rx`. -/
def readPdu (tx : RlcAmTx) (rx : RlcAmRx) (rand nofBytes : ℕ) :
    RlcAmTx × RlcAmRx × RlcAmOutput :=
  if ¬ tx.txEnabled then (tx, rx, .none)
  else if tx.statusDue rx then tx.buildStatusPdu rx nofBytes
  else
    let (tx, retx) := (tx.scheduleRetx rand).retransmit nofBytes
    if retx.pdu.length > 0 then (tx, rx, retx)
    else
      let (tx, data) := tx.buildDataPdu nofBytes
      (tx, rx, { data with underflow := retx.underflow || data.underflow })

/-- "Bytes needed for retx". A retransmission whose size wraps is dropped. -/
def neededForRetx (tx : RlcAmTx) : RlcAmTx × ℕ :=
  match tx.retxQueue with
  | [] => (tx, 0)
  | retx :: rest =>
    match tx.txWindow.find? retx.sn with
    | none => (tx, 0)
    | some pdu =>
      let reqBytes := (requiredBufferSize pdu retx).1
      if reqBytes < 0 then ({ tx with retxQueue := rest }, 0) else (tx, reqBytes.toNat)

/-- `get_buffer_state`. -/
def getBufferState (tx : RlcAmTx) (rx : RlcAmRx) : RlcAmTx × ℕ :=
  let status := if tx.statusDue rx then rx.getStatusPduLength else 0
  let (tx, retx) := tx.neededForRetx
  let (nSdus, sdus) :=
    if tx.windowSize < 1024 then
      (tx.txSduQueue.length + if tx.txSdu = none then 0 else 1,
        (tx.txSduQueue.map List.length).sum + (tx.txSdu.getD []).length)
    else (0, 0)
  let nBytes := status + retx + sdus
  let nBytes := if nSdus > 1 then nBytes + LengthIndicators.length (nSdus - 1) else nBytes
  (tx, if nBytes > 0 ∧ nSdus > 0 then nBytes + 3 else nBytes)

/-- `timer_expired` of `poll_retx_timer`. -/
def pollRetxTimerExpired (tx : RlcAmTx) (rand : ℕ) : RlcAmTx :=
  let tx := { tx with pollRetxTimer := .expired }
  if (tx.retxQueue = [] ∧ tx.txSduQueue = []) ∨ tx.windowSize ≥ rlcAmWindowSize then
    tx.retransmitRandomPdu rand
  else tx

/-- The retransmission that a NACK asks for, of a PDU of `nBytes` bytes. -/
def retxOfNack (nBytes : ℕ) (nack : RlcStatusNack) : RlcAmdRetx :=
  if nack.hasSo then
    let soStart := if nack.soStart ≥ nBytes then 0 else nack.soStart
    let nackEnd := if nack.soEnd = 0x7FFF then nBytes else nack.soEnd
    let soEnd := if nack.soEnd = 0x7FFF then nBytes else nack.soEnd + 1
    if soStart < nBytes ∧ nackEnd ≤ nBytes then
      { sn := nack.nackSn, isSegment := true, soStart := soStart, soEnd := soEnd }
    else { sn := nack.nackSn, isSegment := false, soStart := 0, soEnd := soEnd }
  else { sn := nack.nackSn, isSegment := false, soStart := 0, soEnd := nBytes }

def handleNack (tx : RlcAmTx) (nack : RlcStatusNack) : RlcAmTx :=
  match tx.txWindow.find? nack.nackSn with
  | none => tx
  | some pdu =>
    if tx.retxQueueHasSn nack.nackSn then tx
    else { tx with retxQueue := tx.retxQueue ++ [retxOfNack pdu.buf.length nack] }

/-- "ACKed SNs get marked and removed from tx_window if possible". -/
def handleAck (tx : RlcAmTx) (sn : ℕ) (updateVtA : Bool) : RlcAmTx :=
  match tx.txWindow.find? sn with
  | none => tx
  | some _ =>
    if updateVtA then
      { tx with
        txWindow := tx.txWindow.erase sn
        vtA := (tx.vtA + 1) % rlcAmMod
        vtMs := (tx.vtMs + 1) % rlcAmMod }
    else tx

/-- "Handle ACKs and NACKs" from SN `i` on. Every round uses one unit of `fuel`; the loop reaches
`vt_s` within `MOD` rounds. -/
def controlLoop (status : RlcStatusPdu) : ℕ → ℕ → Bool → RlcAmTx → RlcAmTx
  | 0, _, _, tx => tx
  | fuel + 1, i, updateVtA, tx =>
    if tx.txModBase i < tx.txModBase status.ackSn ∧ tx.txModBase i < tx.txModBase tx.vtS then
      let nacks := status.nacks.filter fun n => n.nackSn = i
      if nacks = [] then
        controlLoop status fuel ((i + 1) % rlcAmMod) updateVtA (tx.handleAck i updateVtA)
      else controlLoop status fuel ((i + 1) % rlcAmMod) false (nacks.foldl handleNack tx)
    else tx

/-- `handle_control_pdu` behind `rlc_am_read_status_pdu`. -/
def handleControlPdu (tx : RlcAmTx) (status : RlcStatusPdu) : RlcAmTx :=
  let tx := { tx with pollRetxTimer := tx.pollRetxTimer.stop }
  let tx := if status.nacks.length > 0 then { tx with retxQueue := [] } else tx
  controlLoop status rlcAmMod tx.vtA true tx

end RlcAmTx
end SrsLte
