import SrsLte.LengthIndicators
import SrsLte.Word

/-!
# RLC unacknowledged mode (LTE)

Transmitter and receiver of `rlc_um_lte`. The receive window is a list of PDUs with distinct
sequence numbers. An SDU buffer that is not allocated and one that is empty are both the empty
list. The SDUs handed to PDCP are logged in `delivered`. A length indicator is taken to lie inside
the PDU, as it does in every PDU the transmitter builds.
-/

namespace SrsLte

inductive UmdSnSize
  | size5bits
  | size10bits
  deriving DecidableEq

namespace UmdSnSize

/-- `tx_mod` and `rx_mod` of every configuration. -/
def mod : UmdSnSize → ℕ
  | size5bits => 32
  | size10bits => 1024

def rxWindowSize : UmdSnSize → ℕ
  | size5bits => 16
  | size10bits => 512

end UmdSnSize

/-- `SRSLTE_MAX_BUFFER_SIZE_BYTES - SRSLTE_BUFFER_HEADER_OFFSET`: tailroom of a new buffer. -/
def bufferTailroom : ℕ := maxBufferSizeBytes - 1020

namespace RlcFi

def startAndEndAligned : ℕ := 0
def notEndAligned : ℕ := 1
def notStartAligned : ℕ := 2
def notStartOrEndAligned : ℕ := 3

def startAligned (fi : ℕ) : Bool := fi = startAndEndAligned ∨ fi = notEndAligned

def endAligned (fi : ℕ) : Bool := fi = startAndEndAligned ∨ fi = notStartAligned

end RlcFi

structure UmdPduHeader where
  fi : ℕ
  snSize : UmdSnSize
  sn : ℕ
  li : List ℕ
  deriving DecidableEq

namespace UmdPduHeader

def fixedLength : UmdSnSize → ℕ
  | .size5bits => 1
  | .size10bits => 2

/-- `rlc_um_packed_length` with `nLi` length indicators. -/
def packedLength (snSize : UmdSnSize) (nLi : ℕ) : ℕ :=
  fixedLength snSize + LengthIndicators.length nLi

/-- `rlc_um_write_data_pdu_header`. -/
def write (h : UmdPduHeader) : Bytes :=
  let ext := if h.li.length > 0 then 1 else 0
  (match h.snSize with
    | .size5bits =>
      [UInt8.ofNat ((h.fi &&& 0x03) <<< 6 ||| (ext &&& 0x01) <<< 5 ||| (h.sn &&& 0x1F))]
    | .size10bits =>
      [UInt8.ofNat ((h.fi &&& 0x03) <<< 3 ||| (ext &&& 0x01) <<< 2 ||| (h.sn &&& 0x300) >>> 8),
        UInt8.ofNat (h.sn &&& 0xFF)]) ++
    LengthIndicators.write h.li

/-- `rlc_um_read_data_pdu_header`. -/
def read (snSize : UmdSnSize) (payload : Bytes) : UmdPduHeader :=
  let byte := fun i => (payload.getD i 0).toNat
  let (fi, ext, sn, ptr) :=
    match snSize with
    | .size5bits => (byte 0 >>> 6 &&& 0x03, byte 0 >>> 5 &&& 0x01, byte 0 &&& 0x1F, 1)
    | .size10bits =>
      (byte 0 >>> 3 &&& 0x03, byte 0 >>> 2 &&& 0x01, (byte 0 &&& 0x03) <<< 8 ||| (byte 1 &&& 0xFF),
        2)
  { fi := fi
    snSize := snSize
    sn := sn
    li := if ext = 1 then (LengthIndicators.read payload payload.length ptr []).1 else [] }

end UmdPduHeader

structure RlcUmTx where
  snSize : UmdSnSize
  txQueueLength : ℕ
  vtUs : ℕ
  txSdu : Option Bytes
  txSduQueue : List Bytes
  deriving DecidableEq

namespace RlcUmTx

def configure (snSize : UmdSnSize) (txQueueLength : ℕ) : RlcUmTx where
  snSize := snSize
  txQueueLength := txQueueLength
  vtUs := 0
  txSdu := none
  txSduQueue := []

/-- `write_sdu`: whether the queue takes the SDU. -/
def accepts (tx : RlcUmTx) : Bool := tx.txSduQueue.length < tx.txQueueLength

def writeSdu (tx : RlcUmTx) (sdu : Bytes) : RlcUmTx :=
  if tx.accepts then { tx with txSduQueue := tx.txSduQueue ++ [sdu] } else tx

/-- The local variables of `build_data_pdu`, with the rest of the SDU that is being sent. -/
structure Building where
  li : List ℕ
  lastLi : ℕ
  headLen : ℕ
  pduSpace : ℕ
  data : Bytes
  txSdu : Option Bytes
  deriving DecidableEq

/-- What is left of an SDU after `toMove` bytes. -/
def remainder (sdu : Bytes) (toMove : ℕ) : Option Bytes :=
  if (sdu.drop toMove).length = 0 then none else some (sdu.drop toMove)

/-- "Check for SDU segment". -/
def addSegment (b : Building) (sdu : Bytes) : Building :=
  let space := b.pduSpace - b.headLen
  let toMove := min space sdu.length
  { b with
    lastLi := toMove
    pduSpace := b.pduSpace - min toMove (bufferTailroom - toMove)
    data := b.data ++ sdu.take toMove
    txSdu := remainder sdu toMove }

/-- One round of "Pull SDUs from queue". -/
def pullSdu (snSize : UmdSnSize) (b : Building) (sdu : Bytes) : Building :=
  let li := if b.lastLi > 0 then b.li ++ [b.lastLi] else b.li
  let headLen := UmdPduHeader.packedLength snSize li.length
  let space := b.pduSpace - headLen
  let toMove := min space sdu.length
  { li := li
    lastLi := toMove
    headLen := headLen
    pduSpace := b.pduSpace - toMove
    data := b.data ++ sdu.take toMove
    txSdu := remainder sdu toMove }

/-- "Pull SDUs from queue", with the SDUs that stay in the queue. -/
def pullSdus (snSize : UmdSnSize) : Building → List Bytes → Building × List Bytes
  | b, [] => (b, [])
  | b, sdu :: queue =>
    if b.pduSpace > b.headLen + 1 then pullSdus snSize (pullSdu snSize b sdu) queue
    else (b, sdu :: queue)

/-- The variables after "Check for SDU segment". -/
def startPdu (tx : RlcUmTx) (nofBytes : ℕ) : Building :=
  let b : Building :=
    { li := []
      lastLi := 0
      headLen := UmdPduHeader.packedLength tx.snSize 0
      pduSpace := min nofBytes bufferTailroom
      data := []
      txSdu := none }
  match tx.txSdu with
  | none => b
  | some sdu => addSegment b sdu

def framingInfo (tx : RlcUmTx) (b : Building) : ℕ :=
  RlcFi.startAndEndAligned ||| (if tx.txSdu = none then 0 else RlcFi.notStartAligned) |||
    (if b.txSdu = none then 0 else RlcFi.notEndAligned)

def canBuild (tx : RlcUmTx) (nofBytes : ℕ) : Bool :=
  ¬ (tx.txSdu = none ∧ tx.txSduQueue = []) ∧
    min nofBytes bufferTailroom > UmdPduHeader.packedLength tx.snSize 0 + 1

/-- `build_data_pdu`: the PDU, `none` if there is none. -/
def buildDataPdu (tx : RlcUmTx) (nofBytes : ℕ) : RlcUmTx × Option Bytes :=
  if tx.canBuild nofBytes then
    let (b, queue) := pullSdus tx.snSize (tx.startPdu nofBytes) tx.txSduQueue
    let header : UmdPduHeader :=
      { fi := tx.framingInfo b, snSize := tx.snSize, sn := tx.vtUs, li := b.li }
    ({ tx with
        vtUs := (tx.vtUs + 1) % tx.snSize.mod
        txSdu := b.txSdu
        txSduQueue := queue },
      some (header.write ++ b.data))
  else (tx, none)

end RlcUmTx

structure UmdPdu where
  header : UmdPduHeader
  buf : Bytes
  deriving DecidableEq

structure RlcUmRx where
  snSize : UmdSnSize
  rxWindow : List UmdPdu
  rxSdu : Bytes
  vrUrInRxSdu : ℕ
  vrUr : ℕ
  vrUx : ℕ
  vrUh : ℕ
  pduLost : Bool
  /-- `reordering_timer.is_running()`. -/
  reorderingTimer : Bool
  delivered : List Bytes
  deriving DecidableEq

namespace RlcUmRx

def configure (snSize : UmdSnSize) : RlcUmRx where
  snSize := snSize
  rxWindow := []
  rxSdu := []
  vrUrInRxSdu := 0
  vrUr := 0
  vrUx := 0
  vrUh := 0
  pduLost := false
  reorderingTimer := false
  delivered := []

/-- `RX_MOD_BASE`. -/
def rxModBase (rx : RlcUmRx) (x : ℕ) : ℕ :=
  Word.sub32 (Word.sub32 x rx.vrUh) rx.snSize.rxWindowSize % rx.snSize.mod

def find (rx : RlcUmRx) (sn : ℕ) : Option UmdPdu := rx.rxWindow.find? fun p => p.header.sn = sn

/-- `rx_window.erase`. -/
def erase (rx : RlcUmRx) (sn : ℕ) : RlcUmRx :=
  { rx with rxWindow := rx.rxWindow.filter fun p => p.header.sn ≠ sn }

/-- `inside_reordering_window`. -/
def insideReorderingWindow (rx : RlcUmRx) (sn : ℕ) : Bool :=
  rx.rxWindow = [] ∨
    (rx.rxModBase (Word.sub32 rx.vrUh rx.snSize.rxWindowSize) ≤ rx.rxModBase sn ∧
      rx.rxModBase sn < rx.rxModBase rx.vrUh)

def pduBelongsToRxSdu (rx : RlcUmRx) : Bool :=
  (rx.vrUrInRxSdu + 1) % rx.snSize.mod = rx.vrUr ∨ rx.vrUr = rx.vrUrInRxSdu

/-- `rx_sdu` goes to PDCP and a new buffer is allocated. -/
def deliver (rx : RlcUmRx) : RlcUmRx :=
  { rx with delivered := rx.delivered ++ [rx.rxSdu], rxSdu := [] }

def clearSdu (rx : RlcUmRx) : RlcUmRx := { rx with rxSdu := [] }

def append (rx : RlcUmRx) (bytes : Bytes) : RlcUmRx := { rx with rxSdu := rx.rxSdu ++ bytes }

/-- "Handle any SDU segments" below the window: from segment `i` on, with the length indicators
and the bytes that are left. -/
def lowerEdgeSegments (fi : ℕ) : ℕ → List ℕ → RlcUmRx → Bytes → RlcUmRx × Bytes
  | _, [], rx, buf => (rx, buf)
  | i, len :: li, rx, buf =>
    if rx.rxSdu = [] ∧ i = 0 ∧ ¬ RlcFi.startAligned fi then (rx.clearSdu, buf.drop len)
    else
      let rx := rx.append (buf.take len)
      let rx :=
        if (rx.pduLost ∧ ¬ RlcFi.startAligned fi) ∨
            rx.vrUr ≠ (rx.vrUrInRxSdu + 1) % rx.snSize.mod then rx.clearSdu
        else rx.deliver
      lowerEdgeSegments fi (i + 1) li { rx with pduLost := false } (buf.drop len)

def endSdu (rx : RlcUmRx) (fi : ℕ) : RlcUmRx :=
  if RlcFi.endAligned fi then
    let rx := if rx.pduLost ∧ ¬ RlcFi.startAligned fi then rx.clearSdu else rx.deliver
    { rx with pduLost := false }
  else rx

/-- "Handle last segment" below the window. -/
def lowerEdgeLast (rx : RlcUmRx) (fi : ℕ) (buf : Bytes) : RlcUmRx :=
  if rx.rxSdu ≠ [] ∨ RlcFi.startAligned fi then
    let rx := rx.append buf
    { rx with vrUrInRxSdu := rx.vrUr }.endSdu fi
  else rx

/-- One round of "catch up with lower edge of reordering window". -/
def lowerEdgeStep (rx : RlcUmRx) : RlcUmRx :=
  let rx :=
    match rx.find rx.vrUr with
    | none => rx.clearSdu
    | some pdu =>
      let (rx, buf) := lowerEdgeSegments pdu.header.fi 0 pdu.header.li rx pdu.buf
      let rx := rx.lowerEdgeLast pdu.header.fi buf
      rx.erase rx.vrUr
  { rx with vrUr := (rx.vrUr + 1) % rx.snSize.mod }

/-- Every round uses one unit of `fuel`; the lower edge is reached within `rx_mod` rounds. -/
def catchUp : ℕ → RlcUmRx → RlcUmRx
  | 0, rx => rx
  | fuel + 1, rx =>
    if rx.insideReorderingWindow rx.vrUr then rx else catchUp fuel rx.lowerEdgeStep

/-- `rx_sdu->get_tailroom()`. -/
def sduTailroom (rx : RlcUmRx) : ℕ := bufferTailroom - rx.rxSdu.length

/-- "Handle any SDU segments" from segment `i` on. The flag tells that the rest of the PDU is
skipped. -/
def updateSegments (fi : ℕ) : ℕ → List ℕ → RlcUmRx → Bytes → RlcUmRx × Bytes × Bool
  | _, [], rx, buf => (rx, buf, false)
  | i, len :: li, rx, buf =>
    if rx.rxSdu = [] ∧ i = 0 ∧ ¬ RlcFi.startAligned fi then
      if buf.length < len then (rx, buf, true)
      else updateSegments fi (i + 1) li { rx.clearSdu with pduLost := false } (buf.drop len)
    else if len > rx.sduTailroom then (rx.clearSdu, buf, true)
    else
      let rx := { rx.append (buf.take len) with vrUrInRxSdu := rx.vrUr }
      let (rx, buf) :=
        if rx.pduBelongsToRxSdu then (rx.deliver, buf.drop len)
        else (rx, (buf.drop len).drop len)
      updateSegments fi (i + 1) li { rx with pduLost := false } buf

/-- "Handle last segment". -/
def updateLast (rx : RlcUmRx) (fi : ℕ) (nLi : ℕ) (buf : Bytes) : RlcUmRx :=
  if rx.rxSdu = [] ∧ nLi = 0 ∧ ¬ RlcFi.startAligned fi then rx.clearSdu
  else
    let rx :=
      if rx.rxSdu.length < maxBufferSizeBytes ∧ buf.length < maxBufferSizeBytes ∧
          buf.length + rx.rxSdu.length < maxBufferSizeBytes then rx.append buf
      else rx
    { rx with vrUrInRxSdu := rx.vrUr }.endSdu fi

/-- The PDU with SN `vr_ur` in "update vr_ur until we reach an SN we haven't yet received". -/
def updatePdu (rx : RlcUmRx) (pdu : UmdPdu) : RlcUmRx :=
  let rx := if ¬ rx.pduBelongsToRxSdu then { rx.clearSdu with pduLost := false } else rx
  let (rx, buf, skip) := updateSegments pdu.header.fi 0 pdu.header.li rx pdu.buf
  let rx := if skip then rx else rx.updateLast pdu.header.fi pdu.header.li.length buf
  let rx := rx.erase rx.vrUr
  { rx with vrUr := (rx.vrUr + 1) % rx.snSize.mod }

/-- Every round uses one unit of `fuel` and erases a PDU of the window. -/
def updateVrUr : ℕ → RlcUmRx → RlcUmRx
  | 0, rx => rx
  | fuel + 1, rx =>
    match rx.find rx.vrUr with
    | none => rx
    | some pdu => updateVrUr fuel (rx.updatePdu pdu)

def reassembleRxSdus (rx : RlcUmRx) : RlcUmRx :=
  let rx := catchUp rx.snSize.mod rx
  updateVrUr rx.rxWindow.length rx

def stopTimer (rx : RlcUmRx) : RlcUmRx :=
  if rx.reorderingTimer ∧
      (rx.rxModBase rx.vrUx ≤ rx.rxModBase rx.vrUr ∨
        (¬ rx.insideReorderingWindow rx.vrUx ∧ rx.vrUx ≠ rx.vrUh)) then
    { rx with reorderingTimer := false }
  else rx

def startTimer (rx : RlcUmRx) : RlcUmRx :=
  if ¬ rx.reorderingTimer ∧ rx.rxModBase rx.vrUh > rx.rxModBase rx.vrUr then
    { rx with reorderingTimer := true, vrUx := rx.vrUh }
  else rx

def discards (rx : RlcUmRx) (sn : ℕ) : Bool :=
  (rx.rxModBase sn ≥ rx.rxModBase (Word.sub32 rx.vrUh rx.snSize.rxWindowSize) ∧
    rx.rxModBase sn < rx.rxModBase rx.vrUr) ∨ (rx.find sn).isSome

/-- The PDU goes to the window, and `vr_uh` is updated. -/
def store (rx : RlcUmRx) (pdu : UmdPdu) : RlcUmRx :=
  let rx := { rx with rxWindow := pdu :: rx.rxWindow }
  if ¬ rx.insideReorderingWindow pdu.header.sn then
    { rx with vrUh := (pdu.header.sn + 1) % rx.snSize.mod }
  else rx

def handleDataPdu (rx : RlcUmRx) (payload : Bytes) : RlcUmRx :=
  let header := UmdPduHeader.read rx.snSize payload
  if rx.discards header.sn then rx
  else
    let headerLen := UmdPduHeader.packedLength rx.snSize header.li.length
    (rx.store ⟨header, payload.drop headerLen⟩).reassembleRxSdus.stopTimer.startTimer

/-- The loop of `timer_expired`. Every round uses one unit of `fuel`; `rx_mod` rounds reach
`vr_ux`. -/
def expireLoop : ℕ → RlcUmRx → RlcUmRx
  | 0, rx => rx
  | fuel + 1, rx =>
    if rx.rxModBase rx.vrUr < rx.rxModBase rx.vrUx then
      expireLoop fuel { rx with vrUr := (rx.vrUr + 1) % rx.snSize.mod }.reassembleRxSdus
    else rx

/-- `timer_expired`: the timer has stopped running when it is called. -/
def timerExpired (rx : RlcUmRx) : RlcUmRx :=
  let rx := { rx.clearSdu with pduLost := true, reorderingTimer := false }
  (expireLoop rx.snSize.mod rx).startTimer

/-- `reset`: the timer is left alone. -/
def reset (rx : RlcUmRx) : RlcUmRx :=
  { rx with rxWindow := [], rxSdu := [], vrUr := 0, vrUx := 0, vrUh := 0, pduLost := false }

def stop (rx : RlcUmRx) : RlcUmRx := { rx.reset with reorderingTimer := false }

/-- `reestablish`: a running timer is taken to have expired. -/
def reestablish (rx : RlcUmRx) : RlcUmRx :=
  if rx.reorderingTimer then rx.timerExpired.reset else rx.reset

end RlcUmRx
end SrsLte
