import SrsLte.PdcpBase

/-!
# NR PDCP entity

Transmit and receive side of `pdcp_entity_nr` with its reordering queue and timer. The ordered
`reorder_queue` is a list of entries sorted by COUNT. The four-byte `mac` arrays of `write_sdu`
and `write_pdu` are not initialised; their first content is the argument `stack`. The discard
timers, which only notify RLC, are left out.
-/

namespace SrsLte

structure PdcpEntityNr extends PdcpEntityBase where
  tReordering : ℕ
  txNext : ℕ
  rxNext : ℕ
  rxDeliv : ℕ
  rxReord : ℕ
  windowSize : ℕ
  reorderQueue : List (ℕ × Bytes)
  reorderingTimerRunning : Bool
  txOverflow : Bool
  rxOverflow : Bool

namespace PdcpEntityNr

variable (sec : SecurityLib)

def init (b : PdcpEntityBase) (tReordering : ℕ) : PdcpEntityNr where
  toPdcpEntityBase := { b with doIntegrity := false, doEncryption := false }
  tReordering := tReordering
  txNext := 0
  rxNext := 0
  rxDeliv := 0
  rxReord := 0
  windowSize := 1 <<< (b.cfg.snLen - 1)
  reorderQueue := []
  reorderingTimerRunning := false
  txOverflow := false
  rxOverflow := false

def uint16ToUint8 (i : ℕ) : Bytes := [UInt8.ofNat ((i >>> 8) &&& 0xFF), UInt8.ofNat (i &&& 0xFF)]

def uint24ToUint8 (i : ℕ) : Bytes :=
  [UInt8.ofNat ((i >>> 16) &&& 0xFF), UInt8.ofNat ((i >>> 8) &&& 0xFF), UInt8.ofNat (i &&& 0xFF)]

def uint8ToUint16 (buf : Bytes) : ℕ := (buf.getD 0 0).toNat <<< 8 ||| (buf.getD 1 0).toNat

def uint8ToUint24 (buf : Bytes) : ℕ :=
  (buf.getD 0 0).toNat <<< 16 ||| (buf.getD 1 0).toNat <<< 8 ||| (buf.getD 2 0).toNat

/-- `msg[0] |= 0x80`. -/
def setDFlag : Bytes → Bytes
  | [] => []
  | x :: xs => (x ||| 0x80) :: xs

/-- The header bytes of `write_data_header`. With an invalid SN length they keep what the buffer
held, taken as zeros. -/
def dataHeader (b : PdcpEntityBase) (count : ℕ) : Bytes :=
  if b.cfg.snLen = 12 then
    let hdr := uint16ToUint8 (b.sn count)
    if b.isDrb then setDFlag hdr else hdr
  else if b.cfg.snLen = 18 then setDFlag (uint24ToUint8 (b.sn count))
  else List.replicate b.cfg.hdrLenBytes 0

def writeDataHeader (b : PdcpEntityBase) (count : ℕ) (sdu : ByteBuffer) : ByteBuffer :=
  if h : (dataHeader b count).length ≤ sdu.headroom then sdu.prepend (dataHeader b count) h else sdu

def readDataHeader (b : PdcpEntityBase) (pdu : Bytes) : ℕ :=
  if b.cfg.snLen = 12 then b.sn (uint8ToUint16 pdu)
  else if b.cfg.snLen = 18 then b.sn (uint8ToUint24 pdu)
  else 0

def appendMac (mac : Mac) (sdu : ByteBuffer) : ByteBuffer :=
  if h : mac.val.length ≤ sdu.tailroom ∧ sdu.nBytes + 4 ≤ sdu.tailroom then sdu.append mac.val h.1
  else sdu

def extractMac (stack : Mac) (pdu : Bytes) : Bytes × Mac :=
  if h : 4 ≤ pdu.length then
    (pdu.take (pdu.length - 4), ⟨pdu.drop (pdu.length - 4), by rw [List.length_drop]; omega⟩)
  else (pdu, stack)

/-- The PDU built by `write_sdu` for COUNT `count`. -/
def packDataPdu (b : PdcpEntityBase) (stack : Mac) (count : ℕ) (sdu : ByteBuffer) : ByteBuffer :=
  let mac : Mac := ⟨b.integrityGenerate sec sdu.msg count stack.val,
    b.length_integrityGenerate sec _ _ _ stack.property⟩
  appendMac mac (writeDataHeader b count
    (sdu.overwrite (b.cipherEncrypt sec sdu.msg count) (b.length_cipherEncrypt sec _ _)))

/-- `write_sdu`; without a PDU the SDU is dropped. -/
def writeSdu (e : PdcpEntityNr) (stack : Mac) (sdu : ByteBuffer) :
    PdcpEntityNr × Option ByteBuffer :=
  if e.txOverflow then (e, none)
  else
    let next := (e.txNext + 1) % 2 ^ 32
    ({ e with txOverflow := next = 0, txNext := next },
      some (packDataPdu sec e.toPdcpEntityBase stack e.txNext sdu))

/-- RCVD_COUNT for a received SN. The comparison with the lower window edge is on signed values. -/
def rcvdCount (e : PdcpEntityNr) (rcvdSn : ℕ) : ℕ :=
  let rcvdHfn :=
    if (rcvdSn : ℤ) < (e.sn e.rxDeliv : ℤ) - e.windowSize then (e.hfn e.rxDeliv + 1) % 2 ^ 32
    else if rcvdSn ≥ e.sn e.rxDeliv + e.windowSize then Word.sub32 (e.hfn e.rxDeliv) 1
    else e.hfn e.rxDeliv
  e.countOf rcvdHfn rcvdSn

/-- The loop of `deliver_all_consecutive_counts` from the front of the queue on: RX_DELIV,
`rx_overflow`, the rest of the queue and what is passed to the upper layers. -/
def deliverConsecutive (rxDeliv : ℕ) (rxOverflow : Bool) :
    List (ℕ × Bytes) → ℕ × Bool × List (ℕ × Bytes) × List (ℕ × Bytes)
  | [] => (rxDeliv, rxOverflow, [], [])
  | p :: q =>
    if p.1 = rxDeliv then
      if rxOverflow then (rxDeliv, rxOverflow, p :: q, [])
      else
        let next := (rxDeliv + 1) % 2 ^ 32
        let (d, o, rest, out) := deliverConsecutive next (next = 0) q
        (d, o, rest, p :: out)
    else (rxDeliv, rxOverflow, p :: q, [])

def deliverAllConsecutiveCounts (e : PdcpEntityNr) : PdcpEntityNr × List (ℕ × Bytes) :=
  let (d, o, rest, out) := deliverConsecutive e.rxDeliv e.rxOverflow e.reorderQueue
  ({ e with rxDeliv := d, rxOverflow := o, reorderQueue := rest }, out)

def storePdu (count : ℕ) (sdu : Bytes) : List (ℕ × Bytes) → List (ℕ × Bytes)
  | [] => [(count, sdu)]
  | p :: q => if count < p.1 then (count, sdu) :: p :: q else p :: storePdu count sdu q

/-- The timer handling at the end of `write_pdu`. -/
def handleReorderingTimer (e : PdcpEntityNr) : PdcpEntityNr :=
  let e := if e.reorderingTimerRunning ∧ e.rxDeliv ≥ e.rxReord then
      { e with reorderingTimerRunning := false }
    else e
  if ¬ e.reorderingTimerRunning ∧ e.rxDeliv < e.rxNext then
    { e with rxReord := e.rxNext, reorderingTimerRunning := true }
  else e

def acceptPdu (e : PdcpEntityNr) (count : ℕ) (sdu : Bytes) : PdcpEntityNr × List (ℕ × Bytes) :=
  if count < e.rxDeliv then (e, [])
  else if e.reorderQueue.any (·.1 = count) then (e, [])
  else
    let e := { e with reorderQueue := storePdu count sdu e.reorderQueue }
    let e := if count ≥ e.rxNext then { e with rxNext := (count + 1) % 2 ^ 32 } else e
    let (e, out) := if count = e.rxDeliv then e.deliverAllConsecutiveCounts else (e, [])
    (e.handleReorderingTimer, out)

structure NrRxResult where
  entity : PdcpEntityNr
  rcvdCount : Option ℕ
  delivered : List (ℕ × Bytes)

def writePdu (e : PdcpEntityNr) (stack : Mac) (pdu : Bytes) : NrRxResult :=
  if pdu.length ≤ e.cfg.hdrLenBytes then ⟨e, none, []⟩
  else
    let count := e.rcvdCount (readDataHeader e.toPdcpEntityBase pdu)
    let (ct, mac) := extractMac stack (pdu.drop e.cfg.hdrLenBytes)
    let sdu := e.cipherDecrypt sec ct count
    if e.integrityVerify sec sdu count mac.val then
      let (e, out) := e.acceptPdu count sdu
      ⟨e, some count, out⟩
    else ⟨e, some count, []⟩

/-- `reordering_callback`. -/
def reorderingCallback (e : PdcpEntityNr) : PdcpEntityNr × List (ℕ × Bytes) :=
  let out := e.reorderQueue.takeWhile fun p => p.1 < e.rxReord
  let e := { e with reorderQueue := e.reorderQueue.dropWhile fun p => p.1 < e.rxReord }
  let (e, out') := e.deliverAllConsecutiveCounts
  let e := if e.rxDeliv < e.rxNext then
      { e with rxReord := e.rxNext, reorderingTimerRunning := true }
    else e
  (e, out ++ out')

def timerExpired (e : PdcpEntityNr) : PdcpEntityNr × List (ℕ × Bytes) :=
  if e.reorderingTimerRunning then
    let e := { e with reorderingTimerRunning := false }
    if e.tReordering > 0 then e.reorderingCallback else (e, [])
  else (e, [])

end PdcpEntityNr
end SrsLte
