import SrsLte.OrderedMap
import SrsLte.RlcUm

/-!
# RLC unacknowledged mode (NR)

Transmitter and receiver of `rlc_um_nr`. The SDUs handed to PDCP are logged in `delivered`; buffers
can always be allocated. The two places of the receiver that do not return (a loop that keeps its
iterator, and a log message that reads a buffer that was never allocated) give `none`.
-/

namespace SrsLte

inductive UmNrSnSize
  | size6bits
  | size12bits
  deriving DecidableEq

namespace UmNrSnSize

/-- `mod` of `default_rlc_um_nr_config`. -/
def mod : UmNrSnSize → ℕ
  | size6bits => 64
  | size12bits => 64

def umWindowSize : UmNrSnSize → ℕ
  | size6bits => 32
  | size12bits => 2048

end UmNrSnSize

/-- `rlc_nr_si_field_t`. -/
inductive NrSiField
  | fullSdu
  | firstSegment
  | lastSegment
  | neitherFirstNorLastSegment
  deriving DecidableEq

namespace NrSiField

def code : NrSiField → ℕ
  | fullSdu => 0b00
  | firstSegment => 0b01
  | lastSegment => 0b10
  | neitherFirstNorLastSegment => 0b11

def ofCode : ℕ → NrSiField
  | 0b00 => fullSdu
  | 0b01 => firstSegment
  | 0b10 => lastSegment
  | _ => neitherFirstNorLastSegment

def hasSo (si : NrSiField) : Bool := si = lastSegment ∨ si = neitherFirstNorLastSegment

end NrSiField

structure UmNrPduHeader where
  si : NrSiField
  snSize : UmNrSnSize
  sn : ℕ
  so : ℕ
  deriving DecidableEq

namespace UmNrPduHeader

/-- `rlc_um_nr_packed_length`. -/
def packedLength (h : UmNrPduHeader) : ℕ :=
  if h.si = .fullSdu ∨ h.si = .firstSegment then
    match h.snSize with
    | .size6bits => 1
    | .size12bits => 2
  else
    match h.snSize with
    | .size6bits => 3
    | .size12bits => 4

/-- The bytes that `rlc_um_nr_write_data_pdu_header` writes. -/
def fields (h : UmNrPduHeader) : Bytes :=
  let si := (h.si.code &&& 0x03) <<< 6
  if h.si = .fullSdu then [UInt8.ofNat si]
  else
    (match h.snSize with
      | .size6bits => [UInt8.ofNat (si ||| (h.sn &&& 0x3f))]
      | .size12bits => [UInt8.ofNat (si ||| (h.sn &&& 0xf)), UInt8.ofNat (h.sn &&& 0xFF)]) ++
    if h.so ≠ 0 then [UInt8.ofNat (h.so >>> 8), UInt8.ofNat (h.so &&& 0xFF)] else []

/-- `rlc_um_nr_write_data_pdu_header`. The start of the message moves by the packed length, but the
message grows only by what is written. A header byte that is not written is taken to be 0. -/
def write (h : UmNrPduHeader) (msg : Bytes) : Bytes :=
  (h.fields ++ (List.replicate h.packedLength 0 ++ msg).drop h.fields.length).take
    (h.fields.length + msg.length)

/-- `rlc_um_nr_read_data_pdu_header`. -/
def read (snSize : UmNrSnSize) (payload : Bytes) : UmNrPduHeader :=
  let byte := fun i => (payload.getD i 0).toNat
  let si := NrSiField.ofCode (byte 0 >>> 6 &&& 0x03)
  let so := fun ptr =>
    if si.hasSo then (byte ptr &&& 0xFF) <<< 8 ||| (byte (ptr + 1) &&& 0xFF) else 0
  match snSize with
  | .size6bits => { si := si, snSize := snSize, sn := byte 0 &&& 0x3F, so := so 1 }
  | .size12bits =>
    let sn := (byte 0 &&& 0x0F) <<< 4
    -- "Malformed PDU, reserved bits are set."
    if si = .firstSegment ∧ byte 0 >>> 4 &&& 0x03 ≠ 0 then
      { si := si, snSize := snSize, sn := sn, so := 0 }
    else { si := si, snSize := snSize, sn := sn ||| (byte 1 &&& 0xFF), so := so 2 }

end UmNrPduHeader

structure RlcUmNrTx where
  snSize : UmNrSnSize
  txQueueLength : ℕ
  txNext : ℕ
  nextSo : ℕ
  txSdu : Option Bytes
  txSduQueue : List Bytes
  deriving DecidableEq

namespace RlcUmNrTx

def configure (snSize : UmNrSnSize) (txQueueLength : ℕ) : RlcUmNrTx where
  snSize := snSize
  txQueueLength := txQueueLength
  txNext := 0
  nextSo := 0
  txSdu := none
  txSduQueue := []

/-- `write_sdu`: whether the queue takes the SDU. -/
def accepts (tx : RlcUmNrTx) : Bool := tx.txSduQueue.length < tx.txQueueLength

def writeSdu (tx : RlcUmNrTx) (sdu : Bytes) : RlcUmNrTx :=
  if tx.accepts then { tx with txSduQueue := tx.txSduQueue ++ [sdu] } else tx

def headLen (tx : RlcUmNrTx) : ℕ :=
  UmNrPduHeader.packedLength { si := .fullSdu, snSize := tx.snSize, sn := tx.txNext, so := 0 }

def toMove (tx : RlcUmNrTx) (nofBytes : ℕ) (sdu : Bytes) : ℕ :=
  min (min nofBytes bufferTailroom - tx.headLen) sdu.length

/-- "advance SO offset", "Update SN if needed" and "Add header and TX". -/
def submit (tx : RlcUmNrTx) (si : NrSiField) (so : ℕ) (data : Bytes) : RlcUmNrTx × Bytes :=
  let header : UmNrPduHeader := { si := si, snSize := tx.snSize, sn := tx.txNext, so := so }
  let nextSo := (tx.nextSo + data.length) % 2 ^ 32
  (if si = .lastSegment then { tx with txNext := (tx.txNext + 1) % tx.snSize.mod, nextSo := 0 }
    else { tx with nextSo := nextSo },
    header.write data)

/-- "adding remainder of SDU segment". -/
def addSegment (tx : RlcUmNrTx) (nofBytes : ℕ) (sdu : Bytes) : RlcUmNrTx × Bytes :=
  let toMove := tx.toMove nofBytes sdu
  let txSdu := RlcUmTx.remainder sdu toMove
  let si := if txSdu = none then NrSiField.lastSegment else .neitherFirstNorLastSegment
  { tx with txSdu := txSdu }.submit si (tx.nextSo % 2 ^ 16) (sdu.take toMove)

/-- "adding new SDU". -/
def pullSdu (tx : RlcUmNrTx) (nofBytes : ℕ) (sdu : Bytes) (queue : List Bytes) :
    RlcUmNrTx × Bytes :=
  let toMove := tx.toMove nofBytes sdu
  let txSdu := RlcUmTx.remainder sdu toMove
  let si := if txSdu = none then NrSiField.fullSdu else .firstSegment
  { tx with txSdu := txSdu, txSduQueue := queue }.submit si 0 (sdu.take toMove)

/-- `build_data_pdu`: the PDU, `none` if there is none. -/
def buildDataPdu (tx : RlcUmNrTx) (nofBytes : ℕ) : RlcUmNrTx × Option Bytes :=
  if min nofBytes bufferTailroom ≤ tx.headLen + 1 then (tx, none)
  else
    match tx.txSdu, tx.txSduQueue with
    | some sdu, _ => (tx.addSegment nofBytes sdu).map id some
    | none, sdu :: queue => (tx.pullSdu nofBytes sdu queue).map id some
    | none, [] => (tx, none)

end RlcUmNrTx

/-- A PDU without its header, which is still in front of it in the buffer. -/
structure UmNrBuffer where
  headerLen : ℕ
  bytes : Bytes
  deriving DecidableEq

def UmNrBuffer.tailroom (b : UmNrBuffer) : ℕ := bufferTailroom - b.headerLen - b.bytes.length

/-- `rlc_umd_pdu_nr_t`. -/
structure UmNrPdu where
  header : UmNrPduHeader
  buf : UmNrBuffer
  deriving DecidableEq

/-- `rlc_umd_pdu_segments_nr_t`. -/
structure UmNrPduSegments where
  segments : OrderedMap ℕ UmNrPdu
  sdu : Option UmNrBuffer
  nextExpectedSo : ℕ
  totalSduLength : ℕ

namespace UmNrPduSegments

def empty : UmNrPduSegments where
  segments := .empty
  sdu := none
  nextExpectedSo := 0
  totalSduLength := 0

def updateTotalSduLength (p : UmNrPduSegments) (pdu : UmNrPdu) : UmNrPduSegments :=
  if pdu.header.si = .lastSegment then
    { p with totalSduLength := pdu.header.so + pdu.buf.bytes.length }
  else p

/-- `update_total_sdu_length` and `segments.emplace`. -/
def place (p : UmNrPduSegments) (pdu : UmNrPdu) : UmNrPduSegments :=
  let p := p.updateTotalSduLength pdu
  { p with segments := p.segments.emplace pdu.header.so pdu }

inductive Outcome
  | waiting (p : UmNrPduSegments)
  | complete (sdu : Bytes)
  | failure

def takeFirst (p : UmNrPduSegments) (pdu : UmNrPdu) : UmNrPduSegments :=
  { p with
    sdu := some pdu.buf
    nextExpectedSo := pdu.buf.bytes.length
    segments := p.segments.erase pdu.header.so }

/-- "add this segment to the end of the SDU buffer". -/
def append (p : UmNrPduSegments) (sdu : UmNrBuffer) (pdu : UmNrPdu) : UmNrPduSegments :=
  { p with
    sdu := some { sdu with bytes := sdu.bytes ++ pdu.buf.bytes }
    nextExpectedSo := p.nextExpectedSo + pdu.buf.bytes.length
    segments := p.segments.erase pdu.header.so }

/-- "iterate over received segments and try to assemble full SDU". -/
def assemble : List (ℕ × UmNrPdu) → UmNrPduSegments → Outcome
  | [], p => .waiting p
  | (_, pdu) :: rest, p =>
    if pdu.header.so = p.nextExpectedSo then
      match p.sdu with
      | none => if p.nextExpectedSo = 0 then assemble rest (p.takeFirst pdu) else .failure
      | some sdu =>
        if p.nextExpectedSo = 0 then .failure
        else if pdu.buf.bytes.length > sdu.tailroom then .failure
        else
          let p := p.append sdu pdu
          if p.nextExpectedSo = p.totalSduLength then .complete (sdu.bytes ++ pdu.buf.bytes)
          else assemble rest p
    else assemble rest p

end UmNrPduSegments

structure RlcUmNrRx where
  snSize : UmNrSnSize
  rxWindow : OrderedMap ℕ UmNrPduSegments
  rxNextReassembly : ℕ
  rxTimerTrigger : ℕ
  rxNextHighest : ℕ
  /-- `reassembly_timer.is_running()`. -/
  reassemblyTimer : Bool
  delivered : List Bytes

namespace RlcUmNrRx

def configure (snSize : UmNrSnSize) : RlcUmNrRx where
  snSize := snSize
  rxWindow := .empty
  rxNextReassembly := 0
  rxTimerTrigger := 0
  rxNextHighest := 0
  reassemblyTimer := false
  delivered := []

/-- `RX_MOD_NR_BASE`. -/
def rxModNrBase (rx : RlcUmNrRx) (x : ℕ) : ℕ :=
  Word.sub32 (Word.sub32 x rx.rxNextHighest) rx.snSize.umWindowSize % rx.snSize.mod

/-- `RX_MOD_NR_BASE` of the lower edge of the window. -/
def lowerEdge (rx : RlcUmNrRx) : ℕ :=
  rx.rxModNrBase (Word.sub32 rx.rxNextHighest rx.snSize.umWindowSize)

def snInReassemblyWindow (rx : RlcUmNrRx) (sn : ℕ) : Bool :=
  rx.lowerEdge ≤ rx.rxModNrBase sn ∧ rx.rxModNrBase sn < rx.rxModNrBase rx.rxNextHighest

def snInvalidForRxBuffer (rx : RlcUmNrRx) (sn : ℕ) : Bool :=
  rx.lowerEdge ≤ rx.rxModNrBase sn ∧ rx.rxModNrBase sn < rx.rxModNrBase rx.rxNextReassembly

def hasMissingByteSegment (rx : RlcUmNrRx) (sn : ℕ) : Bool := (rx.rxWindow.find? sn).isSome

/-- The loops that advance `RX_Next_Reassembly` to `RX_Next_Highest`. Every round uses one unit of
`fuel`; `mod` rounds are enough. -/
def advance : ℕ → RlcUmNrRx → RlcUmNrRx
  | 0, rx => rx
  | fuel + 1, rx =>
    if rx.rxModNrBase rx.rxNextReassembly < rx.rxModNrBase rx.rxNextHighest then
      advance fuel { rx with rxNextReassembly := (rx.rxNextReassembly + 1) % rx.snSize.mod }
    else rx

/-- "deliver full SDU to upper layers" and "find next SN in rx buffer". -/
def deliver (rx : RlcUmNrRx) (sn : ℕ) (sdu : Bytes) : RlcUmNrRx :=
  let rx := { rx with delivered := rx.delivered ++ [sdu] }
  let rx :=
    if sn = rx.rxNextReassembly then
      advance rx.snSize.mod
        { rx with rxNextReassembly := (rx.rxNextReassembly + 1) % rx.snSize.mod }
    else rx
  { rx with rxWindow := rx.rxWindow.erase sn }

/-- "update RX_Next_highest" and "drop all SNs outside of new rx window". -/
def moveWindow (rx : RlcUmNrRx) (sn : ℕ) : RlcUmNrRx :=
  let rx := { rx with rxNextHighest := sn + 1 }
  { rx with rxWindow := rx.rxWindow.filterKeys rx.snInReassemblyWindow }

/-- "update RX_Next_Reassembly to first SN that has not been reassembled and delivered". -/
def updateNextReassembly (rx : RlcUmNrRx) : RlcUmNrRx :=
  if rx.snInReassemblyWindow rx.rxNextReassembly then rx
  else
    match rx.rxWindow.entries.find? fun e => e.1 ≥ rx.lowerEdge with
    | some e => { rx with rxNextReassembly := e.1 }
    | none => rx

def stopTimer (rx : RlcUmNrRx) (sn : ℕ) : RlcUmNrRx :=
  if rx.reassemblyTimer ∧
      (rx.rxTimerTrigger ≤ rx.rxNextReassembly ∨
        (¬ rx.snInReassemblyWindow rx.rxTimerTrigger ∧ rx.rxTimerTrigger ≠ rx.rxNextHighest) ∨
        (rx.rxNextHighest = rx.rxNextReassembly + 1 ∧ ¬ rx.hasMissingByteSegment sn)) then
    { rx with reassemblyTimer := false }
  else rx

def runTimer (rx : RlcUmNrRx) : RlcUmNrRx :=
  { rx with reassemblyTimer := true, rxTimerTrigger := rx.rxNextHighest }

def startTimer (rx : RlcUmNrRx) (sn : ℕ) : RlcUmNrRx :=
  if ¬ rx.reassemblyTimer ∧ rx.hasMissingByteSegment sn ∧
      rx.rxNextHighest > rx.rxNextReassembly + 1 then rx.runTimer
  else rx

/-- "check for SN outside of rx window". -/
def updateWindow (rx : RlcUmNrRx) (sn : ℕ) : RlcUmNrRx :=
  if rx.snInReassemblyWindow sn then rx
  else (((rx.moveWindow sn).updateNextReassembly).stopTimer sn).startTimer sn

/-- `handle_rx_buffer_update`. -/
def handleRxBufferUpdate (rx : RlcUmNrRx) (sn : ℕ) : Option RlcUmNrRx :=
  match rx.rxWindow.find? sn with
  | none => some rx
  | some pdu =>
    match UmNrPduSegments.assemble pdu.segments.entries pdu with
    | .waiting pdu => some ({ rx with rxWindow := rx.rxWindow.insert sn pdu }.updateWindow sn)
    | .complete sdu => some (rx.deliver sn sdu)
    | .failure => none

/-- `rlc_um_nr_strip_pdu_header`. -/
def stripPduHeader (header : UmNrPduHeader) (payload : Bytes) : UmNrBuffer :=
  { headerLen := header.packedLength, bytes := payload.drop header.packedLength }

/-- "place PDU in receive buffer". -/
def placePdu (rx : RlcUmNrRx) (pdu : UmNrPdu) : RlcUmNrRx :=
  let segments := (rx.rxWindow.find? pdu.header.sn).getD .empty
  { rx with rxWindow := rx.rxWindow.insert pdu.header.sn (segments.place pdu) }

def handleDataPdu (rx : RlcUmNrRx) (payload : Bytes) : Option RlcUmNrRx :=
  let header := UmNrPduHeader.read rx.snSize payload
  let buf := stripPduHeader header payload
  if header.si = .fullSdu then some { rx with delivered := rx.delivered ++ [buf.bytes] }
  else if rx.snInvalidForRxBuffer header.sn then some rx
  else (rx.placePdu ⟨header, buf⟩).handleRxBufferUpdate header.sn

/-- `timer_expired`. -/
def timerExpired (rx : RlcUmNrRx) : RlcUmNrRx :=
  let rx := advance rx.snSize.mod
    { rx with reassemblyTimer := false, rxNextReassembly := rx.rxTimerTrigger }
  let rx := { rx with rxWindow := rx.rxWindow.filterKeys fun sn => ¬ sn < rx.rxNextReassembly }
  let highest := rx.rxModNrBase rx.rxNextHighest
  let next := rx.rxModNrBase (rx.rxNextReassembly + 1)
  if highest > next ∨ (highest = next ∧ rx.hasMissingByteSegment rx.rxNextReassembly) then
    rx.runTimer
  else rx

end RlcUmNrRx
end SrsLte
